import Mathlib.Data.List.Perm.Subperm
import ZyOs.Kernel.List

/-!
Contract: several lists of `lib/kernel/list.c` in one memory.

Owns:
- where the sentinels and elements of the lists may lie: no word is shared, and every
  node lies below `2 ^ 32`;
- what each function does to the sequence of the list it works on, and that it leaves
  the other lists alone;
- runs of calls.

`list_insert_before` and `list_remove` run with interrupts off, so a call is one step.
-/

namespace ZyOs.Kernel

open ZyOs.Lib

variable {ι : Type} {m : Words} {addr : ι → Nat} {seq seq' : ι → List Nat} {i j : ι}
  {elem : Nat} {elems : List Nat}

/-! ### Where the nodes lie -/

/-- The nodes of list `i`, whose head is at `addr i` and whose elements are `seq i`,
share no word with each other or with those of another list. -/
structure Placed (addr : ι → Nat) (seq : ι → List Nat) : Prop where
  nodup : ∀ i, (nodesOf (addr i) (seq i)).Nodup
  disjoint : ∀ i j, i ≠ j → ∀ x ∈ nodesOf (addr i) (seq i), x ∉ nodesOf (addr j) (seq j)
  words : ∀ i j, ∀ x ∈ nodesOf (addr i) (seq i), ∀ y ∈ nodesOf (addr j) (seq j), x + 4 ≠ y
  inside : ∀ i, ∀ x ∈ nodesOf (addr i) (seq i), x + 8 ≤ 2 ^ 32

/-- The element shares no word with a node of a list. -/
structure Fresh (addr : ι → Nat) (seq : ι → List Nat) (elem : Nat) : Prop where
  notNode : ∀ i, elem ∉ nodesOf (addr i) (seq i)
  words : ∀ i, ∀ x ∈ nodesOf (addr i) (seq i), elem + 4 ≠ x ∧ x + 4 ≠ elem
  inside : elem + 8 ≤ 2 ^ 32

namespace Placed

theorem apart (placed : Placed addr seq) (i : ι) : Apart (nodesOf (addr i) (seq i)) where
  nodup := placed.nodup i
  words := placed.words i i

theorem apart_append (placed : Placed addr seq) (ne : i ≠ j) :
    Apart (nodesOf (addr i) (seq i) ++ nodesOf (addr j) (seq j)) where
  nodup := by
    refine List.nodup_append.mpr ⟨placed.nodup i, placed.nodup j, ?_⟩
    rintro x memI y memJ rfl
    exact placed.disjoint i j ne x memI memJ
  words x memX y memY := by
    rcases List.mem_append.mp memX with memX | memX <;> rcases List.mem_append.mp memY with memY | memY
    · exact placed.words i i x memX y memY
    · exact placed.words i j x memX y memY
    · exact placed.words j i x memX y memY
    · exact placed.words j j x memX y memY

/-- There are not `2 ^ 32` places for elements. -/
theorem length_lt (placed : Placed addr seq) (i : ι) : (seq i).length < 2 ^ 32 := by
  have sub : nodesOf (addr i) (seq i) ⊆ List.range (2 ^ 32) := by
    intro x mem
    have inside := placed.inside i x mem
    exact List.mem_range.mpr (by omega)
  have le := ((placed.nodup i).subperm sub).length_le
  rw [List.length_range, nodesOf, List.length_append, List.length_cons, List.length_singleton] at le
  omega

/-- Lists may lose elements. -/
theorem sublist (placed : Placed addr seq) (sub : ∀ i, (seq' i).Sublist (seq i)) :
    Placed addr seq' := by
  have nodes : ∀ i, (nodesOf (addr i) (seq' i)).Sublist (nodesOf (addr i) (seq i)) := fun i =>
    ((sub i).cons_cons _).append (List.Sublist.refl _)
  refine ⟨fun i => (placed.nodup i).sublist (nodes i), fun i j ne x memI memJ => ?_,
    fun i j x memX y memY => ?_, fun i x mem => ?_⟩
  · exact placed.disjoint i j ne x ((nodes i).subset memI) ((nodes j).subset memJ)
  · exact placed.words i j x ((nodes i).subset memX) y ((nodes j).subset memY)
  · exact placed.inside i x ((nodes i).subset mem)

variable [DecidableEq ι]

theorem mem_nodes_update {x : Nat} (isPerm : elems.Perm (elem :: seq i))
    (mem : x ∈ nodesOf (addr j) (Function.update seq i elems j)) :
    x = elem ∧ j = i ∨ x ∈ nodesOf (addr j) (seq j) := by
  by_cases same : j = i
  · subst same
    rw [Function.update_self] at mem
    rcases List.mem_append.mp mem with mem | isTail
    · rcases List.mem_cons.mp mem with isHead | mem
      · exact .inr (isHead ▸ List.mem_cons_self)
      · rcases List.mem_cons.mp (isPerm.subset mem) with isElem | mem
        · exact .inl ⟨isElem, rfl⟩
        · exact .inr (List.mem_append_left _ (List.mem_cons_of_mem _ mem))
    · exact .inr (List.mem_append_right _ isTail)
  · rw [Function.update_of_ne same] at mem
    exact .inr mem

/-- A list may get an element that is fresh. -/
theorem insert (placed : Placed addr seq) (fresh : Fresh addr seq elem)
    (isPerm : elems.Perm (elem :: seq i)) : Placed addr (Function.update seq i elems) := by
  refine ⟨fun j => ?_, fun j k ne x memJ memK => ?_, fun j k x memX y memY => ?_, fun j x mem => ?_⟩
  · by_cases same : j = i
    · subst same
      rw [Function.update_self]
      have isPerm' : (nodesOf (addr j) elems).Perm (elem :: nodesOf (addr j) (seq j)) := by
        refine ((isPerm.cons (addr j)).append_right [tailOf (addr j)]).trans ?_
        exact List.Perm.swap _ _ _
      rw [isPerm'.nodup_iff]
      exact List.nodup_cons.mpr ⟨fresh.notNode j, placed.nodup j⟩
    · rw [Function.update_of_ne same]
      exact placed.nodup j
  · rcases mem_nodes_update isPerm memJ with ⟨rfl, rfl⟩ | memJ <;>
      rcases mem_nodes_update isPerm memK with ⟨isElem, isList⟩ | memK
    · exact ne isList.symm
    · exact fresh.notNode k memK
    · exact fresh.notNode j (isElem ▸ memJ)
    · exact placed.disjoint j k ne x memJ memK
  · rcases mem_nodes_update isPerm memX with ⟨rfl, rfl⟩ | memX <;>
      rcases mem_nodes_update isPerm memY with ⟨rfl, isList⟩ | memY
    · omega
    · exact (fresh.words k y memY).1
    · exact (fresh.words j x memX).2
    · exact placed.words j k x memX y memY
  · rcases mem_nodes_update isPerm mem with ⟨rfl, rfl⟩ | mem
    · exact fresh.inside
    · exact placed.inside j x mem

/-- No other element can be put into a list. -/
theorem fresh (placed : Placed addr (Function.update seq i elems))
    (isPerm : elems.Perm (elem :: seq i)) : Fresh addr seq elem := by
  have inNew : elem ∈ nodesOf (addr i) (Function.update seq i elems i) := by
    rw [Function.update_self]
    exact List.mem_append_left _ (List.mem_cons_of_mem _ (isPerm.symm.subset List.mem_cons_self))
  have isPerm' : (nodesOf (addr i) elems).Perm (elem :: nodesOf (addr i) (seq i)) :=
    ((isPerm.cons (addr i)).append_right [tailOf (addr i)]).trans (List.Perm.swap _ _ _)
  have isOld : ∀ j, ∀ x ∈ nodesOf (addr j) (seq j), x ∈ nodesOf (addr j) (Function.update seq i elems j) := by
    intro j x mem
    by_cases same : j = i
    · subst same
      rw [Function.update_self]
      exact isPerm'.symm.subset (List.mem_cons_of_mem _ mem)
    · rwa [Function.update_of_ne same]
  refine ⟨fun j mem => ?_, fun j x mem => ⟨?_, ?_⟩, placed.inside i elem inNew⟩
  · by_cases same : j = i
    · subst same
      have nodup := placed.nodup j
      rw [Function.update_self, isPerm'.nodup_iff] at nodup
      exact (List.nodup_cons.mp nodup).1 mem
    · exact placed.disjoint i j (Ne.symm same) elem inNew (isOld j elem mem)
  · exact placed.words i j elem inNew x (isOld j x mem)
  · exact placed.words j i x (isOld j x mem) elem inNew

end Placed

/-! ### Lists in one memory -/

/-- Memory holds the sequence `seq i` as the list at `addr i`, for every `i`. -/
structure HoldsLists (m : Words) (addr : ι → Nat) (seq : ι → List Nat) : Prop where
  isList : ∀ i, IsList m (addr i) (seq i)
  placed : Placed addr seq

namespace HoldsLists

variable [DecidableEq ι]

/-- What is left to show when only the list `i` has been worked on. -/
theorem of_update {m' : Words} (holds : HoldsLists m addr seq)
    (placed : Placed addr (Function.update seq i elems)) (isList : IsList m' (addr i) elems)
    (frame : ∀ j, j ≠ i → Linked m (nodesOf (addr j) (seq j)) → Linked m' (nodesOf (addr j) (seq j))) :
    HoldsLists m' addr (Function.update seq i elems) where
  isList j := by
    by_cases same : j = i
    · subst same
      rw [Function.update_self]
      exact isList
    · rw [Function.update_of_ne same]
      exact frame j same (holds.isList j)
  placed := placed

/-- The chain of another list beside the nodes of the list that has been changed. -/
theorem apart_other (placed : Placed addr (Function.update seq i elems)) (ne : j ≠ i) :
    Apart (nodesOf (addr j) (seq j) ++ nodesOf (addr i) elems) := by
  have apart := placed.apart_append ne
  rwa [Function.update_of_ne ne, Function.update_self] at apart

/-- `list_push` puts the element in front, and writes words of nodes only. -/
theorem push (holds : HoldsLists m addr seq) (fresh : Fresh addr seq elem) (i : ι) :
    HoldsLists (listPush m (addr i) elem) addr (Function.update seq i (elem :: seq i)) ∧
      ∀ cell, (∀ z ∈ nodesOf (addr i) (elem :: seq i), cell ≠ z ∧ cell ≠ z + 4) →
        listPush m (addr i) elem cell = m cell := by
  have placed := holds.placed.insert (i := i) fresh (List.Perm.refl _)
  have apart := placed.apart i
  rw [Function.update_self] at apart
  obtain ⟨isList, first, memFirst, spliced⟩ := (holds.isList i).listPush apart
  have memHead : addr i ∈ nodesOf (addr i) (elem :: seq i) := List.mem_cons_self
  have memElem : elem ∈ nodesOf (addr i) (elem :: seq i) :=
    List.mem_cons_of_mem _ List.mem_cons_self
  have memFirst : first ∈ nodesOf (addr i) (elem :: seq i) :=
    List.mem_cons_of_mem _ (List.mem_cons_of_mem _ memFirst)
  refine ⟨holds.of_update placed isList fun j ne linked => ?_, fun cell off => ?_⟩
  · rw [spliced]
    exact linked.frame_spliceIn (apart_other placed ne) memHead memElem memFirst
  · rw [spliced]
    exact spliceIn_other memHead memElem memFirst off

/-- `list_append` puts the element behind. -/
theorem append (holds : HoldsLists m addr seq) (fresh : Fresh addr seq elem) (i : ι) :
    HoldsLists (listAppend m (addr i) elem) addr (Function.update seq i (seq i ++ [elem])) ∧
      ∀ cell, (∀ z ∈ nodesOf (addr i) (seq i ++ [elem]), cell ≠ z ∧ cell ≠ z + 4) →
        listAppend m (addr i) elem cell = m cell := by
  have placed := holds.placed.insert (i := i) fresh (List.perm_append_singleton _ _)
  have apart := placed.apart i
  rw [Function.update_self] at apart
  obtain ⟨isList, last, memLast, spliced⟩ := (holds.isList i).listAppend apart
  have memLast : last ∈ nodesOf (addr i) (seq i ++ [elem]) := by
    rcases List.mem_cons.mp memLast with rfl | memLast
    · exact List.mem_cons_self
    · exact List.mem_cons_of_mem _ (List.mem_append_left _ (List.mem_append_left _ memLast))
  have memElem : elem ∈ nodesOf (addr i) (seq i ++ [elem]) := by simp [nodesOf]
  have memTail : tailOf (addr i) ∈ nodesOf (addr i) (seq i ++ [elem]) := by simp [nodesOf]
  refine ⟨holds.of_update placed isList fun j ne linked => ?_, fun cell off => ?_⟩
  · rw [spliced]
    exact linked.frame_spliceIn (apart_other placed ne) memLast memElem memTail
  · rw [spliced]
    exact spliceIn_other memLast memElem memTail off

/-- Only an element that is fresh can be put in: with any other, no memory holds the lists. -/
theorem push_iff (holds : HoldsLists m addr seq) (i : ι) (elem : Nat) :
    HoldsLists (listPush m (addr i) elem) addr (Function.update seq i (elem :: seq i)) ↔
      Fresh addr seq elem :=
  ⟨fun pushed => pushed.placed.fresh (List.Perm.refl _), fun fresh => (holds.push fresh i).1⟩

theorem append_iff (holds : HoldsLists m addr seq) (i : ι) (elem : Nat) :
    HoldsLists (listAppend m (addr i) elem) addr (Function.update seq i (seq i ++ [elem])) ↔
      Fresh addr seq elem :=
  ⟨fun appended => appended.placed.fresh (List.perm_append_singleton _ _),
    fun fresh => (holds.append fresh i).1⟩

/-- `list_remove` takes a member out, whichever list it is in. -/
theorem remove (holds : HoldsLists m addr seq) (mem : elem ∈ seq i) :
    HoldsLists (listRemove m elem) addr (Function.update seq i ((seq i).erase elem)) ∧
      ∀ cell, (∀ z ∈ nodesOf (addr i) (seq i), cell ≠ z ∧ cell ≠ z + 4) →
        listRemove m elem cell = m cell := by
  have placed : Placed addr (Function.update seq i ((seq i).erase elem)) := by
    refine holds.placed.sublist fun j => ?_
    by_cases same : j = i
    · subst same
      rw [Function.update_self]
      exact List.erase_sublist
    · rw [Function.update_of_ne same]
  obtain ⟨before, after, split⟩ := List.append_of_mem mem
  have nodup := holds.placed.nodup i
  have isErased : (seq i).erase elem = before ++ after := by
    have notBefore : elem ∉ before := by
      intro inBefore
      rw [split, nodesOf] at nodup
      have distinct := (List.nodup_append.mp (List.nodup_cons.mp nodup).2).1
      exact (List.nodup_append.mp distinct).2.2 elem inBefore elem List.mem_cons_self rfl
    rw [split, List.erase_append_right _ notBefore, List.erase_cons_head]
  have isListOld := holds.isList i
  have apart := holds.placed.apart i
  rw [split] at isListOld apart
  obtain ⟨isList, x, memX, y, memY, spliced⟩ := isListOld.listRemove apart
  have memX : x ∈ nodesOf (addr i) (seq i) := by
    rw [split]
    exact List.mem_append_left _ (List.mem_append_left (elem :: after) memX)
  have memY : y ∈ nodesOf (addr i) (seq i) := by
    rw [split, nodesOf, ← List.cons_append, List.append_assoc]
    exact List.mem_append_right _ (List.mem_cons_of_mem _ memY)
  refine ⟨holds.of_update placed (isErased ▸ isList) fun j ne linked => ?_, fun cell off => ?_⟩
  · rw [spliced]
    exact linked.frame_spliceOut (holds.placed.apart_append ne) memX memY
  · rw [spliced]
    exact spliceOut_other memX memY off

omit [DecidableEq ι] in
theorem listInit_off {plist cell : Nat} (off : ∀ z ∈ nodesOf plist [], cell ≠ z ∧ cell ≠ z + 4) :
    listInit m plist cell = m cell := by
  have offHead := off plist List.mem_cons_self
  have offTail := off (tailOf plist) (List.mem_cons_of_mem _ List.mem_cons_self)
  simp [listInit, offHead, offTail]

/-- `list_init` makes the list empty, whatever its sentinels held. -/
theorem init (placed : Placed addr (Function.update seq i []))
    (others : ∀ j, j ≠ i → IsList m (addr j) (seq j)) :
    HoldsLists (listInit m (addr i)) addr (Function.update seq i []) where
  isList j := by
    by_cases same : j = i
    · subst same
      rw [Function.update_self]
      exact isList_listInit m (addr j)
    · rw [Function.update_of_ne same]
      have apart := apart_other placed same
      have distinct := (List.nodup_append.mp apart.nodup).2.2
      refine (others j same).congr (fun z mem => ?_) fun z mem => ?_
      · refine listInit_off fun w memW => ⟨?_, fun isNext => ?_⟩
        · exact apart.words z (List.mem_append_left _ mem) w (List.mem_append_right _ memW)
        · exact distinct z mem w memW (Nat.add_right_cancel isNext)
      · refine listInit_off fun w memW => ⟨distinct z mem w memW, ?_⟩
        exact (apart.words w (List.mem_append_right _ memW) z (List.mem_append_left _ mem)).symm
  placed := placed

end HoldsLists

/-! ### Calls -/

variable {Env : Type}

/-- A call of a list function, with the index of the list. `list_remove` gets the element
only; its list is the one that has the element. -/
inductive ListCall (ι Env : Type) where
  | listPush (plist : ι) (elem : Nat)
  | listAppend (plist : ι) (elem : Nat)
  | listRemove (plist : ι) (pelem : Nat)
  | listPop (plist : ι)
  | elemFind (plist : ι) (objElem : Nat)
  | listLen (plist : ι)
  | listTraversal (plist : ι) (func : Nat → Int → Env → Bool × Env) (arg : Int)

/-- What a call returns; `none` of an element is `NULL`. -/
inductive ListReturn where
  | void
  | element (elem : Option Nat)
  | truth (value : Bool)
  | number (value : Nat)
deriving DecidableEq, Repr

namespace ListCall

/-- The list that a call is about. -/
def list : ListCall ι Env → ι
  | .listPush plist _ | .listAppend plist _ | .listRemove plist _ | .listPop plist
  | .elemFind plist _ | .listLen plist | .listTraversal plist _ _ => plist

/-- The call on memory; `none` when it does not end. -/
def exec (addr : ι → Nat) (m : Words) (env : Env) : ListCall ι Env → Option (ListReturn × Words × Env)
  | .listPush plist elem => some (.void, Kernel.listPush m (addr plist) elem, env)
  | .listAppend plist elem => some (.void, Kernel.listAppend m (addr plist) elem, env)
  | .listRemove _ pelem => some (.void, Kernel.listRemove m pelem, env)
  | .listPop plist =>
      some (.element (Kernel.listPop m (addr plist)).2, (Kernel.listPop m (addr plist)).1, env)
  | .elemFind plist objElem =>
      (Kernel.elemFind m (addr plist) objElem).map fun found => (.truth found, m, env)
  | .listLen plist => (Kernel.listLen m (addr plist)).map fun length => (.number length, m, env)
  | .listTraversal plist func arg =>
      (Kernel.listTraversal m (addr plist) func arg env).map fun hit => (.element hit.1, m, hit.2)

/-- What the call is for: what it returns, the sequence it makes of that of its list, and
what callbacks have done. -/
def act (elems : List Nat) (env : Env) : ListCall ι Env → ListReturn × List Nat × Env
  | .listPush _ elem => (.void, elem :: elems, env)
  | .listAppend _ elem => (.void, elems ++ [elem], env)
  | .listRemove _ pelem => (.void, elems.erase pelem, env)
  | .listPop _ => (.element elems.head?, elems.tail, env)
  | .elemFind _ objElem => (.truth (decide (objElem ∈ elems)), elems, env)
  | .listLen _ => (.number elems.length, elems, env)
  | .listTraversal _ func arg =>
      (.element (firstMatch func arg elems env).1, elems, (firstMatch func arg elems env).2)

/-- An element to be put in is fresh, one to be taken out is there. -/
def Allowed (addr : ι → Nat) (seq : ι → List Nat) : ListCall ι Env → Prop
  | .listPush _ elem | .listAppend _ elem => Fresh addr seq elem
  | .listRemove plist pelem => pelem ∈ seq plist
  | .listPop plist => seq plist ≠ []
  | .elemFind _ _ | .listLen _ | .listTraversal _ _ _ => True

variable [DecidableEq ι] {env : Env}

/-- One call. -/
theorem refines (holds : HoldsLists m addr seq) (env : Env) (call : ListCall ι Env)
    (allowed : call.Allowed addr seq) :
    ∃ m', call.exec addr m env = some ((call.act (seq call.list) env).1, m',
        (call.act (seq call.list) env).2.2) ∧
      HoldsLists m' addr (Function.update seq call.list (call.act (seq call.list) env).2.1) := by
  have same : ∀ plist, HoldsLists m addr (Function.update seq plist (seq plist)) := fun plist => by
    rwa [Function.update_eq_self]
  cases call with
  | listPush plist elem => exact ⟨_, rfl, (holds.push allowed plist).1⟩
  | listAppend plist elem => exact ⟨_, rfl, (holds.append allowed plist).1⟩
  | listRemove plist pelem => exact ⟨_, rfl, (holds.remove allowed).1⟩
  | listPop plist =>
      obtain ⟨elem, rest, isSeq⟩ := List.exists_cons_of_ne_nil allowed
      have isFirst : m (addr plist + 4) = elem := by
        rw [(holds.isList plist).first, isSeq]
        rfl
      have isMember : elem ∈ seq plist := by
        rw [isSeq]
        exact List.mem_cons_self
      have removed := (holds.remove isMember).1
      refine ⟨Kernel.listRemove m elem, ?_, ?_⟩
      · simp only [exec, act, list, Kernel.listPop, isFirst, isSeq, List.head?_cons]
      · simpa only [act, list, isSeq, List.erase_cons_head, List.tail_cons] using removed
  | elemFind plist objElem =>
      refine ⟨m, ?_, same plist⟩
      rw [exec, (holds.isList plist).elemFind (holds.placed.apart plist) (holds.placed.length_lt plist)]
      rfl
  | listLen plist =>
      refine ⟨m, ?_, same plist⟩
      rw [exec, (holds.isList plist).listLen (holds.placed.apart plist) (holds.placed.length_lt plist)]
      rfl
  | listTraversal plist func arg =>
      refine ⟨m, ?_, same plist⟩
      rw [exec, (holds.isList plist).listTraversal (holds.placed.apart plist)
        (holds.placed.length_lt plist)]
      rfl

/-- Calls one after the other on memory, with what they return. -/
def execAll (addr : ι → Nat) : Words → Env → List (ListCall ι Env) →
    Option (List ListReturn × Words × Env)
  | m, env, [] => some ([], m, env)
  | m, env, call :: calls => do
      let (answer, m, env) ← call.exec addr m env
      let (answers, m, env) ← execAll addr m env calls
      some (answer :: answers, m, env)

/-- What the calls are for. -/
def actAll : (ι → List Nat) → Env → List (ListCall ι Env) → List ListReturn × (ι → List Nat) × Env
  | seq, env, [] => ([], seq, env)
  | seq, env, call :: calls =>
      let acted := call.act (seq call.list) env
      let rest := actAll (Function.update seq call.list acted.2.1) acted.2.2 calls
      (acted.1 :: rest.1, rest.2)

/-- Every call is allowed when its turn comes. -/
def AllowedAll (addr : ι → Nat) : (ι → List Nat) → Env → List (ListCall ι Env) → Prop
  | _, _, [] => True
  | seq, env, call :: calls =>
      call.Allowed addr seq ∧ AllowedAll addr
        (Function.update seq call.list (call.act (seq call.list) env).2.1)
        (call.act (seq call.list) env).2.2 calls

end ListCall

open ListCall

variable [DecidableEq ι]

/-- From every memory that holds lists, calls end, return what the calls on the sequences
return, leave a memory that holds the sequences they make, and do nothing to the lists that
none of them is about. -/
theorem list_calls_refine (holds : HoldsLists m addr seq) (env : Env) (calls : List (ListCall ι Env))
    (allowed : AllowedAll addr seq env calls) :
    ∃ m', execAll addr m env calls = some ((actAll seq env calls).1, m', (actAll seq env calls).2.2) ∧
      HoldsLists m' addr (actAll seq env calls).2.1 ∧
      ∀ j, (∀ call ∈ calls, call.list ≠ j) → (actAll seq env calls).2.1 j = seq j := by
  induction calls generalizing m seq env with
  | nil => exact ⟨m, rfl, holds, fun _ _ => rfl⟩
  | cons call calls inductionHypothesis =>
      obtain ⟨m₁, isCall, holds₁⟩ := call.refines holds env allowed.1
      obtain ⟨m₂, areCalls, holds₂, others⟩ := inductionHypothesis holds₁ _ allowed.2
      refine ⟨m₂, ?_, holds₂, fun j noneAbout => ?_⟩
      · rw [execAll, isCall]
        show (do
          let (answers, m, env) ← execAll addr m₁ _ calls
          some (_ :: answers, m, env)) = _
        rw [areCalls]
        rfl
      · have notFirst := noneAbout call List.mem_cons_self
        have isRest := others j fun other mem => noneAbout other (List.mem_cons_of_mem _ mem)
        rw [Function.update_of_ne (Ne.symm notFirst)] at isRest
        exact isRest

/-- Two lists, with their heads at 16 and 48. -/
def twoLists (i : Bool) : Nat := if i then 48 else 16

theorem twoLists_hold :
    HoldsLists (listInit (listInit (fun _ => 0) 16) 48) twoLists fun _ => [] := by
  have placed : Placed twoLists fun _ => [] := ⟨by decide, by decide, by decide, by decide⟩
  have first : IsList (listInit (fun _ => 0) 16) 16 [] := isList_listInit _ _
  have isEmpty : Function.update (fun _ : Bool => ([] : List Nat)) true [] = fun _ => [] :=
    Function.update_eq_self true _
  rw [← isEmpty] at placed ⊢
  refine HoldsLists.init placed fun j ne => ?_
  cases j with
  | false => exact first
  | true => exact absurd rfl ne

/-- An element goes through the first list while another one stays in it. -/
theorem list_calls_refine_two :
    ∃ m' seq', execAll twoLists (listInit (listInit (fun _ => 0) 16) 48) ()
        [.listPush false 80, .listAppend false 96, .listPop false, .listAppend true 80, .listLen false] =
          some ([.void, .void, .element (some 80), .void, .number 1], m', ()) ∧
      HoldsLists m' twoLists seq' ∧ seq' false = [96] ∧ seq' true = [80] := by
  obtain ⟨m', isRun, holds, -⟩ := list_calls_refine twoLists_hold ()
    [.listPush false 80, .listAppend false 96, .listPop false, .listAppend true 80, .listLen false]
    ⟨⟨by decide, by decide, by decide⟩, ⟨by decide, by decide, by decide⟩, List.cons_ne_nil 80 [96],
      ⟨by decide, by decide, by decide⟩, trivial, trivial⟩
  exact ⟨m', _, isRun, holds, by decide, by decide⟩

end ZyOs.Kernel
