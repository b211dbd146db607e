import ZyOs.Lib.DoublyLinked

/-!
Contract: `lib/kernel/list.c` on the words of kernel memory.

A `struct list_elem` at address `e` is two words: `prev` at `e` and `next` at
`e + 4`. A `struct list` at address `l` is its sentinels `head` at `l` and
`tail` at `l + 8`. `IsList m l elems` says that memory holds a well-formed list
at `l` whose elements are `elems` in order, and each function is described by
what it does to `elems`.

`elem_find`, `list_len` and `list_traversal` follow `next` pointers; each is given
the number of steps it may take, and a well-formed list needs at most its length.
-/

namespace ZyOs.Kernel

open ZyOs.Lib

def tailOf (plist : Nat) : Nat := plist + 8

/-- `list_init`. -/
def listInit (m : Words) (list : Nat) : Words :=
  let m := Function.update m list 0
  let m := Function.update m (list + 4) (tailOf list)
  let m := Function.update m (tailOf list) list
  Function.update m (tailOf list + 4) 0

/-- `list_insert_before`. -/
def listInsertBefore (m : Words) (before elem : Nat) : Words :=
  let m := Function.update m (m before + 4) elem
  let m := Function.update m elem (m before)
  let m := Function.update m (elem + 4) before
  Function.update m before elem

/-- `list_push`. -/
def listPush (m : Words) (plist elem : Nat) : Words :=
  listInsertBefore m (m (plist + 4)) elem

/-- `list_append`. -/
def listAppend (m : Words) (plist elem : Nat) : Words :=
  listInsertBefore m (tailOf plist) elem

/-- `list_remove`. -/
def listRemove (m : Words) (pelem : Nat) : Words :=
  let m := Function.update m (m pelem + 4) (m (pelem + 4))
  Function.update m (m (pelem + 4)) (m pelem)

/-- `list_pop`: the memory after it and the element. -/
def listPop (m : Words) (plist : Nat) : Words × Nat :=
  (listRemove m (m (plist + 4)), m (plist + 4))

/-- `list_empty`. -/
def listEmpty (m : Words) (plist : Nat) : Bool :=
  m (plist + 4) == tailOf plist

/-- The loop of `elem_find`; `none` when `steps` do not suffice. -/
def elemFindFrom (m : Words) (plist objElem : Nat) : Nat → Nat → Option Bool
  | 0, _ => none
  | steps + 1, elem =>
      if elem = tailOf plist then
        some false
      else if elem = objElem then
        some true
      else
        elemFindFrom m plist objElem steps (m (elem + 4))

/-- `elem_find`. No list has `2 ^ 32` elements, so a search that takes as many
steps never ends. -/
def elemFind (m : Words) (plist objElem : Nat) : Option Bool :=
  elemFindFrom m plist objElem (2 ^ 32) (m (plist + 4))

/-- The loop of `list_len`; `none` when `steps` do not suffice. -/
def listLenFrom (m : Words) (plist : Nat) : Nat → Nat → Nat → Option Nat
  | 0, _, _ => none
  | steps + 1, elem, length =>
      if elem = tailOf plist then
        some length
      else
        listLenFrom m plist steps (m (elem + 4)) ((length + 1) % 2 ^ 32)

/-- `list_len`. -/
def listLen (m : Words) (plist : Nat) : Option Nat :=
  listLenFrom m plist (2 ^ 32) (m (plist + 4)) 0

/-- The loop of `list_traversal`; `none` when `steps` do not suffice. The callback
may change `env`, whatever lies outside the lists. -/
def listTraversalFrom {Env : Type} (m : Words) (plist : Nat) (func : Nat → Int → Env → Bool × Env)
    (arg : Int) : Nat → Nat → Env → Option (Option Nat × Env)
  | 0, _, _ => none
  | steps + 1, elem, env =>
      if elem = tailOf plist then
        some (none, env)
      else if (func elem arg env).1 then
        some (some elem, (func elem arg env).2)
      else
        listTraversalFrom m plist func arg steps (m (elem + 4)) (func elem arg env).2

/-- `list_traversal`. -/
def listTraversal {Env : Type} (m : Words) (plist : Nat) (func : Nat → Int → Env → Bool × Env)
    (arg : Int) (env : Env) : Option (Option Nat × Env) :=
  if listEmpty m plist then
    some (none, env)
  else
    listTraversalFrom m plist func arg (2 ^ 32) (m (plist + 4)) env

/-! ### Lists in memory -/

/-- The sentinels and the elements, in order. -/
def nodesOf (plist : Nat) (elems : List Nat) : List Nat :=
  plist :: elems ++ [tailOf plist]

def IsList (m : Words) (plist : Nat) (elems : List Nat) : Prop :=
  Linked m (nodesOf plist elems)

theorem isList_listInit (m : Words) (plist : Nat) : IsList (listInit m plist) plist [] := by
  simp [IsList, nodesOf, Linked, listInit, tailOf, Function.update_apply]

/-- The four words of a list's sentinels are all that `list_init` writes. -/
theorem listInit_other {m : Words} {plist cell : Nat} (other : cell < plist ∨ plist + 16 ≤ cell) :
    listInit m plist cell = m cell := by
  simp only [listInit, tailOf, Function.update_apply]
  repeat rw [if_neg (by omega)]

theorem IsList.first {m : Words} {plist : Nat} {elems : List Nat} (isList : IsList m plist elems) :
    m (plist + 4) = elems.headD (tailOf plist) := by
  cases elems with
  | nil => exact (List.isChain_pair.mp isList).1
  | cons elem rest => exact (List.isChain_cons_cons.mp isList).1.1

theorem IsList.listEmpty {m : Words} {plist : Nat} {elems : List Nat}
    (isList : IsList m plist elems) (apart : Apart (nodesOf plist elems)) :
    listEmpty m plist = elems.isEmpty := by
  unfold Kernel.listEmpty
  rw [isList.first]
  cases elems with
  | nil => simp
  | cons elem rest =>
      have nodup := apart.nodup
      simp only [nodesOf, List.cons_append, List.nodup_cons] at nodup
      have notTail : elem ≠ tailOf plist := by
        intro same
        simp [same] at nodup
      simpa using notTail

/-- `list_insert_before` splices the element in between a node and its predecessor. -/
theorem listInsertBefore_spec {m : Words} {before after : List Nat} {x y elem : Nat}
    (linked : Linked m (before ++ x :: y :: after))
    (apart : Apart (before ++ x :: elem :: y :: after)) :
    listInsertBefore m y elem = spliceIn m x elem y ∧
      Linked (listInsertBefore m y elem) (before ++ x :: elem :: y :: after) := by
  have prev : m y = x := (linked_append_cons.mp linked).2.1.2
  have xNe := apart.words x (by simp) y (by simp)
  have spliced : listInsertBefore m y elem = spliceIn m x elem y := by
    simp [listInsertBefore, spliceIn, prev, xNe.symm]
  refine ⟨spliced, ?_⟩
  rw [spliced]
  exact linked.spliceIn apart

/-- `list_push` splices the element in behind the head. -/
theorem IsList.listPush {m : Words} {plist elem : Nat} {elems : List Nat}
    (isList : IsList m plist elems) (apart : Apart (nodesOf plist (elem :: elems))) :
    IsList (listPush m plist elem) plist (elem :: elems) ∧
      ∃ first ∈ elems ++ [tailOf plist], listPush m plist elem = spliceIn m plist elem first := by
  obtain ⟨first, after, split⟩ : ∃ first after, elems ++ [tailOf plist] = first :: after := by
    cases elems with
    | nil => exact ⟨_, _, rfl⟩
    | cons first after => exact ⟨_, _, rfl⟩
  have linked : Linked m ([] ++ plist :: first :: after) := by
    rw [List.nil_append, ← split]
    exact isList
  have nodes : nodesOf plist (elem :: elems) = [] ++ plist :: elem :: first :: after := by
    simp [nodesOf, split]
  rw [nodes] at apart
  have headNext : m (plist + 4) = first := (linked_append_cons.mp linked).2.1.1
  obtain ⟨spliced, inserted⟩ := listInsertBefore_spec linked apart
  unfold Kernel.listPush IsList
  rw [headNext, nodes]
  exact ⟨inserted, first, by simp [split], spliced⟩

/-- `list_append` splices the element in before the tail. -/
theorem IsList.listAppend {m : Words} {plist elem : Nat} {elems : List Nat}
    (isList : IsList m plist elems) (apart : Apart (nodesOf plist (elems ++ [elem]))) :
    IsList (listAppend m plist elem) plist (elems ++ [elem]) ∧
      ∃ last ∈ plist :: elems, listAppend m plist elem = spliceIn m last elem (tailOf plist) := by
  obtain ⟨before, last, split⟩ : ∃ before last, plist :: elems = before ++ [last] := by
    refine ⟨(plist :: elems).dropLast, (plist :: elems).getLast (by simp), ?_⟩
    exact (List.dropLast_append_getLast _).symm
  have nodes : nodesOf plist elems = before ++ last :: tailOf plist :: [] := by
    simp [nodesOf, split]
  have nodes' : nodesOf plist (elems ++ [elem]) = before ++ last :: elem :: tailOf plist :: [] := by
    have := congrArg (· ++ [elem, tailOf plist]) split
    simpa [nodesOf] using this
  have linked : Linked m (before ++ last :: tailOf plist :: []) := by
    rw [← nodes]
    exact isList
  rw [nodes'] at apart
  obtain ⟨spliced, inserted⟩ := listInsertBefore_spec linked apart
  unfold IsList
  rw [nodes']
  exact ⟨inserted, last, by simp [split], spliced⟩

/-- `list_remove` of a member splices it out. -/
theorem IsList.listRemove {m : Words} {plist elem : Nat} {before after : List Nat}
    (isList : IsList m plist (before ++ elem :: after))
    (apart : Apart (nodesOf plist (before ++ elem :: after))) :
    IsList (listRemove m elem) plist (before ++ after) ∧
      ∃ x ∈ plist :: before, ∃ y ∈ after ++ [tailOf plist],
        listRemove m elem = spliceOut m x y := by
  obtain ⟨left, x, splitLeft⟩ : ∃ left x, plist :: before = left ++ [x] := by
    refine ⟨(plist :: before).dropLast, (plist :: before).getLast (by simp), ?_⟩
    exact (List.dropLast_append_getLast _).symm
  obtain ⟨y, right, splitRight⟩ : ∃ y right, after ++ [tailOf plist] = y :: right := by
    cases after with
    | nil => exact ⟨_, _, rfl⟩
    | cons y right => exact ⟨_, _, rfl⟩
  have nodes : nodesOf plist (before ++ elem :: after) = left ++ x :: elem :: y :: right := by
    have leftEq := congrArg (· ++ (elem :: y :: right)) splitLeft
    simpa [nodesOf, splitRight] using leftEq
  have nodes' : nodesOf plist (before ++ after) = left ++ x :: y :: right := by
    have leftEq := congrArg (· ++ (y :: right)) splitLeft
    simpa [nodesOf, splitRight] using leftEq
  have linked : Linked m (left ++ x :: elem :: y :: right) := by
    rw [← nodes]
    exact isList
  rw [nodes] at apart
  obtain ⟨_, ⟨_, elemPrev⟩, rest⟩ := linked_append_cons.mp linked
  have elemNext : m (elem + 4) = y := (List.isChain_cons_cons.mp rest).1.1
  have nodup := apart.nodup
  have xNe : x ≠ elem := by
    intro same
    simp [same, List.nodup_append] at nodup
  have spliced : Kernel.listRemove m elem = spliceOut m x y := by
    have elemNe := apart.words x (by simp) elem (by simp)
    simp [Kernel.listRemove, spliceOut, elemPrev, elemNext, elemNe.symm, xNe.symm]
  refine ⟨?_, x, by simp [splitLeft], y, by simp [splitRight], spliced⟩
  unfold IsList
  rw [nodes', spliced]
  exact linked.spliceOut apart

/-- Behind an element of a list comes the next one, or the tail. -/
theorem Linked.next_eq {m : Words} {plist elem : Nat} {rest : List Nat}
    (linked : Linked m (elem :: rest ++ [tailOf plist])) :
    m (elem + 4) = rest.headD (tailOf plist) := by
  cases rest with
  | nil => exact (List.isChain_pair.mp linked).1
  | cons after others => exact (List.isChain_cons_cons.mp linked).1.1

theorem elemFindFrom_spec {m : Words} {plist objElem : Nat} {elems : List Nat} {steps : Nat}
    (linked : Linked m (elems ++ [tailOf plist])) (notTail : tailOf plist ∉ elems)
    (enough : elems.length < steps) :
    elemFindFrom m plist objElem steps (elems.headD (tailOf plist)) =
      some (decide (objElem ∈ elems)) := by
  induction elems generalizing steps with
  | nil =>
      obtain ⟨steps, rfl⟩ := Nat.exists_eq_succ_of_ne_zero (Nat.ne_zero_of_lt enough)
      simp [elemFindFrom]
  | cons elem rest inductionHypothesis =>
      obtain ⟨steps, rfl⟩ := Nat.exists_eq_succ_of_ne_zero (Nat.ne_zero_of_lt enough)
      rw [List.mem_cons, not_or] at notTail
      have found := inductionHypothesis linked.tail notTail.2 (Nat.succ_lt_succ_iff.mp enough)
      unfold elemFindFrom
      rw [List.headD_cons, if_neg (Ne.symm notTail.1), Linked.next_eq linked]
      by_cases isObj : elem = objElem
      · simp [isObj]
      · rw [if_neg isObj, found]
        simp [Ne.symm isObj]

/-- The tail is no element. -/
theorem tail_notMem {plist : Nat} {elems : List Nat} (nodup : (nodesOf plist elems).Nodup) :
    tailOf plist ∉ elems := by
  intro mem
  have distinct := (List.nodup_cons.mp nodup).2
  exact (List.nodup_append.mp distinct).2.2 _ mem _ (List.mem_singleton.mpr rfl) rfl

theorem IsList.elemFind {m : Words} {plist objElem : Nat} {elems : List Nat}
    (isList : IsList m plist elems) (apart : Apart (nodesOf plist elems))
    (bounded : elems.length < 2 ^ 32) :
    elemFind m plist objElem = some (decide (objElem ∈ elems)) := by
  unfold Kernel.elemFind
  rw [isList.first]
  exact elemFindFrom_spec isList.tail (tail_notMem apart.nodup) bounded

/-- The loop of `list_len` counts on, as far as 32 bits go. -/
theorem listLenFrom_spec {m : Words} {plist : Nat} {elems : List Nat} {steps length : Nat}
    (linked : Linked m (elems ++ [tailOf plist])) (notTail : tailOf plist ∉ elems)
    (enough : elems.length < steps) (fits : length + elems.length < 2 ^ 32) :
    listLenFrom m plist steps (elems.headD (tailOf plist)) length = some (length + elems.length) := by
  induction elems generalizing steps length with
  | nil =>
      obtain ⟨steps, rfl⟩ := Nat.exists_eq_succ_of_ne_zero (Nat.ne_zero_of_lt enough)
      simp [listLenFrom]
  | cons elem rest inductionHypothesis =>
      obtain ⟨steps, rfl⟩ := Nat.exists_eq_succ_of_ne_zero (Nat.ne_zero_of_lt enough)
      rw [List.mem_cons, not_or] at notTail
      rw [List.length_cons] at fits
      unfold listLenFrom
      rw [List.headD_cons, if_neg (Ne.symm notTail.1), Linked.next_eq linked,
        Nat.mod_eq_of_lt (by omega),
        inductionHypothesis linked.tail notTail.2 (Nat.succ_lt_succ_iff.mp enough) (by omega),
        List.length_cons]
      congr 1
      omega

theorem IsList.listLen {m : Words} {plist : Nat} {elems : List Nat}
    (isList : IsList m plist elems) (apart : Apart (nodesOf plist elems))
    (bounded : elems.length < 2 ^ 32) : listLen m plist = some elems.length := by
  unfold Kernel.listLen
  rw [isList.first, listLenFrom_spec isList.tail (tail_notMem apart.nodup) bounded
    (by rwa [Nat.zero_add]), Nat.zero_add]

/-- The first element for which the callback returns true, with what the callbacks
have done by then. -/
def firstMatch {Env : Type} (func : Nat → Int → Env → Bool × Env) (arg : Int) :
    List Nat → Env → Option Nat × Env
  | [], env => (none, env)
  | elem :: rest, env =>
      if (func elem arg env).1 then
        (some elem, (func elem arg env).2)
      else
        firstMatch func arg rest (func elem arg env).2

/-- A callback that only looks at the element finds what `find?` finds. -/
theorem firstMatch_eq_find? {Env : Type} {func : Nat → Int → Env → Bool × Env} {arg : Int}
    {pred : Nat → Bool} (looks : ∀ elem env, func elem arg env = (pred elem, env)) (elems : List Nat)
    (env : Env) : firstMatch func arg elems env = (elems.find? pred, env) := by
  induction elems with
  | nil => rfl
  | cons elem rest inductionHypothesis =>
      rw [firstMatch, looks, List.find?_cons]
      cases pred elem with
      | true => rfl
      | false => exact inductionHypothesis

theorem listTraversalFrom_spec {Env : Type} {m : Words} {plist : Nat}
    {func : Nat → Int → Env → Bool × Env} {arg : Int} {elems : List Nat} {steps : Nat} {env : Env}
    (linked : Linked m (elems ++ [tailOf plist])) (notTail : tailOf plist ∉ elems)
    (enough : elems.length < steps) :
    listTraversalFrom m plist func arg steps (elems.headD (tailOf plist)) env =
      some (firstMatch func arg elems env) := by
  induction elems generalizing steps env with
  | nil =>
      obtain ⟨steps, rfl⟩ := Nat.exists_eq_succ_of_ne_zero (Nat.ne_zero_of_lt enough)
      simp [listTraversalFrom, firstMatch]
  | cons elem rest inductionHypothesis =>
      obtain ⟨steps, rfl⟩ := Nat.exists_eq_succ_of_ne_zero (Nat.ne_zero_of_lt enough)
      rw [List.mem_cons, not_or] at notTail
      unfold listTraversalFrom firstMatch
      rw [List.headD_cons, if_neg (Ne.symm notTail.1), Linked.next_eq linked,
        inductionHypothesis linked.tail notTail.2 (Nat.succ_lt_succ_iff.mp enough)]
      split <;> rfl

theorem IsList.listTraversal {Env : Type} {m : Words} {plist : Nat} {elems : List Nat}
    (isList : IsList m plist elems) (apart : Apart (nodesOf plist elems))
    (bounded : elems.length < 2 ^ 32) (func : Nat → Int → Env → Bool × Env) (arg : Int) (env : Env) :
    listTraversal m plist func arg env = some (firstMatch func arg elems env) := by
  unfold Kernel.listTraversal
  rw [isList.listEmpty apart, isList.first,
    listTraversalFrom_spec isList.tail (tail_notMem apart.nodup) bounded]
  cases elems with
  | nil => rfl
  | cons elem rest => rfl

end ZyOs.Kernel
