import Mathlib.Data.List.Nodup
import Mathlib.Data.List.Range
import ZyOs.Lib.Interleaving

/-!
Contract: `allocate_pid` by any number of tasks.

Owns:
- its four actions, between which a task switch can fall while interrupts are on: the
  lock is taken, `next_pid` goes up, the lock is released, `next_pid` is read again;
- the pids that calls have returned, in order.

The read comes after the lock is released. A call with interrupts off, such as that of
`sys_fork`, lets no other task run once it has the lock.

Does not own: how the lock works.
-/

namespace ZyOs.Thread

open Lib

variable {Task : Type} [DecidableEq Task]

/-! ### The state -/

/-- `next_pid` and `pid_lock`. Ghost: the task that runs a call with interrupts off, the
tasks whose increment they have not read yet, and the pids returned. -/
structure PidShared (Task : Type) where
  nextPid : Int
  lock : Option Task
  masked : Option Task
  unread : Task → Bool
  returned : List Int

inductive PidLabel where
  | lockAcquire
  | increment
  | lockRelease
  | read
deriving DecidableEq, Repr

/-- No other task has switched interrupts off. -/
def PidShared.runs (s : PidShared Task) (t : Task) : Bool := s.masked = none ∨ s.masked = some t

/-- A `pid_t` is an `int16_t`. -/
def pidOf (n : Int) : Int := n.bmod (2 ^ 16)

/-! ### The function, action by action -/

abbrev PidCode (Task α : Type) := Code (PidShared Task) PidLabel α

/-- `lock_acquire(&pid_lock)`. -/
def pidLockAcquire (t : Task) (intrOn : Bool) : PidCode Task Unit :=
  .await .lockAcquire (fun s => s.runs t ∧ s.lock = none) fun s =>
    { s with lock := some t, masked := if intrOn then s.masked else some t }

/-- `next_pid ++`. -/
def pidIncrement (t : Task) : PidCode Task Unit :=
  .await .increment (fun s => s.runs t) fun s =>
    { s with nextPid := pidOf (s.nextPid + 1), unread := Function.update s.unread t true }

/-- `lock_release(&pid_lock)`. -/
def pidLockRelease (t : Task) : PidCode Task Unit :=
  .await .lockRelease (fun s => s.runs t) fun s => { s with lock := none }

/-- `return next_pid`. -/
def pidRead (t : Task) : PidCode Task Unit :=
  .await .read (fun s => s.runs t) fun s =>
    { s with
      returned := s.returned ++ [s.nextPid]
      unread := Function.update s.unread t false
      masked := if s.masked = some t then none else s.masked }

/-- `allocate_pid`, with interrupts on or off. -/
def allocatePid (t : Task) (intrOn : Bool) : PidCode Task Unit := do
  pidLockAcquire t intrOn
  pidIncrement t
  pidLockRelease t
  pidRead t

/-- The calls of a task. -/
def IsPidCall (t : Task) (body : PidCode Task Unit) : Prop := ∃ intrOn, body = allocatePid t intrOn

/-- Nobody has called yet. -/
structure PidInitial (c : System Task (PidShared Task) PidLabel) : Prop where
  idle : ∀ t, c.code t = .done ()
  nextPid : c.shared.nextPid = 0
  lock : c.shared.lock = none
  masked : c.shared.masked = none
  unread : ∀ t, c.shared.unread t = false
  returned : c.shared.returned = []

/-! ### One read for each increment -/

/-- No increment falls between the increment of another call and its last read. -/
def ReadFirst (t : Task) (label : PidLabel) (s : PidShared Task) : Prop :=
  label = .increment → ∀ other, other ≠ t → s.unread other = false

/-- The first pids. -/
def firstPids (n : Nat) : List Int := (List.range n).map fun i : Nat => pidOf (i + 1)

theorem firstPids_succ (n : Nat) : firstPids (n + 1) = firstPids n ++ [pidOf (n + 1)] := by
  rw [firstPids, List.range_succ, List.map_append]
  rfl

/-- At most one increment is unread; what was returned counts up. -/
structure PidInv (s : PidShared Task) : Prop where
  oneUnread : ∀ t u, s.unread t = true → s.unread u = true → t = u
  returned : s.returned = firstPids s.returned.length
  settled : (∀ t, s.unread t = false) → s.nextPid = pidOf s.returned.length
  pending : ∀ t, s.unread t = true → s.nextPid = pidOf (s.returned.length + 1)

/-- Others leave alone whether a task has something to read. -/
def pidProtocol : Protocol Task (PidShared Task) PidLabel where
  inv := PidInv
  rely t s s' := s'.unread t = s.unread t
  allowed := ReadFirst
  good _ _ _ := True
  idle t s := s.unread t = false
  rely_refl _ _ := rfl
  rely_trans _ {_ _ _} first second := second.trans first

theorem pidOf_succ (n : Nat) : pidOf (pidOf n + 1) = pidOf (n + 1) := by
  unfold pidOf
  rw [Int.bmod_add_bmod]

variable {t : Task} {s : PidShared Task}

/-- The increment, where everything before it has been read. -/
theorem PidInv.increment (inv : PidInv s) (allRead : ∀ u, s.unread u = false) :
    PidInv { s with nextPid := pidOf (s.nextPid + 1), unread := Function.update s.unread t true } := by
  have isUnread : ∀ u, Function.update s.unread t true u = true → u = t := by
    intro u unread
    by_contra ne
    rw [Function.update_of_ne ne, allRead u] at unread
    cases unread
  refine ⟨fun u v first second => (isUnread u first).trans (isUnread v second).symm, inv.returned,
    fun none => ?_, fun u _ => ?_⟩
  · have isRead := none t
    dsimp only at isRead
    rw [Function.update_self] at isRead
    cases isRead
  · dsimp only
    rw [inv.settled allRead, pidOf_succ]

/-- The read returns the next pid. -/
theorem PidInv.read (inv : PidInv s) (unread : s.unread t = true) (masked : Option Task) :
    PidInv { s with
      returned := s.returned ++ [s.nextPid]
      unread := Function.update s.unread t false
      masked := masked } := by
  have allRead : ∀ u, Function.update s.unread t false u = false := by
    intro u
    by_cases same : u = t
    · rw [same, Function.update_self]
    · rw [Function.update_of_ne same, Bool.eq_false_iff]
      exact fun isUnread => same (inv.oneUnread u t isUnread unread)
  have isNext := inv.pending t unread
  refine ⟨fun u v first => ?_, ?_, fun _ => ?_, fun u first => ?_⟩
  · have isRead := allRead u
    rw [show Function.update s.unread t false u = true from first] at isRead
    cases isRead
  · rw [List.length_append, List.length_singleton, firstPids_succ, ← inv.returned, isNext]
  · dsimp only
    rw [List.length_append, List.length_singleton, isNext]
    rfl
  · have isRead := allRead u
    rw [show Function.update s.unread t false u = true from first] at isRead
    cases isRead

omit [DecidableEq Task] in
/-- The invariant looks at the lock in no way. -/
theorem PidInv.setLock (inv : PidInv s) (lock masked : Option Task) :
    PidInv { s with lock := lock, masked := masked } :=
  ⟨inv.oneUnread, inv.returned, inv.settled, inv.pending⟩

theorem allocatePid_safe (intrOn : Bool) (idle : s.unread t = false) :
    pidProtocol.Safe t (fun _ => pidProtocol.idle t) (allocatePid t intrOn) s := by
  refine Protocol.Safe.await_bind fun s₁ rely₁ inv₁ => ⟨trivial, fun _ => ⟨?_, ?_⟩⟩
  · exact ⟨fun inv => PidInv.setLock inv _ _, fun other ne => rfl⟩
  have idle₁ : s₁.unread t = false := Eq.trans rely₁ idle
  -- the increment is allowed only when everything is read
  intro s₂ rely₂ inv₂
  have idle₂ : s₂.unread t = false := Eq.trans rely₂ idle₁
  refine ⟨trivial, fun isAllowed _ => ⟨⟨fun inv => PidInv.increment inv fun u => ?_, fun other ne => ?_⟩, ?_⟩⟩
  · by_cases same : u = t
    · rw [same]
      exact idle₂
    · exact isAllowed rfl u same
  · exact Function.update_of_ne ne _ _
  refine Protocol.Safe.await_bind fun s₃ rely₃ inv₃ => ⟨trivial, fun _ => ⟨?_, ?_⟩⟩
  · exact ⟨fun inv => PidInv.setLock inv _ _, fun other ne => rfl⟩
  have unread₃ : s₃.unread t = true := Eq.trans rely₃ (Function.update_self t true s₂.unread)
  intro s₄ rely₄ inv₄
  have unread₄ : s₄.unread t = true := Eq.trans rely₄ unread₃
  refine ⟨trivial, fun _ _ => ⟨⟨fun inv => PidInv.read inv unread₄ _, fun other ne => ?_⟩, fun s₅ rely₅ _ => ?_⟩⟩
  · exact Function.update_of_ne ne _ _
  · exact Eq.trans rely₅ (Function.update_self t false s₄.unread)

omit [DecidableEq Task] in
theorem PidInitial.inv {c : System Task (PidShared Task) PidLabel} (initial : PidInitial c) : PidInv c.shared where
  oneUnread t u first := by
    rw [initial.unread t] at first
    cases first
  returned := by
    rw [initial.returned]
    rfl
  settled _ := by
    rw [initial.nextPid, initial.returned]
    rfl
  pending t first := by
    rw [initial.unread t] at first
    cases first

theorem pidInv_of_run {start c : System Task (PidShared Task) PidLabel} (initial : PidInitial start)
    (run : System.Run IsPidCall ReadFirst start c) : PidInv c.shared := by
  refine (pidProtocol.run ?_ initial.inv (fun t => ⟨initial.idle t, fun s rely _ => ?_⟩) run).1
  · rintro t body ⟨intrOn, rfl⟩ s - idle
    exact allocatePid_safe intrOn idle
  · exact Eq.trans rely (initial.unread t)

/-! ### The pids -/

/-- The pids of the first 32767 calls are not wrapped. -/
theorem firstPids_nodup (n : Nat) : ((firstPids n).take 32767).Nodup := by
  rw [firstPids, ← List.map_take, List.take_range]
  refine List.Nodup.map_on ?_ (List.nodup_range)
  intro i memI j memJ same
  rw [List.mem_range] at memI memJ
  unfold pidOf at same
  rw [Int.bmod_eq_of_le (by omega) (by omega), Int.bmod_eq_of_le (by omega) (by omega)] at same
  omega

/-- In every run in which no increment falls between the increment of another call and its
read of `next_pid`, the first 32767 calls that return have different pids. -/
theorem allocate_pid_distinct {start c : System Task (PidShared Task) PidLabel} (initial : PidInitial start)
    (run : System.Run IsPidCall ReadFirst start c) : (c.shared.returned.take 32767).Nodup := by
  rw [(pidInv_of_run initial run).returned]
  exact firstPids_nodup _

/-! ### Two calls -/

/-- Two tasks, before and after they have called with interrupts on. -/
def twoCallers (code : Bool → PidCode Bool Unit) : System Bool (PidShared Bool) PidLabel where
  shared := ⟨0, none, none, fun _ => false, []⟩
  code := code

theorem twoCallers_initial : PidInitial (twoCallers fun _ => .done ()) :=
  ⟨fun _ => rfl, rfl, rfl, rfl, fun _ => rfl, rfl⟩

instance (t : Bool) (label : PidLabel) (s : PidShared Bool) : Decidable (ReadFirst t label s) :=
  inferInstanceAs (Decidable (label = .increment → ∀ other, other ≠ t → s.unread other = false))

/-- Both tasks are at the start of `allocate_pid`. -/
def bothAllocate : Bool → PidCode Bool Unit :=
  Function.update (Function.update (fun _ => .done ()) false (allocatePid false true)) true
    (allocatePid true true)

theorem bothAllocate_run (allowed : Bool → PidLabel → PidShared Bool → Prop) :
    System.Run IsPidCall allowed (twoCallers fun _ => .done ()) (twoCallers bothAllocate) := by
  refine .tail (.single (.call (t := false) rfl ⟨true, rfl⟩)) ?_
  exact .call (t := true) rfl ⟨true, rfl⟩

/-- One call after the other. -/
theorem allocate_pid_in_turn :
    ∃ c, System.Run IsPidCall ReadFirst (twoCallers fun _ => .done ()) c ∧
      c.shared.returned = [1, 2] ∧ (c.shared.returned.take 32767).Nodup := by
  have outcome : ((twoCallers bothAllocate).acts ReadFirst
      [false, false, false, false, true, true, true, true]).map (fun c => c.shared.returned) =
        some [1, 2] := by
    decide
  obtain ⟨c, acted, returned⟩ := Option.map_eq_some_iff.mp outcome
  have run := (bothAllocate_run ReadFirst).trans (System.acts_run acted)
  exact ⟨c, run, returned, allocate_pid_distinct twoCallers_initial run⟩

/-- The second task makes its whole call while the first is between `lock_release` and the
read; both return 2. -/
theorem allocate_pid_twice :
    ¬ ∀ start c : System Bool (PidShared Bool) PidLabel, PidInitial start →
      System.Run IsPidCall (fun _ _ _ => True) start c →
      (c.shared.returned.take 32767).Nodup := by
  intro distinct
  have outcome : ((twoCallers bothAllocate).acts (fun _ _ _ => True)
      [false, false, false, true, true, true, true, false]).map (fun c => c.shared.returned) =
        some [2, 2] := by
    decide
  obtain ⟨c, acted, returned⟩ := Option.map_eq_some_iff.mp outcome
  have run := (bothAllocate_run fun _ _ _ => True).trans (System.acts_run acted)
  have nodup := distinct _ c twoCallers_initial run
  rw [returned] at nodup
  exact absurd nodup (by decide)

end ZyOs.Thread
