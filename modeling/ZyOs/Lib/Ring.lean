import Mathlib.Logic.Function.Basic
import Mathlib.Data.List.Basic

/-!
Contract: a ring buffer that keeps one slot free, as a queue.

Owns: the relation between the slots, the two indices and the queue they hold,
and what a write at `head` and a read at `tail` do to it.

Does not own: who writes and who reads.
-/

namespace ZyOs.Lib

universe u

/-- The slots from `tail` up to `head` hold `queue`; one slot stays free. -/
structure RingHolds {α : Type u} (capacity : Nat) (buf : Nat → α) (head tail : Nat) (queue : List α) :
    Prop where
  tail_lt : tail < capacity
  head_eq : head = (tail + queue.length) % capacity
  room : queue.length < capacity
  slots : ∀ i < queue.length, queue[i]? = some (buf ((tail + i) % capacity))

namespace RingHolds

variable {α : Type u} {capacity : Nat} {buf : Nat → α} {head tail : Nat} {queue : List α}

theorem head_lt (holds : RingHolds capacity buf head tail queue) : head < capacity := by
  rw [holds.head_eq]
  exact Nat.mod_lt _ (Nat.lt_of_le_of_lt (Nat.zero_le _) holds.room)

/-- Slots less than a turn apart are different. -/
theorem slot_ne {i j : Nat} (less : i < j) (turn : j < capacity) :
    (tail + i) % capacity ≠ (tail + j) % capacity := by
  intro same
  have divides := Nat.sub_mod_eq_zero_of_mod_eq same.symm
  rw [Nat.add_sub_add_left, Nat.mod_eq_of_lt (by omega)] at divides
  omega

/-- The indices agree exactly when the queue is empty. -/
theorem empty_iff (holds : RingHolds capacity buf head tail queue) : head = tail ↔ queue = [] := by
  constructor
  · intro same
    by_contra entries
    have positive : 0 < queue.length := List.length_pos_iff.mpr entries
    apply @slot_ne capacity tail 0 queue.length positive holds.room
    rw [← holds.head_eq, same, Nat.add_zero, Nat.mod_eq_of_lt holds.tail_lt]
  · rintro rfl
    rw [holds.head_eq, List.length_nil, Nat.add_zero, Nat.mod_eq_of_lt holds.tail_lt]

/-- The next index after `head` is `tail` exactly when no slot is left. -/
theorem full_iff (holds : RingHolds capacity buf head tail queue) :
    (head + 1) % capacity = tail ↔ queue.length + 1 = capacity := by
  have next : (head + 1) % capacity = (tail + (queue.length + 1)) % capacity := by
    rw [holds.head_eq, Nat.mod_add_mod, Nat.add_assoc]
  rw [next]
  constructor
  · intro same
    by_contra notFull
    apply @slot_ne capacity tail 0 (queue.length + 1) (by omega) (by have := holds.room; omega)
    rw [same, Nat.add_zero, Nat.mod_eq_of_lt holds.tail_lt]
  · intro full
    rw [full, Nat.add_mod_right, Nat.mod_eq_of_lt holds.tail_lt]

/-- A write at `head`. -/
theorem push (holds : RingHolds capacity buf head tail queue) (notFull : queue.length + 1 < capacity)
    (value : α) :
    RingHolds capacity (Function.update buf head value) ((head + 1) % capacity) tail (queue ++ [value]) := by
  refine ⟨holds.tail_lt, ?_, ?_, ?_⟩
  · rw [holds.head_eq, Nat.mod_add_mod, List.length_append, List.length_singleton, Nat.add_assoc]
  · simpa using notFull
  · intro i inside
    rw [List.length_append, List.length_singleton] at inside
    by_cases last : i = queue.length
    · subst last
      rw [← holds.head_eq, Function.update_self, List.getElem?_append_right (Nat.le_refl _), Nat.sub_self]
      rfl
    · have old : i < queue.length := by omega
      have other : (tail + i) % capacity ≠ head := by
        rw [holds.head_eq]
        exact slot_ne old holds.room
      rw [List.getElem?_append_left old, Function.update_of_ne other]
      exact holds.slots i old

/-- A read at `tail`. -/
theorem pop {value : α} (holds : RingHolds capacity buf head tail (value :: queue)) :
    buf tail = value ∧ RingHolds capacity buf head ((tail + 1) % capacity) queue := by
  have room := holds.room
  rw [List.length_cons] at room
  constructor
  · have first := holds.slots 0 (by simp)
    rw [Nat.add_zero, Nat.mod_eq_of_lt holds.tail_lt] at first
    exact (Option.some.inj first).symm
  · refine ⟨Nat.mod_lt _ (by omega), ?_, by omega, ?_⟩
    · rw [holds.head_eq, List.length_cons, Nat.mod_add_mod, Nat.add_assoc, Nat.add_comm 1]
    · intro i inside
      have slot := holds.slots (i + 1) (by simpa using inside)
      rw [List.getElem?_cons_succ] at slot
      rw [slot, Nat.mod_add_mod, Nat.add_assoc, Nat.add_comm 1]

end RingHolds

theorem ringHolds_empty {α : Type u} {capacity : Nat} (positive : 0 < capacity) (buf : Nat → α) :
    RingHolds capacity buf 0 0 [] := by
  refine ⟨positive, ?_, positive, ?_⟩
  · rw [List.length_nil, Nat.add_zero, Nat.zero_mod]
  · intro i inside
    cases inside

end ZyOs.Lib
