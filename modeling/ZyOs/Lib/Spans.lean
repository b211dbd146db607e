import Mathlib.Data.List.Basic
import Mathlib.Logic.Function.Basic

/-!
Contract: sequences in a memory, each from an address on.

Owns:
- what lies at an address, and its parts;
- what a write of a sequence leaves: the sequence where it was written, everything else as it
  was;
- one write behind the other, where the second may cover the end of the first.
-/

namespace ZyOs.Lib

universe u

variable {α : Type u} {mem mem' mem'' : Nat → α} {addr place : Nat} {value : α} {data tail more : List α}

/-- The sequence lies in the memory from `addr` on. -/
def LiesAt (mem : Nat → α) (addr : Nat) (data : List α) : Prop :=
  ∀ i (inside : i < data.length), mem (addr + i) = data[i]

instance [DecidableEq α] (mem : Nat → α) (addr : Nat) (data : List α) : Decidable (LiesAt mem addr data) :=
  inferInstanceAs (Decidable (∀ i (inside : i < data.length), mem (addr + i) = data[i]))

theorem liesAt_nil (mem : Nat → α) (addr : Nat) : LiesAt mem addr [] :=
  fun _ inside => absurd inside (Nat.not_lt_zero _)

theorem liesAt_append_iff :
    LiesAt mem addr (data ++ more) ↔ LiesAt mem addr data ∧ LiesAt mem (addr + data.length) more := by
  constructor
  · intro lies
    refine ⟨fun i inside => ?_, fun i inside => ?_⟩
    · rw [lies i (by rw [List.length_append]; omega), List.getElem_append_left inside]
    · rw [Nat.add_assoc, lies (data.length + i) (by rw [List.length_append]; omega),
        List.getElem_append_right (Nat.le_add_right _ _)]
      simp only [Nat.add_sub_cancel_left]
  · rintro ⟨first, second⟩ i inside
    by_cases isFirst : i < data.length
    · rw [first i isFirst, List.getElem_append_left isFirst]
    · have isSecond : i - data.length < more.length := by
        rw [List.length_append] at inside
        omega
      rw [List.getElem_append_right (by omega), ← second _ isSecond]
      congr 1
      omega

theorem liesAt_singleton_iff : LiesAt mem addr [value] ↔ mem addr = value := by
  constructor
  · exact fun lies => lies 0 Nat.zero_lt_one
  · intro same i inside
    obtain rfl : i = 0 := by
      rw [List.length_singleton] at inside
      omega
    exact same

theorem liesAt_cons_iff : LiesAt mem addr (value :: data) ↔ mem addr = value ∧ LiesAt mem (addr + 1) data := by
  rw [← List.singleton_append, liesAt_append_iff, liesAt_singleton_iff, List.length_singleton]

/-- From `mem` to `mem'` the sequence has been written at `addr`, and nothing else has changed. -/
structure Wrote (mem : Nat → α) (addr : Nat) (data : List α) (mem' : Nat → α) : Prop where
  lies : LiesAt mem' addr data
  frame : ∀ a, a < addr ∨ addr + data.length ≤ a → mem' a = mem a

namespace Wrote

theorem nil (mem : Nat → α) (addr : Nat) : Wrote mem addr [] mem := ⟨liesAt_nil mem addr, fun _ _ => rfl⟩

theorem eq_of_nil (wrote : Wrote mem addr [] mem') : mem' = mem := by
  funext a
  exact wrote.frame a (Nat.lt_or_ge a addr)

theorem store (mem : Nat → α) (addr : Nat) (value : α) :
    Wrote mem addr [value] (Function.update mem addr value) := by
  refine ⟨liesAt_singleton_iff.mpr (Function.update_self ..), fun a outside => ?_⟩
  rw [List.length_singleton] at outside
  exact Function.update_of_ne (by omega) ..

/-- The second write begins in the first, or at its end, and covers what is behind. -/
theorem append (first : Wrote mem addr (data ++ tail) mem') (second : Wrote mem' (addr + data.length) more mem'')
    (covers : tail.length ≤ more.length) : Wrote mem addr (data ++ more) mem'' := by
  refine ⟨liesAt_append_iff.mpr ⟨fun i inside => ?_, second.lies⟩, fun a outside => ?_⟩
  · rw [second.frame _ (by omega)]
    exact (liesAt_append_iff.mp first.lies).1 i inside
  · rw [List.length_append] at outside
    rw [second.frame a (by omega), first.frame a (by rw [List.length_append]; omega)]

theorem trans (first : Wrote mem addr data mem') (second : Wrote mem' (addr + data.length) more mem'') :
    Wrote mem addr (data ++ more) mem'' :=
  append (by rwa [List.append_nil] : Wrote mem addr (data ++ []) mem') second (Nat.zero_le _)

/-- What lies outside the write stays. -/
theorem keeps (wrote : Wrote mem addr data mem') (lies : LiesAt mem place more)
    (apart : place + more.length ≤ addr ∨ addr + data.length ≤ place) : LiesAt mem' place more := by
  intro i inside
  rw [wrote.frame _ (by omega)]
  exact lies i inside

end Wrote

end ZyOs.Lib
