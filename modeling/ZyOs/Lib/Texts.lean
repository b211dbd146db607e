import Mathlib.Data.List.TakeWhile

/-!
Zero-terminated texts in a buffer.

Owns: the text that a buffer holds, where a zero cuts it, and the copy of a text
with its zero into a buffer, which fails where the buffer ends.
-/

namespace ZyOs.Lib

universe u

variable {α : Type u} [Zero α]

/-- A text is copied element by element, and a zero behind it. -/
def storeText : (buf : List α) → (off : Nat) → (text : List α) → Option (List α)
  | buf, off, [] => if off < buf.length then some (buf.set off 0) else none
  | buf, off, char :: text =>
      if off < buf.length then storeText (buf.set off char) (off + 1) text else none

/-- The text that a buffer holds. -/
def stringOf [DecidableEq α] (buf : List α) : List α := buf.takeWhile (· ≠ 0)

/-- The buffer holds this text, with a zero behind it. -/
structure HoldsText (buf text : List α) : Prop where
  noZero : (0 : α) ∉ text
  behind : ∃ rest, buf = text ++ 0 :: rest

variable {buf text : List α}

theorem storeText_eq {off : Nat} (room : off + text.length < buf.length) :
    storeText buf off text = some (buf.take off ++ text ++ 0 :: buf.drop (off + text.length + 1)) := by
  induction text generalizing buf off with
  | nil =>
      rw [List.length_nil, Nat.add_zero] at room
      rw [storeText, if_pos room, List.set_eq_take_append_cons_drop, if_pos room, List.append_nil]
      rfl
  | cons char text inductionHypothesis =>
      rw [List.length_cons] at room
      have inside : off < buf.length := by omega
      have isTaken : (buf.set off char).take (off + 1) = buf.take off ++ [char] := by
        rw [List.set_eq_take_append_cons_drop, if_pos inside, List.take_append]
        have length : (buf.take off).length = off := List.length_take_of_le inside.le
        rw [length, Nat.add_sub_cancel_left, List.take_of_length_le (by omega)]
        rfl
      have isDropped : (buf.set off char).drop (off + 1 + text.length + 1) =
          buf.drop (off + (text.length + 1) + 1) := by
        rw [List.drop_set_of_lt (by omega)]
        congr 1
        omega
      rw [storeText, if_pos inside, inductionHypothesis (by rw [List.length_set]; omega), isTaken,
        isDropped, List.length_cons, List.append_assoc, List.append_assoc, List.append_assoc]
      rfl

namespace HoldsText

theorem length_lt (holds : HoldsText buf text) : text.length < buf.length := by
  obtain ⟨rest, isBuf⟩ := holds.behind
  rw [isBuf, List.length_append, List.length_cons]
  omega

theorem take_length (holds : HoldsText buf text) : buf.take text.length = text := by
  obtain ⟨rest, isBuf⟩ := holds.behind
  rw [isBuf, List.take_left]

/-- The text that a copy leaves. -/
theorem of_storeText (room : text.length < buf.length) (noZero : (0 : α) ∉ text) :
    ∃ buf', storeText buf 0 text = some buf' ∧ HoldsText buf' text ∧ buf'.length = buf.length ∧
      buf'.drop (text.length + 1) = buf.drop (text.length + 1) := by
  have isStored := @storeText_eq α _ buf text 0 (by omega)
  rw [List.take_zero, List.nil_append, Nat.zero_add] at isStored
  refine ⟨_, isStored, ⟨noZero, _, rfl⟩, ?_, ?_⟩
  · rw [List.length_append, List.length_cons, List.length_drop]
    omega
  · rw [List.drop_append, List.drop_eq_nil_of_le (by omega), Nat.add_sub_cancel_left]
    rfl

/-- A copy at the end of the text makes it longer. -/
theorem append (holds : HoldsText buf text) (more : List α)
    (room : text.length + more.length < buf.length) (noZero : (0 : α) ∉ more) :
    ∃ buf', storeText buf text.length more = some buf' ∧ HoldsText buf' (text ++ more) ∧
      buf'.length = buf.length ∧
      buf'.drop (text.length + more.length + 1) = buf.drop (text.length + more.length + 1) := by
  have isStored := storeText_eq room
  rw [holds.take_length] at isStored
  refine ⟨_, isStored, ⟨?_, _, rfl⟩, ?_, ?_⟩
  · intro mem
    exact (List.mem_append.mp mem).elim holds.noZero noZero
  · rw [List.length_append, List.length_append, List.length_cons, List.length_drop]
    omega
  · have length : (text ++ more).length = text.length + more.length := List.length_append
    rw [List.drop_append, List.drop_eq_nil_of_le (by omega), length, Nat.add_sub_cancel_left]
    rfl

/-- A zero in the text cuts it off. -/
theorem cut (holds : HoldsText buf text) {idx : Nat} (inside : idx ≤ text.length) :
    HoldsText (buf.set idx 0) (text.take idx) where
  noZero mem := holds.noZero (List.mem_of_mem_take mem)
  behind := by
    obtain ⟨rest, isBuf⟩ := holds.behind
    have before : idx < (text ++ 0 :: rest).length := by
      rw [List.length_append, List.length_cons]
      omega
    refine ⟨(text ++ 0 :: rest).drop (idx + 1), ?_⟩
    rw [isBuf, List.set_eq_take_append_cons_drop, if_pos before, List.take_append_of_le_length inside]

/-- Up to the first zero, the buffer is the text. -/
theorem stringOf_eq [DecidableEq α] (holds : HoldsText buf text) : stringOf buf = text := by
  obtain ⟨rest, isBuf⟩ := holds.behind
  have isText : ∀ char ∈ text, decide (char ≠ 0) = true := fun char mem =>
    decide_eq_true fun isZero => holds.noZero (isZero ▸ mem)
  rw [stringOf, isBuf, List.takeWhile_append_of_pos isText]
  simp

end HoldsText

end ZyOs.Lib
