import Mathlib.Data.List.Basic

/-!
Contract: a sequence that lies in windows of one width, one behind the other.

Owns:
- the window and the place in it of a position;
- what is put behind the end, as far as the last window goes;
- what is read from one window.

Does not own: where the windows are.
-/

namespace ZyOs.Lib

universe u

variable {α : Type u} {width pos n : Nat} {window window' : Nat → Nat → α} {data chunk : List α}

/-- A position a little further on is in the same window. -/
theorem add_div_of_window (fits : pos % width + n < width) : (pos + n) / width = pos / width := by
  have isPos : pos + n = (pos % width + n) + width * (pos / width) := by
    have split := Nat.mod_add_div pos width
    omega
  rw [isPos, Nat.add_mul_div_left _ _ (by omega), Nat.div_eq_of_lt fits, Nat.zero_add]

theorem add_mod_of_window (fits : pos % width + n < width) : (pos + n) % width = pos % width + n := by
  have isPos : pos + n = (pos % width + n) + width * (pos / width) := by
    have split := Nat.mod_add_div pos width
    omega
  rw [isPos, Nat.add_mul_mod_self_left, Nat.mod_eq_of_lt fits]

/-- The values of `data` are in the windows. -/
def InWindows (width : Nat) (window : Nat → Nat → α) (data : List α) : Prop :=
  ∀ i (inside : i < data.length), window (i / width) (i % width) = data[i]

namespace InWindows

theorem empty (width : Nat) (window : Nat → Nat → α) : InWindows width window [] :=
  fun _ inside => absurd inside (Nat.not_lt_zero _)

theorem congr (inWindows : InWindows width window data)
    (same : ∀ i < data.length, window' (i / width) = window (i / width)) : InWindows width window' data := by
  intro i inside
  rw [same i inside]
  exact inWindows i inside

/-- Values are put behind the end; what stands before them in their window stays. -/
theorem append (inWindows : InWindows width window data) (fits : data.length % width + chunk.length ≤ width)
    (others : ∀ i < data.length, i / width ≠ data.length / width → window' (i / width) = window (i / width))
    (before : ∀ j < data.length % width, window' (data.length / width) j = window (data.length / width) j)
    (behind : ∀ j (inside : j < chunk.length),
      window' (data.length / width) (data.length % width + j) = chunk[j]) :
    InWindows width window' (data ++ chunk) := by
  intro i inside
  by_cases isOld : i < data.length
  · rw [List.getElem_append_left isOld]
    by_cases isLast : i / width = data.length / width
    · have splitEnd := Nat.mod_add_div data.length width
      have split := Nat.mod_add_div i width
      rw [isLast] at split
      rw [isLast, before _ (by omega), ← isLast]
      exact inWindows i isOld
    · rw [others i isOld isLast]
      exact inWindows i isOld
  · rw [List.length_append] at inside
    obtain ⟨j, rfl⟩ := Nat.exists_eq_add_of_le (Nat.not_lt.mp isOld)
    have inWindow : data.length % width + j < width := by omega
    rw [add_div_of_window inWindow, add_mod_of_window inWindow, behind j (by omega),
      List.getElem_append_right (by omega)]
    congr 1
    omega

/-- What a window has from a position on. -/
theorem read (inWindows : InWindows width window data) (inside : pos + n ≤ data.length)
    (fits : pos % width + n ≤ width) :
    (List.range n).map (fun j => window (pos / width) (pos % width + j)) = (data.drop pos).take n := by
  apply List.ext_getElem
  · simp only [List.length_map, List.length_range, List.length_take, List.length_drop]
    omega
  · intro j small _
    rw [List.length_map, List.length_range] at small
    have inWindow : pos % width + j < width := by omega
    rw [List.getElem_map, List.getElem_range, List.getElem_take, List.getElem_drop,
      ← inWindows (pos + j) (by omega), add_div_of_window inWindow, add_mod_of_window inWindow]

end InWindows

end ZyOs.Lib
