import ZyOs.Kernel.Bitmap
import ZyOs.Lib.OnePlace

/-!
Contract: how many bits of a bitmap are clear.

Owns: the number of clear bits, what `bitmap_set` does to it, and that
`bitmap_scan` finds a bit while it is not zero.
-/

namespace ZyOs.Kernel

variable {btmp : Bitmap} {bit : Nat}

def clearBits (btmp : Bitmap) : Nat :=
  (List.range (8 * btmp.btmpBytesLen)).countP fun i => !bitmapScanTest btmp i

theorem clearBits_pos_iff : 0 < clearBits btmp ↔ ∃ bit, firstClear btmp = some bit := by
  unfold clearBits
  rw [List.countP_pos_iff]
  constructor
  · rintro ⟨bit, mem, isClear⟩
    cases found : firstClear btmp with
    | none =>
        rw [firstClear_none.mp found bit (List.mem_range.mp mem)] at isClear
        cases isClear
    | some first => exact ⟨first, rfl⟩
  · rintro ⟨bit, found⟩
    obtain ⟨inside, clear, _⟩ := firstClear_some found
    exact ⟨bit, List.mem_range.mpr inside, by rw [clear, Bool.not_false]⟩

theorem clearBits_bitmapSet (value : Bool) (inside : bit < 8 * btmp.btmpBytesLen) :
    clearBits (bitmapSet btmp bit value) + (if bitmapScanTest btmp bit then 0 else 1) =
      clearBits btmp + if value then 0 else 1 := by
  have same : ∀ other ∈ List.range (8 * btmp.btmpBytesLen), other ≠ bit →
      (!bitmapScanTest (bitmapSet btmp bit value) other) = !bitmapScanTest btmp other := by
    intro other _ ne
    rw [bitmapScanTest_bitmapSet, if_neg ne]
  have moved := Lib.countP_one_place List.nodup_range (List.mem_range.mpr inside) same
  rw [bitmapScanTest_bitmapSet, if_pos rfl] at moved
  unfold clearBits
  rw [bitmapSet_len]
  cases isValue : value <;> cases isBit : bitmapScanTest btmp bit <;>
    simpa only [isValue, isBit, Bool.not_true, Bool.not_false, Bool.false_eq_true, if_true, if_false] using moved

/-- A bit is taken. -/
theorem clearBits_set (inside : bit < 8 * btmp.btmpBytesLen) (isClear : bitmapScanTest btmp bit = false) :
    clearBits (bitmapSet btmp bit true) + 1 = clearBits btmp := by
  have moved := clearBits_bitmapSet true inside
  rw [isClear] at moved
  exact moved

/-- The bit that a search for one bit finds is taken. -/
theorem clearBits_firstClear (found : firstClear btmp = some bit) :
    clearBits (bitmapSet btmp bit true) + 1 = clearBits btmp := by
  obtain ⟨inside, isClear, _⟩ := firstClear_some found
  exact clearBits_set inside isClear

/-- The bit that a search for one bit finds is taken and given back. -/
theorem bitmapSet_undo (found : firstClear btmp = some bit) :
    bitmapSet (bitmapSet btmp bit true) bit false = btmp := by
  have isClear := (firstClear_some found).2.1
  refine Bitmap.ext_test ((bitmapSet_len _ _ _).trans (bitmapSet_len _ _ _)) fun i => ?_
  rw [bitmapScanTest_bitmapSet, bitmapScanTest_bitmapSet]
  by_cases isBit : i = bit
  · rw [if_pos isBit, isBit, isClear]
  · rw [if_neg isBit, if_neg isBit]

end ZyOs.Kernel
