import Mathlib.Tactic.IntervalCases
import Mathlib.Tactic.Ring
import Mathlib.Data.List.Range
import Mathlib.Logic.Function.Basic

/-!
Contract: `lib/kernel/bitmap.c`.

`bits` is the memory from `btmp->bits` on: it has bytes after the
`btmp_bytes_len` bytes that belong to the bitmap, because `bitmap_scan` looks
at one bit past them when it searches for a run of two bits or more.

`bitmap_scan` yields `none` when its `ASSERT(idx_byte < btmp_bytes_len)` fails.
-/

namespace ZyOs.Kernel

abbrev Byte := BitVec 8

structure Bitmap where
  btmpBytesLen : Nat
  bits : Nat → Byte

/-- `bitmap_init`. -/
def bitmapInit (btmp : Bitmap) : Bitmap :=
  { btmp with bits := fun i => if i < btmp.btmpBytesLen then 0 else btmp.bits i }

/-- `bitmap_scan_test`. -/
def bitmapScanTest (btmp : Bitmap) (bitIdx : Nat) : Bool :=
  btmp.bits (bitIdx / 8) &&& (1#8 <<< (bitIdx % 8)) != 0#8

/-- `bitmap_set`, whose `value` is 0 or 1 in every call. -/
def bitmapSet (btmp : Bitmap) (bitIdx : Nat) (value : Bool) : Bitmap :=
  let byte := btmp.bits (bitIdx / 8)
  { btmp with
    bits := Function.update btmp.bits (bitIdx / 8)
      (if value then byte ||| (1#8 <<< (bitIdx % 8)) else byte &&& ~~~(1#8 <<< (bitIdx % 8))) }

/-- The loop of `bitmap_scan` that counts clear bits in a row. -/
def scanRun (btmp : Bitmap) (cnt : Nat) : Nat → Nat → Nat → Int
  | 0, _, _ => -1
  | bitLeft + 1, nextBit, count =>
      let count := if bitmapScanTest btmp nextBit then 0 else count + 1
      if count = cnt then
        (nextBit : Int) - cnt + 1
      else
        scanRun btmp cnt bitLeft (nextBit + 1) count

/-- `bitmap_scan`. -/
def bitmapScan (btmp : Bitmap) (cnt : Nat) : Option Int :=
  match (List.range btmp.btmpBytesLen).find? fun idxByte => btmp.bits idxByte != 0xff#8 with
  | none => none
  | some idxByte =>
      match (List.range 8).find? fun idxBit => !bitmapScanTest btmp (idxByte * 8 + idxBit) with
      | none => none
      | some idxBit =>
          let bitIdxStart := idxByte * 8 + idxBit
          if cnt = 1 then
            some bitIdxStart
          else
            some (scanRun btmp cnt (btmp.btmpBytesLen * 8 - bitIdxStart) (bitIdxStart + 1) 1)

/-! ### Single bits -/

theorem bitmapScanTest_eq (btmp : Bitmap) (bitIdx : Nat) :
    bitmapScanTest btmp bitIdx = (btmp.bits (bitIdx / 8)).getLsbD (bitIdx % 8) := by
  have bit : ∀ odd < 8, ∀ byte : Byte,
      (byte &&& (1#8 <<< odd) != 0#8) = byte.getLsbD odd := by
    decide
  exact bit _ (Nat.mod_lt _ (by decide)) _

theorem bitmapScanTest_bitmapSet (btmp : Bitmap) (bitIdx i : Nat) (value : Bool) :
    bitmapScanTest (bitmapSet btmp bitIdx value) i =
      if i = bitIdx then value else bitmapScanTest btmp i := by
  have small : i % 8 < 8 := Nat.mod_lt _ (by decide)
  simp only [bitmapScanTest_eq, bitmapSet, Function.update_apply]
  by_cases sameByte : i / 8 = bitIdx / 8
  · by_cases sameBit : i % 8 = bitIdx % 8
    · have same : i = bitIdx := by omega
      subst same
      cases value <;> simp [small]
    · have other : i ≠ bitIdx := by
        intro same
        exact sameBit (by rw [same])
      have shift : bitIdx % 8 ≤ i % 8 → i % 8 - bitIdx % 8 ≠ 0 := by omega
      cases value
      · simp [sameByte, other, small]
        intro _
        omega
      · simp [sameByte, other]
        intro _ le
        omega
  · have other : i ≠ bitIdx := by
      intro same
      exact sameByte (by rw [same])
    simp [sameByte, other]

@[simp]
theorem bitmapSet_len (btmp : Bitmap) (bitIdx : Nat) (value : Bool) :
    (bitmapSet btmp bitIdx value).btmpBytesLen = btmp.btmpBytesLen := rfl

theorem bitmapScanTest_bitmapInit {btmp : Bitmap} {i : Nat} (inside : i < 8 * btmp.btmpBytesLen) :
    bitmapScanTest (bitmapInit btmp) i = false := by
  have byte : i / 8 < btmp.btmpBytesLen := by omega
  simp [bitmapScanTest_eq, bitmapInit, byte]

/-- Two bitmaps are equal when their bits are. -/
theorem Bitmap.ext_test {first second : Bitmap} (len : first.btmpBytesLen = second.btmpBytesLen)
    (bits : ∀ i, bitmapScanTest first i = bitmapScanTest second i) : first = second := by
  obtain ⟨firstLen, firstBits⟩ := first
  obtain ⟨secondLen, secondBits⟩ := second
  simp only [Bitmap.mk.injEq]
  refine ⟨len, funext fun idxByte => BitVec.eq_of_getLsbD_eq fun odd small => ?_⟩
  have bit := bits (idxByte * 8 + odd)
  rw [bitmapScanTest_eq, bitmapScanTest_eq] at bit
  have byte : (idxByte * 8 + odd) / 8 = idxByte := by omega
  have rest : (idxByte * 8 + odd) % 8 = odd := by omega
  simpa only [byte, rest] using bit

/-! ### Scanning -/

theorem byte_ne_ff_iff (btmp : Bitmap) (idxByte : Nat) :
    btmp.bits idxByte ≠ 0xff#8 ↔ ∃ odd < 8, bitmapScanTest btmp (idxByte * 8 + odd) = false := by
  have bytes : ∀ byte : Byte, byte ≠ 0xff#8 ↔ ∃ odd < 8, byte.getLsbD odd = false := by
    decide
  rw [bytes]
  refine exists_congr fun odd => and_congr_right fun small => ?_
  have byte : (idxByte * 8 + odd) / 8 = idxByte := by omega
  have rest : (idxByte * 8 + odd) % 8 = odd := by omega
  rw [bitmapScanTest_eq, byte, rest]

/-- The least clear bit of the bitmap, if it has one. -/
def firstClear (btmp : Bitmap) : Option Nat :=
  (List.range (8 * btmp.btmpBytesLen)).find? fun i => !bitmapScanTest btmp i

theorem firstClear_some {btmp : Bitmap} {bit : Nat} (found : firstClear btmp = some bit) :
    bit < 8 * btmp.btmpBytesLen ∧ bitmapScanTest btmp bit = false ∧
      ∀ i < bit, bitmapScanTest btmp i = true := by
  simp only [firstClear, List.find?_range_eq_some] at found
  obtain ⟨clear, mem, least⟩ := found
  exact ⟨by simpa using mem, by simpa using clear, by simpa using least⟩

theorem firstClear_eq_some {btmp : Bitmap} {bit : Nat} (inside : bit < 8 * btmp.btmpBytesLen)
    (clear : bitmapScanTest btmp bit = false) (least : ∀ i < bit, bitmapScanTest btmp i = true) :
    firstClear btmp = some bit := by
  simp only [firstClear, List.find?_range_eq_some]
  exact ⟨by simpa using clear, by simpa using inside, by simpa using least⟩

theorem firstClear_none {btmp : Bitmap} :
    firstClear btmp = none ↔ ∀ i < 8 * btmp.btmpBytesLen, bitmapScanTest btmp i = true := by
  simp [firstClear]

/-- `bitmap_scan` starts from the least clear bit and fails its `ASSERT` when
there is none. -/
theorem bitmapScan_eq (btmp : Bitmap) (cnt : Nat) :
    bitmapScan btmp cnt = (firstClear btmp).map fun bit : Nat =>
      if cnt = 1 then (bit : Int)
      else scanRun btmp cnt (btmp.btmpBytesLen * 8 - bit) (bit + 1) 1 := by
  unfold bitmapScan
  split
  · rename_i noByte
    have full : firstClear btmp = none := by
      rw [firstClear_none]
      intro i inside
      simp only [List.find?_eq_none, List.mem_range] at noByte
      by_contra clear
      have byte := noByte (i / 8) (by omega)
      refine byte ?_
      simp only [bne_iff_ne]
      refine (byte_ne_ff_iff btmp (i / 8)).mpr ⟨i % 8, Nat.mod_lt _ (by decide), ?_⟩
      rw [Nat.div_add_mod']
      simpa using clear
    rw [full]
    rfl
  · rename_i idxByte foundByte
    simp only [List.find?_range_eq_some, List.mem_range] at foundByte
    obtain ⟨notFf, inLen, ffBefore⟩ := foundByte
    obtain ⟨odd, small, clear⟩ := (byte_ne_ff_iff btmp idxByte).mp (by simpa using notFf)
    split
    · rename_i noBit
      simp only [List.find?_eq_none, List.mem_range] at noBit
      exact absurd (noBit odd small) (by simp [clear])
    · rename_i idxBit foundBit
      simp only [List.find?_range_eq_some, List.mem_range] at foundBit
      obtain ⟨bitClear, bitSmall, setBefore⟩ := foundBit
      have first : firstClear btmp = some (idxByte * 8 + idxBit) := by
        refine firstClear_eq_some (by omega) (by simpa using bitClear) ?_
        intro i before
        by_cases sameByte : i / 8 = idxByte
        · have := setBefore (i % 8) (by omega)
          rw [← sameByte, Nat.div_add_mod'] at this
          simpa using this
        · have ff : btmp.bits (i / 8) = 0xff#8 := by
            simpa using ffBefore (i / 8) (by omega)
          by_contra notSet
          refine (byte_ne_ff_iff btmp (i / 8)).mpr ⟨i % 8, Nat.mod_lt _ (by decide), ?_⟩ ff
          rw [Nat.div_add_mod']
          simpa using notSet
      rw [first]
      simp only [Option.map_some]
      split <;> rfl

/-- A run that `scanRun` finds is clear; it ends at most one bit past the end. -/
theorem scanRun_spec {btmp : Bitmap} (cnt bitLeft : Nat) {nextBit count : Nat}
    (before : count ≤ nextBit)
    (clear : ∀ i, nextBit - count ≤ i → i < nextBit → bitmapScanTest btmp i = false) :
    scanRun btmp cnt bitLeft nextBit count = -1 ∨
      ∃ start : Nat, scanRun btmp cnt bitLeft nextBit count = start ∧
        start + cnt ≤ nextBit + bitLeft ∧
        ∀ i, start ≤ i → i < start + cnt → bitmapScanTest btmp i = false := by
  induction bitLeft generalizing nextBit count with
  | zero => exact .inl rfl
  | succ bitLeft inductionHypothesis =>
      unfold scanRun
      simp only
      -- the run that ends at `nextBit`
      obtain ⟨run, runEq⟩ : ∃ run, run = if bitmapScanTest btmp nextBit then 0 else count + 1 :=
        ⟨_, rfl⟩
      rw [← runEq]
      have runBefore : run ≤ nextBit + 1 := by
        rw [runEq]
        split <;> omega
      have runClear : ∀ i, nextBit + 1 - run ≤ i → i < nextBit + 1 →
          bitmapScanTest btmp i = false := by
        intro i low high
        split at runEq
        · omega
        · rename_i notSet
          by_cases last : i = nextBit
          · subst last
            simpa using notSet
          · exact clear i (by omega) (by omega)
      split
      · rename_i found
        refine .inr ⟨nextBit + 1 - cnt, by omega, by omega, ?_⟩
        intro i low high
        exact runClear i (by omega) (by omega)
      · rcases inductionHypothesis runBefore runClear with missing | ⟨start, eq, inside, runs⟩
        · exact .inl missing
        · exact .inr ⟨start, eq, by omega, runs⟩

/-- What `bitmap_scan` finds. -/
theorem bitmapScan_spec {btmp : Bitmap} {cnt : Nat} {result : Int}
    (scanned : bitmapScan btmp cnt = some result) :
    result = -1 ∨ ∃ start : Nat, result = start ∧ start + cnt ≤ 8 * btmp.btmpBytesLen + 1 ∧
      (cnt = 1 → start < 8 * btmp.btmpBytesLen) ∧
      ∀ i, start ≤ i → i < start + cnt → bitmapScanTest btmp i = false := by
  rw [bitmapScan_eq] at scanned
  cases found : firstClear btmp with
  | none => simp [found] at scanned
  | some bit =>
      obtain ⟨inside, clear, _⟩ := firstClear_some found
      simp only [found, Option.map_some, Option.some.injEq] at scanned
      have onlyBit : ∀ i, bit ≤ i → i < bit + 1 → bitmapScanTest btmp i = false := by
        intro i low high
        obtain rfl : i = bit := by omega
        exact clear
      split at scanned
      · rename_i one
        subst one
        exact .inr ⟨bit, scanned.symm, by omega, fun _ => inside, onlyBit⟩
      · rename_i several
        rw [← scanned]
        rcases scanRun_spec cnt (btmp.btmpBytesLen * 8 - bit) (by omega : 1 ≤ bit + 1)
          (by simpa using onlyBit) with missing | ⟨start, eq, upper, runs⟩
        · exact .inl missing
        · exact .inr ⟨start, eq, by omega, fun one => absurd one several, runs⟩

end ZyOs.Kernel
