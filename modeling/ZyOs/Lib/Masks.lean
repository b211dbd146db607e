import Mathlib.Algebra.Group.Nat.Defs
import Mathlib.Data.Nat.Bits

/-!
Contract: bit fields of natural numbers and of words by division and remainder.

Owns:
- a mask of consecutive bits;
- a field put together with the bits below it.
-/

namespace ZyOs.Lib

/-! ### Natural numbers -/

/-- The mask of the `k` bits from bit `n` on. -/
theorem and_field (x k n : Nat) : x &&& (2 ^ k - 1) <<< n = x / 2 ^ n % 2 ^ k * 2 ^ n := by
  refine Nat.eq_of_testBit_eq fun i => ?_
  rw [Nat.testBit_and, Nat.testBit_shiftLeft, Nat.testBit_two_pow_sub_one,
    Nat.testBit_mul_two_pow, Nat.testBit_mod_two_pow, Nat.testBit_div_two_pow]
  by_cases low : n ≤ i
  · rw [Nat.sub_add_cancel low, Bool.and_comm]
    simp [low]
  · simp [low]

/-- A field above and the bits below it. -/
theorem or_low {y n size : Nat} (x : Nat) (power : 2 ^ n = size) (small : y < size) :
    x * size ||| y = x * size + y := by
  subst power
  have joined := Nat.shiftLeft_add_eq_or_of_lt small x
  rw [Nat.shiftLeft_eq] at joined
  exact joined.symm

/-! ### Words -/

theorem toNat_and_low (a : UInt32) {mask : UInt32} {n : Nat} (isMask : mask.toNat = 2 ^ n - 1) :
    (a &&& mask).toNat = a.toNat % 2 ^ n := by
  rw [UInt32.toNat_and, isMask, Nat.and_two_pow_sub_one_eq_mod]

theorem toNat_and_field (a : UInt32) {mask : UInt32} {k n : Nat}
    (isMask : mask.toNat = (2 ^ k - 1) <<< n) :
    (a &&& mask).toNat = a.toNat / 2 ^ n % 2 ^ k * 2 ^ n := by
  rw [UInt32.toNat_and, isMask, and_field]

end ZyOs.Lib
