import Mathlib.Data.Nat.Digits.Lemmas
import Mathlib.Data.UInt

/-!
Contract: the numeral of a natural number in a base up to 16, as characters.

Owns:
- the numeral, from its digits;
- the last digit of a numeral and what stands before it;
- that no character is a zero byte, and that only zero begins with the digit zero.
-/

namespace ZyOs.Lib

/-- `0` to `9`, then `A` to `F`. -/
def digitChar (digit : Nat) : UInt8 := UInt8.ofNat (if digit < 10 then digit + 48 else digit - 10 + 65)

/-- The digits from the highest to the lowest; zero has one. -/
def numeral (base value : Nat) : List UInt8 :=
  if value = 0 then [digitChar 0] else (Nat.digits base value).reverse.map digitChar

variable {base value : Nat}

theorem numeral_of_lt (small : value < base) : numeral base value = [digitChar value] := by
  unfold numeral
  by_cases isZero : value = 0
  · rw [if_pos isZero, isZero]
  · rw [if_neg isZero, Nat.digits_of_lt base value isZero small]
    rfl

/-- The last digit is the remainder. -/
theorem numeral_of_ge (isBase : 1 < base) (large : base ≤ value) :
    numeral base value = numeral base (value / base) ++ [digitChar (value % base)] := by
  have notZero : value ≠ 0 := by omega
  have notZero' : value / base ≠ 0 := (Nat.div_pos large (by omega)).ne'
  unfold numeral
  rw [if_neg notZero, if_neg notZero', Nat.digits_eq_cons_digits_div isBase notZero, List.reverse_cons,
    List.map_append]
  rfl

theorem digitChar_ne_zero {digit : Nat} (small : digit < 16) : digitChar digit ≠ 0 := by
  have digits : ∀ digit < 16, digitChar digit ≠ 0 := by decide
  exact digits digit small

theorem zero_notMem_numeral (isBase : 1 < base) (small : base ≤ 16) : (0 : UInt8) ∉ numeral base value := by
  unfold numeral
  split
  · exact fun isZero => digitChar_ne_zero (by decide) (List.mem_singleton.mp isZero).symm
  · intro isZero
    obtain ⟨digit, isDigit, isChar⟩ := List.mem_map.mp isZero
    have below := Nat.digits_lt_base isBase (List.mem_reverse.mp isDigit)
    exact digitChar_ne_zero (Nat.lt_of_lt_of_le below small) isChar

theorem numeral_ne_nil (base value : Nat) : numeral base value ≠ [] := by
  unfold numeral
  split
  · exact List.cons_ne_nil _ _
  · rename_i notZero
    intro isNil
    exact Nat.digits_ne_nil_iff_ne_zero.mpr notZero (List.reverse_eq_nil_iff.mp (List.map_eq_nil_iff.mp isNil))

/-- No numeral but that of zero has a leading zero. -/
theorem head_numeral_ne (isBase : 1 < base) (small : base ≤ 16) (notZero : value ≠ 0) :
    (numeral base value).head (numeral_ne_nil base value) ≠ digitChar 0 := by
  have digits : ∀ digit < 16, digitChar digit = digitChar 0 → digit = 0 := by decide
  intro isZero
  simp only [numeral, if_neg notZero, List.head_map, List.head_reverse] at isZero
  have notNil : Nat.digits base value ≠ [] := Nat.digits_ne_nil_iff_ne_zero.mpr notZero
  have below := Nat.digits_lt_base isBase (List.getLast_mem notNil)
  exact Nat.getLast_digit_ne_zero base notZero (digits _ (Nat.lt_of_lt_of_le below small) isZero)

end ZyOs.Lib
