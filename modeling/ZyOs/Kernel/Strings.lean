import Mathlib.Data.UInt
import ZyOs.Lib.Texts

/-!
Contract: `strlen`, `strcpy` and `strcat` of `lib/string.c`, over the bytes of a
buffer.

Owns: the loop of `strlen`, and that `strcat` copies to where it ends.

A result of `none` is a byte read or stored behind the buffer. The source of a copy
is a text without its zero.
-/

namespace ZyOs.Kernel

open Lib

/-- `strlen`. -/
def strlen : (str : List UInt8) → Option Nat
  | [] => none
  | char :: str => if char = 0 then some 0 else (strlen str).map (· + 1)

/-- `strcpy`. -/
def strcpy (dst src : List UInt8) : Option (List UInt8) := storeText dst 0 src

/-- `strcat`. -/
def strcat (dst src : List UInt8) : Option (List UInt8) := do
  let len ← strlen dst
  storeText dst len src

variable {buf text src : List UInt8}

theorem strlen_eq (holds : HoldsText buf text) : strlen buf = some text.length := by
  obtain ⟨rest, rfl⟩ := holds.behind
  have noZero := holds.noZero
  clear holds
  induction text with
  | nil => rfl
  | cons char text inductionHypothesis =>
      rw [List.mem_cons, not_or] at noZero
      rw [List.cons_append, strlen, if_neg (Ne.symm noZero.1), inductionHypothesis noZero.2]
      rfl

theorem strcat_eq (holds : HoldsText buf text) : strcat buf src = storeText buf text.length src := by
  rw [strcat, strlen_eq holds]
  rfl

end ZyOs.Kernel
