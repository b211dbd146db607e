import Mathlib.Data.UInt
import Mathlib.Logic.Function.Basic

/-!
Contract: `itoa`, `vsprintf` and `sprintf` of `lib/stdio.c`, with the `strlen` and `strcpy` that
they call, over a flat memory.

Owns:
- the loop over the format, with its pointers into the buffer, the format and the arguments;
- the recursion of `itoa` through the pointer to the cursor.

A result of `none` is a NULL pointer, where an `ASSERT` fails, or a byte read at `2 ^ 32`.
Pointers are not reduced: what is said about the code is said where the buffer ends below
`2 ^ 32`.
-/

namespace ZyOs.Kernel

abbrev FlatMemory := Nat → UInt8

def addressSpace : Nat := 2 ^ 32

namespace FlatMemory

def store (mem : FlatMemory) (addr : Nat) (byte : UInt8) : FlatMemory := Function.update mem addr byte

/-- `*(int*)addr`. -/
def word (mem : FlatMemory) (addr : Nat) : BitVec 32 :=
  BitVec.ofNat 32 ((mem addr).toNat + 256 * (mem (addr + 1)).toNat + 65536 * (mem (addr + 2)).toNat +
    16777216 * (mem (addr + 3)).toNat)

/-- `while(*p++)`; `room` is the bytes from `p` to the end of the memory. -/
def strlenLoop (mem : FlatMemory) : (room p : Nat) → Option Nat
  | 0, _ => none
  | room + 1, p => if mem p = 0 then some (p + 1) else strlenLoop mem room (p + 1)

def strlen (mem : FlatMemory) (str : Nat) : Option Nat :=
  if str = 0 then none else (strlenLoop mem (addressSpace - str) str).map fun p => p - str - 1

/-- `while((*dst_++ = *src_++))`; `room` is the bytes from `src_` to the end of the memory. -/
def strcpyLoop : (room : Nat) → (mem : FlatMemory) → (dst src : Nat) → Option FlatMemory
  | 0, _, _, _ => none
  | room + 1, mem, dst, src =>
      let byte := mem src
      let mem := mem.store dst byte
      if byte = 0 then some mem else strcpyLoop room mem (dst + 1) (src + 1)

def strcpy (mem : FlatMemory) (dst src : Nat) : Option FlatMemory :=
  if dst = 0 ∨ src = 0 then none else strcpyLoop (addressSpace - src) mem dst src

end FlatMemory

open FlatMemory

/-- `itoa`, with the memory and the cursor that it leaves. Every caller has a base of 10 or 16. -/
def itoa (mem : FlatMemory) (value bufPtr base : Nat) : FlatMemory × Nat :=
  let m := value % base
  let i := value / base
  let (mem, bufPtr) := if 1 < base ∧ i ≠ 0 then itoa mem i bufPtr base else (mem, bufPtr)
  if m < 10 then
    (mem.store bufPtr (UInt8.ofNat (m + 48)), bufPtr + 1)
  else
    (mem.store bufPtr (UInt8.ofNat (m - 10 + 65)), bufPtr + 1)
termination_by value
decreasing_by
  rename_i more
  exact Nat.div_lt_self (Nat.pos_of_ne_zero fun isZero => more.2 (by simp [i, isZero])) more.1

/-- The loop of `vsprintf` from its test on; `room` is the bytes from `index_ptr` to the end of
the memory. -/
def vsprintfLoop : (room : Nat) → (mem : FlatMemory) → (bufPtr indexPtr ap : Nat) → (indexChar : UInt8) →
    Option FlatMemory
  | 0, _, _, _, _, _ => none
  | room + 1, mem, bufPtr, indexPtr, ap, indexChar =>
      if indexChar = 0 then
        some mem
      else if indexChar ≠ 37 then
        let mem := mem.store bufPtr indexChar
        vsprintfLoop room mem (bufPtr + 1) (indexPtr + 1) ap (mem (indexPtr + 1))
      else
        let indexPtr := indexPtr + 1
        let indexChar := mem indexPtr
        if indexChar = 115 then do
          let ap := ap + 4
          let argStr := (mem.word ap).toNat
          let mem ← mem.strcpy bufPtr argStr
          let len ← mem.strlen argStr
          vsprintfLoop room mem (bufPtr + len) (indexPtr + 1) ap (mem (indexPtr + 1))
        else if indexChar = 99 then
          let ap := ap + 4
          let mem := mem.store bufPtr (mem ap)
          vsprintfLoop room mem (bufPtr + 1) (indexPtr + 1) ap (mem (indexPtr + 1))
        else if indexChar = 100 then
          let ap := ap + 4
          let argInt := mem.word ap
          let (argInt, mem, bufPtr) :=
            if argInt.slt 0 then (0 - argInt, mem.store bufPtr 45, bufPtr + 1) else (argInt, mem, bufPtr)
          let (mem, bufPtr) := itoa mem argInt.toNat bufPtr 10
          vsprintfLoop room mem bufPtr (indexPtr + 1) ap (mem (indexPtr + 1))
        else if indexChar = 120 then
          let ap := ap + 4
          let argInt := mem.word ap
          let (mem, bufPtr) := itoa mem argInt.toNat bufPtr 16
          vsprintfLoop room mem bufPtr (indexPtr + 1) ap (mem (indexPtr + 1))
        else
          -- no case: the loop goes on at the character behind `%`
          vsprintfLoop room mem bufPtr indexPtr ap indexChar

/-- `vsprintf`: the memory that it leaves, and the length that it returns. Nothing writes a zero
behind the text; `strlen` goes on to the next one. -/
def vsprintf (mem : FlatMemory) (str format ap : Nat) : Option (FlatMemory × Nat) := do
  let mem ← vsprintfLoop (addressSpace - format) mem str format ap (mem format)
  let len ← mem.strlen str
  some (mem, len)

/-- `sprintf`; `va_start` takes the address of the parameter `format`, and the arguments are
behind it. -/
def sprintf (mem : FlatMemory) (buf formatParam : Nat) : Option (FlatMemory × Nat) :=
  vsprintf mem buf (mem.word formatParam).toNat formatParam

end ZyOs.Kernel
