import Mathlib.Data.UInt
import Mathlib.Logic.Function.Basic

/-!
Contract: `put_char` and `cls_screen` of `lib/kernel/print.S`.

Owns:
- the cursor registers of the CRT controller, read and set byte by byte;
- the stores through the video segment, whose limit is `0x7fff`: a store behind it is a
  general protection fault, and `none`;
- the copy loop that scrolls the screen, and the loops that clear it.

The low half of `ebx` is a word; memory is addressed by linear address. Ghost: where
bytes have been stored, and how often the screen has scrolled.

Does not own: the other registers, which `popad` restores.
-/

namespace ZyOs.Kernel

/-! ### The machine -/

/-- The CRT controller: the register that is selected, and the registers. -/
structure Crt where
  index : UInt8
  regs : UInt8 → UInt8

structure Display where
  crt : Crt
  mem : Nat → UInt8
  stores : List Nat
  rolls : Nat

/-- Where the video segment starts. -/
def videoBase : Nat := 0xc00b8000

def videoLimit : Nat := 0x7fff

namespace Display

def select (d : Display) (index : UInt8) : Display := { d with crt := { d.crt with index := index } }

/-- `out dx, al`, to the index register or the data register. -/
def out (d : Display) (dx : Nat) (al : UInt8) : Display :=
  if dx = 0x03d4 then d.select al
  else if dx = 0x03d5 then
    { d with crt := { d.crt with regs := Function.update d.crt.regs d.crt.index al } }
  else d

/-- `in al, dx`, from the data register. -/
def inAl (d : Display) (dx : Nat) : UInt8 := if dx = 0x03d5 then d.crt.regs d.crt.index else 0xff

def putByte (d : Display) (place : Nat) (byte : UInt8) : Display :=
  { d with mem := Function.update d.mem place byte, stores := place :: d.stores }

/-- `mov byte [gs:off], byte`. -/
def gsByte (d : Display) (off : Nat) (byte : UInt8) : Option Display :=
  if off ≤ videoLimit then some (d.putByte (videoBase + off) byte) else none

/-- `mov word [gs:off], high:low`. -/
def gsWord (d : Display) (off : Nat) (high low : UInt8) : Option Display :=
  if off + 1 ≤ videoLimit then
    some ((d.putByte (videoBase + off) low).putByte (videoBase + off + 1) high)
  else none

/-- `movsd`. -/
def movsd (d : Display) (esi edi : Nat) : Display :=
  { d with
    mem := fun place => if edi ≤ place ∧ place < edi + 4 then d.mem (esi + (place - edi)) else d.mem place
    stores := [edi + 3, edi + 2, edi + 1, edi] ++ d.stores }

/-- `rep movsd`, with the direction flag clear. -/
def repMovsd : (ecx : Nat) → (esi edi : Nat) → Display → Display
  | 0, _, _, d => d
  | ecx + 1, esi, edi, d => repMovsd ecx (esi + 4) (edi + 4) (d.movsd esi edi)

/-- The loop `.cls`. -/
def cls : (ecx : Nat) → (ebx : Nat) → Display → Option Display
  | 0, _, d => some d
  | ecx + 1, ebx, d => do
      let d ← d.gsWord ebx 0x07 0x20
      cls ecx (ebx + 2) d

/-- A word from its two bytes. -/
def wordOf (high low : UInt8) : BitVec 16 := BitVec.ofNat 16 (high.toNat * 256 + low.toNat)

def highByte (bx : BitVec 16) : UInt8 := UInt8.ofNat (bx.toNat / 256)

def lowByte (bx : BitVec 16) : UInt8 := UInt8.ofNat bx.toNat

/-- The cursor, by its two registers. -/
def getCursor (d : Display) : Display × BitVec 16 :=
  let d := d.out 0x03d4 0x0e
  let ah := d.inAl 0x03d5
  let d := d.out 0x03d4 0x0f
  (d, wordOf ah (d.inAl 0x03d5))

/-- `.set_cursor`. -/
def setCursor (d : Display) (bx : BitVec 16) : Display :=
  let d := (d.out 0x03d4 0x0e).out 0x03d5 (highByte bx)
  (d.out 0x03d4 0x0f).out 0x03d5 (lowByte bx)

/-! ### The code -/

/-- `jl` behind `cmp bx, imm`. -/
def jumpsLess (bx imm : BitVec 16) : Bool := bx.slt imm

/-- `.roll_screen`. -/
def rollScreen (d : Display) : Option (Display × BitVec 16) := do
  let d := repMovsd 960 0xc00b80a0 0xc00b8000 d
  let d ← cls 80 3840 d
  some ({ d with rolls := d.rolls + 1 }, 1920)

/-- `.is_line_feed`, which is `.is_carriage_return` too. -/
def isLineFeed (d : Display) (bx : BitVec 16) : Option (Display × BitVec 16) :=
  let dx := bx % 80
  let bx := bx - dx + 80
  if jumpsLess bx 2000 then some (d, bx) else d.rollScreen

/-- `.is_backspace`. -/
def isBackspace (d : Display) (bx : BitVec 16) : Option (Display × BitVec 16) := do
  let bx := (bx - 1) <<< 1
  let d ← d.gsByte bx.toNat 0x20
  let bx := bx + 1
  let d ← d.gsByte bx.toNat 0x07
  some (d, bx >>> 1)

/-- `.put_other`, which runs on into the line feed behind the last cell. -/
def putOther (d : Display) (bx : BitVec 16) (cl : UInt8) : Option (Display × BitVec 16) := do
  let bx := bx <<< 1
  let d ← d.gsByte bx.toNat cl
  let bx := bx + 1
  let d ← d.gsByte bx.toNat 0x07
  let bx := (bx >>> 1) + 1
  if jumpsLess bx 2000 then some (d, bx) else d.isLineFeed bx

/-- The jumps behind the comparisons of `cl`. -/
def putAt (d : Display) (bx : BitVec 16) (cl : UInt8) : Option (Display × BitVec 16) :=
  if cl = 0x0d then d.isLineFeed bx
  else if cl = 0x0a then d.isLineFeed bx
  else if cl = 0x08 then d.isBackspace bx
  else d.putOther bx cl

/-- `put_char`. -/
def putChar (d : Display) (char : UInt8) : Option Display := do
  let (d, bx) := d.getCursor
  let (d, bx) ← d.putAt bx char
  some (d.setCursor bx)

/-- `cls_screen`. -/
def clsScreen (d : Display) : Option Display := do
  let d ← cls (80 * 25) 0 d
  some (d.setCursor 0)

/-- Characters, one after the other. -/
def putChars (d : Display) (chars : List UInt8) : Option Display := chars.foldlM putChar d

/-! ### Words -/

section

variable {bx : BitVec 16} {c : Nat}

theorem wordOf_bytes (bx : BitVec 16) : wordOf (highByte bx) (lowByte bx) = bx := by
  have high : (highByte bx).toNat = bx.toNat / 256 := by
    apply UInt8.toNat_ofNat_of_lt'
    show bx.toNat / 256 < 256
    omega
  have low : (lowByte bx).toNat = bx.toNat % 256 := rfl
  apply BitVec.eq_of_toNat_eq
  rw [wordOf, high, low, BitVec.toNat_ofNat]
  omega

theorem jumpsLess_eq (isC : bx.toNat = c) (small : c < 2 ^ 15) : jumpsLess bx 2000 = decide (c < 2000) := by
  have isInt : bx.toInt = c := by rw [BitVec.toInt_eq_toNat_of_lt (by omega), isC]
  have isLimit : (2000 : BitVec 16).toInt = 2000 := by decide
  rw [jumpsLess, BitVec.slt, isInt, isLimit]
  exact decide_eq_decide.mpr (by omega)

theorem toNat_lineFeed (isC : bx.toNat = c) (small : c ≤ 2000) :
    (bx - bx % 80 + 80).toNat = c / 80 * 80 + 80 := by
  have isRest : (bx % 80).toNat = c % 80 := by
    rw [BitVec.toNat_umod, isC]
    rfl
  bv_omega

theorem toNat_cell (isC : bx.toNat = c) (small : c < 2 ^ 15) : (bx <<< 1).toNat = 2 * c := by
  bv_omega

theorem toNat_color (isC : bx.toNat = c) (small : c < 2 ^ 15) : (bx <<< 1 + 1).toNat = 2 * c + 1 := by
  bv_omega

theorem toNat_half (isC : bx.toNat = c) (small : c < 2 ^ 15) : ((bx <<< 1 + 1) >>> 1).toNat = c := by
  bv_omega

end

/-! ### The cursor -/

/-- The cursor that the two registers hold. -/
def cursor (d : Display) : Nat := (wordOf (d.crt.regs 0x0e) (d.crt.regs 0x0f)).toNat

theorem putChar_eq (d : Display) (char : UInt8) :
    d.putChar char = ((d.select 0x0f).putAt (wordOf (d.crt.regs 0x0e) (d.crt.regs 0x0f)) char).bind
      fun (d, bx) => some (d.setCursor bx) := rfl

theorem cursor_setCursor (d : Display) (bx : BitVec 16) : (d.setCursor bx).cursor = bx.toNat :=
  congrArg BitVec.toNat (wordOf_bytes bx)

/-! ### What the code leaves -/

/-- The two stores that make a cell. -/
def putCell (d : Display) (i : Nat) (char : UInt8) : Display :=
  (d.putByte (videoBase + 2 * i) char).putByte (videoBase + (2 * i + 1)) 0x07

section

variable {d : Display} {bx : BitVec 16} {c : Nat}

theorem gsByte_eq {off : Nat} (inside : off ≤ videoLimit) (byte : UInt8) :
    d.gsByte off byte = some (d.putByte (videoBase + off) byte) := if_pos inside

/-- The two stores into a cell of the screen. -/
theorem storesCell (isC : bx.toNat = c) (small : c < 2000) (char : UInt8) :
    (d.gsByte (bx <<< 1).toNat char).bind (fun d => d.gsByte (bx <<< 1 + 1).toNat 0x07) =
      some (d.putCell c char) := by
  rw [toNat_cell isC (by omega), toNat_color isC (by omega)]
  have inCell : 2 * c ≤ videoLimit := by
    unfold videoLimit
    omega
  have inColor : 2 * c + 1 ≤ videoLimit := by
    unfold videoLimit
    omega
  rw [gsByte_eq inCell]
  exact gsByte_eq inColor _

/-- A backspace blanks the cell before the cursor. -/
theorem isBackspace_eq (isC : bx.toNat = c + 1) (small : c < 2000) :
    ∃ bx', d.isBackspace bx = some (d.putCell c 0x20, bx') ∧ bx'.toNat = c := by
  have isBefore : (bx - 1).toNat = c := by bv_omega
  have stores := storesCell (d := d) isBefore small 0x20
  refine ⟨_, ?_, toNat_half isBefore (by omega)⟩
  obtain ⟨d₁, isFirst, isSecond⟩ := Option.bind_eq_some_iff.mp stores
  simp only [isBackspace, isFirst, isSecond, Option.bind_eq_bind, Option.bind_some]

/-- A backspace at the top left corner stores behind the video segment. -/
theorem isBackspace_corner (isC : bx.toNat = 0) : d.isBackspace bx = none := by
  have isFar : ((bx - 1) <<< 1).toNat = 0xfffe := by bv_omega
  have outside : ¬ 0xfffe ≤ videoLimit := by decide
  rw [isBackspace, isFar, gsByte, if_neg outside]
  rfl

/-- The end of a line scrolls on the last line, and behind it. -/
theorem isLineFeed_eq (isC : bx.toNat = c) (small : c ≤ 2000) :
    (1920 ≤ c ∧ d.isLineFeed bx = d.rollScreen) ∨
      c < 1920 ∧ ∃ bx', d.isLineFeed bx = some (d, bx') ∧ bx'.toNat = c / 80 * 80 + 80 := by
  have isNext := toNat_lineFeed isC small
  unfold isLineFeed
  dsimp only
  rw [jumpsLess_eq isNext (by omega)]
  by_cases last : 1920 ≤ c
  · rw [decide_eq_false (by omega)]
    exact .inl ⟨last, rfl⟩
  · rw [decide_eq_true (by omega)]
    exact .inr ⟨by omega, _, rfl, isNext⟩

/-- Another character goes into the cell at the cursor, and ends the line in the last one. -/
theorem putOther_eq (isC : bx.toNat = c) (small : c < 2000) (char : UInt8) :
    ∃ bx', bx'.toNat = c + 1 ∧ d.putOther bx char =
      if c < 1999 then some (d.putCell c char, bx') else (d.putCell c char).isLineFeed bx' := by
  have stores := storesCell (d := d) isC small char
  have half := toNat_half isC (by omega)
  have isNext : ((bx <<< 1 + 1) >>> 1 + 1).toNat = c + 1 := by bv_omega
  obtain ⟨d₁, isFirst, isSecond⟩ := Option.bind_eq_some_iff.mp stores
  refine ⟨_, isNext, ?_⟩
  simp only [putOther, isFirst, isSecond, Option.bind_eq_bind, Option.bind_some, jumpsLess_eq isNext
    (by omega : c + 1 < 2 ^ 15), decide_eq_true_eq]
  by_cases last : c < 1999
  · rw [if_pos last, if_pos (by omega)]
  · rw [if_neg last, if_neg (by omega)]

end

/-! ### The loops -/

section

variable {d : Display}

/-- The words moved, when they move down in memory. -/
theorem repMovsd_mem {ecx esi edi : Nat} (down : edi + 4 ≤ esi) (place : Nat) :
    (repMovsd ecx esi edi d).mem place =
      if edi ≤ place ∧ place < edi + 4 * ecx then d.mem (esi + (place - edi)) else d.mem place := by
  induction ecx generalizing esi edi d with
  | zero =>
      rw [if_neg (by omega)]
      rfl
  | succ ecx inductionHypothesis =>
      rw [repMovsd, inductionHypothesis (by omega)]
      by_cases rest : edi + 4 ≤ place ∧ place < edi + 4 + 4 * ecx
      · have isSource : esi + 4 + (place - (edi + 4)) = esi + (place - edi) := by omega
        rw [if_pos rest, if_pos (by omega), isSource]
        -- the source of what is left lies behind the word just stored
        exact if_neg (by omega)
      · rw [if_neg rest]
        by_cases first : edi ≤ place ∧ place < edi + 4
        · rw [if_pos (by omega)]
          exact if_pos first
        · rw [if_neg (by omega)]
          exact if_neg first

/-- What the loops leave alone. -/
structure SameButScreen (d d' : Display) (first last : Nat) : Prop where
  crt : d'.crt = d.crt
  rolls : d'.rolls = d.rolls
  stores : ∀ place ∈ d'.stores, place ∈ d.stores ∨ first ≤ place ∧ place < last

theorem repMovsd_same (d : Display) (ecx esi edi : Nat) :
    SameButScreen d (repMovsd ecx esi edi d) edi (edi + 4 * ecx) := by
  induction ecx generalizing esi edi d with
  | zero => exact ⟨rfl, rfl, fun place mem => .inl mem⟩
  | succ ecx inductionHypothesis =>
      have rest := inductionHypothesis (d.movsd esi edi) (esi + 4) (edi + 4)
      refine ⟨rest.crt, rest.rolls, fun place mem => ?_⟩
      rcases rest.stores place mem with mem | inside
      · rcases List.mem_append.mp mem with mem | mem
        · simp only [List.mem_cons, List.not_mem_nil, or_false] at mem
          exact .inr (by omega)
        · exact .inl mem
      · exact .inr (by omega)

/-- A cleared stretch of the screen. -/
theorem cls_eq (d : Display) (ecx ebx : Nat) (inside : ebx + 2 * ecx ≤ videoLimit + 1) :
    ∃ d', cls ecx ebx d = some d' ∧
      SameButScreen d d' (videoBase + ebx) (videoBase + (ebx + 2 * ecx)) ∧
      ∀ off, d'.mem (videoBase + off) =
        if ebx ≤ off ∧ off < ebx + 2 * ecx then (if (off - ebx) % 2 = 0 then 0x20 else 0x07)
        else d.mem (videoBase + off) := by
  induction ecx generalizing ebx d with
  | zero =>
      refine ⟨d, rfl, ⟨rfl, rfl, fun place mem => .inl mem⟩, fun off => ?_⟩
      rw [if_neg (by omega)]
  | succ ecx inductionHypothesis =>
      obtain ⟨d', isRest, same, isMem⟩ := @inductionHypothesis
        ((d.putByte (videoBase + ebx) 0x20).putByte (videoBase + ebx + 1) 0x07) (ebx + 2) (by omega)
      refine ⟨d', ?_, ⟨same.crt, same.rolls, fun place mem => ?_⟩, fun off => ?_⟩
      · rw [cls, gsWord, if_pos (by omega)]
        exact isRest
      · rcases same.stores place mem with mem | inside
        · rcases List.mem_cons.mp mem with rfl | mem
          · exact .inr (by omega)
          · rcases List.mem_cons.mp mem with rfl | mem
            · exact .inr (by omega)
            · exact .inl mem
        · exact .inr (by omega)
      · rw [isMem]
        by_cases rest : ebx + 2 ≤ off ∧ off < ebx + 2 + 2 * ecx
        · have parity : (off - (ebx + 2)) % 2 = (off - ebx) % 2 := by omega
          rw [if_pos rest, parity, if_pos (by omega : ebx ≤ off ∧ off < ebx + 2 * (ecx + 1))]
        · rw [if_neg rest]
          simp only [putByte, Function.update_apply]
          by_cases isColor : off = ebx + 1
          · rw [if_pos (by omega), if_pos (by omega), if_neg (by omega)]
          · rw [if_neg (by omega)]
            by_cases isCell : off = ebx
            · rw [if_pos (by omega), if_pos (by omega), if_pos (by omega)]
            · rw [if_neg (by omega), if_neg (by omega)]

/-- The screen one row further up, with a blank last row. -/
theorem rollScreen_eq (d : Display) :
    ∃ d', d.rollScreen = some (d', 1920) ∧ d'.crt = d.crt ∧ d'.rolls = d.rolls + 1 ∧
      (∀ place ∈ d'.stores, place ∈ d.stores ∨ videoBase ≤ place ∧ place < videoBase + 4000) ∧
      ∀ off < 4000, d'.mem (videoBase + off) =
        if off < 3840 then d.mem (videoBase + (off + 160))
        else if off % 2 = 0 then 0x20 else 0x07 := by
  have moved := repMovsd_same d 960 0xc00b80a0 0xc00b8000
  obtain ⟨d', isCleared, same, isMem⟩ :=
    cls_eq (repMovsd 960 0xc00b80a0 0xc00b8000 d) 80 3840 (by decide)
  refine ⟨{ d' with rolls := d'.rolls + 1 }, ?_, same.crt.trans moved.crt,
    congrArg (· + 1) (same.rolls.trans moved.rolls), fun place mem => ?_, fun off small => ?_⟩
  · rw [rollScreen, isCleared]
    rfl
  · rcases same.stores place mem with mem | inside
    · rcases moved.stores place mem with mem | inside
      · exact .inl mem
      · refine .inr ?_
        unfold videoBase
        omega
    · obtain ⟨above, below⟩ := inside
      exact .inr ⟨(Nat.le_add_right _ _).trans above, below⟩
  · show d'.mem (videoBase + off) = _
    rw [isMem]
    by_cases last : 3840 ≤ off
    · have parity : (off - 3840) % 2 = off % 2 := by omega
      rw [if_pos (by omega : 3840 ≤ off ∧ off < 3840 + 2 * 80), if_neg (by omega : ¬ off < 3840), parity]
    · have isSource : 0xc00b80a0 + (videoBase + off - 0xc00b8000) = videoBase + (off + 160) := by
        unfold videoBase
        omega
      rw [if_neg (by omega), if_pos (by omega), repMovsd_mem (by decide), isSource, if_pos]
      unfold videoBase
      omega

end

end Display

end ZyOs.Kernel
