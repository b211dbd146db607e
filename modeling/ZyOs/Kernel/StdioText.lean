import ZyOs.Kernel.Stdio
import ZyOs.Lib.Numerals
import ZyOs.Lib.Spans

/-!
Contract: what `vsprintf` leaves in the buffer, for every format and arguments.

Owns:
- a format as pieces, each with its characters, its argument and its text;
- what the loop does with one piece, and from it with all of them;
- when the buffer holds the text with its zero and the length is right
  (`vsprintf_prints_iff`).

Only `strcpy` writes a zero behind what it copies. So the zero behind the whole text is there
when the last piece is a `%s`, or when it was there before.
-/

namespace ZyOs.Kernel

open Lib FlatMemory

/-! ### Formats -/

/-- A character that stands for itself, or a conversion with its argument. -/
inductive Piece where
  | ordinary (char : UInt8)
  /-- `%s`, with the address of the text. -/
  | s (argStr : BitVec 32) (text : List UInt8)
  | c (arg : BitVec 32)
  | d (argInt : BitVec 32)
  | x (argInt : BitVec 32)
deriving DecidableEq, Repr

/-- The bytes of an argument, the lowest first. -/
def bytesOf (word : BitVec 32) : List UInt8 :=
  [UInt8.ofNat word.toNat, UInt8.ofNat (word.toNat / 256), UInt8.ofNat (word.toNat / 65536),
    UInt8.ofNat (word.toNat / 16777216)]

/-- A number with its sign, in base ten. -/
def signedNumeral (value : Int) : List UInt8 :=
  if value < 0 then 45 :: numeral 10 value.natAbs else numeral 10 value.natAbs

namespace Piece

def format : Piece → List UInt8
  | ordinary char => [char]
  | s _ _ => [37, 115]
  | c _ => [37, 99]
  | d _ => [37, 100]
  | x _ => [37, 120]

def args : Piece → List UInt8
  | ordinary _ => []
  | s arg _ | c arg | d arg | x arg => bytesOf arg

def text : Piece → List UInt8
  | ordinary char => [char]
  | s _ text => text
  | c arg => [UInt8.ofNat arg.toNat]
  | d argInt => signedNumeral argInt.toInt
  | x argInt => numeral 16 argInt.toNat

/-- What is written behind the text. -/
def tail : Piece → List UInt8
  | s _ _ => [0]
  | _ => []

/-- An ordinary character ends no format and begins no conversion; a text has no zero in it. -/
def Valid : Piece → Prop
  | ordinary char => char ≠ 0 ∧ char ≠ 37
  | s argStr text => argStr ≠ 0 ∧ (0 : UInt8) ∉ text
  | _ => True

end Piece

def formatOf (pieces : List Piece) : List UInt8 := pieces.flatMap Piece.format

def argsOf (pieces : List Piece) : List UInt8 := pieces.flatMap Piece.args

def textOf (pieces : List Piece) : List UInt8 := pieces.flatMap Piece.text

/-- The last piece is a `%s`. -/
def EndsWithString (pieces : List Piece) : Prop := ∃ argStr text, pieces.getLast? = some (.s argStr text)

/-- A sequence that the code reads: it ends where the memory ends at the latest, and is apart from
the window that the code writes. -/
structure Readable (mem : FlatMemory) (window size addr : Nat) (bytes : List UInt8) : Prop where
  lies : LiesAt mem addr bytes
  inside : addr + bytes.length ≤ addressSpace
  apart : addr + bytes.length ≤ window ∨ window + size ≤ addr

/-- The format and the arguments lie where the pointers of the loop are, and the window has room
for the text and a zero. -/
structure Ready (mem : FlatMemory) (window size bufPtr indexPtr ap : Nat) (pieces : List Piece) : Prop where
  valid : ∀ piece ∈ pieces, piece.Valid
  format : Readable mem window size indexPtr (formatOf pieces ++ [0])
  args : Readable mem window size (ap + 4) (argsOf pieces)
  strings : ∀ argStr text, .s argStr text ∈ pieces → Readable mem window size argStr.toNat (text ++ [0])
  start : 0 < window ∧ window ≤ bufPtr
  room : bufPtr + (textOf pieces).length + 1 ≤ window + size

/-- A call of `vsprintf` with these pieces. -/
structure Matches (mem : FlatMemory) (str format ap : Nat) (pieces : List Piece) : Prop
    extends Ready mem str ((textOf pieces).length + 1) str format ap pieces where
  below : str + (textOf pieces).length < addressSpace

/-- The buffer holds the text and a zero behind it, and the length of the text is returned. -/
def Prints (mem : FlatMemory) (str format ap : Nat) (pieces : List Piece) : Prop :=
  ∃ mem', vsprintf mem str format ap = some (mem', (textOf pieces).length) ∧
    LiesAt mem' str (textOf pieces ++ [0])

section

variable {mem mem' : FlatMemory} {window size addr : Nat} {bytes data text : List UInt8}

theorem Readable.of_wrote (readable : Readable mem window size addr bytes) {place : Nat}
    (wrote : Wrote mem place data mem') (start : window ≤ place) (room : place + data.length ≤ window + size) :
    Readable mem' window size addr bytes := by
  have apart := readable.apart
  exact ⟨wrote.keeps readable.lies (by omega), readable.inside, apart⟩

theorem Readable.append {more : List UInt8} (readable : Readable mem window size addr (bytes ++ more)) :
    Readable mem window size addr bytes ∧ Readable mem window size (addr + bytes.length) more := by
  obtain ⟨lies, inside, apart⟩ := readable
  rw [List.length_append] at inside apart
  obtain ⟨first, second⟩ := liesAt_append_iff.mp lies
  exact ⟨⟨first, by omega, by omega⟩, ⟨second, by omega, by omega⟩⟩

/-! ### Words, texts and numbers -/

theorem word_eq {arg : BitVec 32} (lies : LiesAt mem addr (bytesOf arg)) : mem.word addr = arg := by
  have first := lies 0 (show 0 < 4 by decide)
  have second := lies 1 (show 1 < 4 by decide)
  have third := lies 2 (show 2 < 4 by decide)
  have fourth := lies 3 (show 3 < 4 by decide)
  unfold word
  rw [← Nat.add_zero addr, first, Nat.add_zero, second, third, fourth]
  apply BitVec.eq_of_toNat_eq
  have small := arg.isLt
  simp only [bytesOf, List.getElem_cons_zero, List.getElem_cons_succ, UInt8.toNat_ofNat', BitVec.toNat_ofNat]
  omega

/-- The loop of `strlen` ends behind the first zero. -/
theorem strlenLoop_eq_some_iff {room p q : Nat} : strlenLoop mem room p = some q ↔
    ∃ n < room, q = p + n + 1 ∧ (∀ i < n, mem (p + i) ≠ 0) ∧ mem (p + n) = 0 := by
  induction room generalizing p with
  | zero =>
      constructor
      · exact fun isNone => nomatch isNone
      · rintro ⟨n, below, -⟩
        exact absurd below (Nat.not_lt_zero n)
  | succ room inductionHypothesis =>
      unfold strlenLoop
      by_cases isZero : mem p = 0
      · rw [if_pos isZero]
        constructor
        · intro isEnd
          cases isEnd
          exact ⟨0, Nat.succ_pos _, rfl, fun i below => absurd below (Nat.not_lt_zero i), isZero⟩
        · rintro ⟨n, -, rfl, before, -⟩
          cases n with
          | zero => rfl
          | succ n => exact absurd isZero (before 0 (Nat.succ_pos n))
      · rw [if_neg isZero, inductionHypothesis]
        constructor
        · rintro ⟨n, below, rfl, before, isEnd⟩
          refine ⟨n + 1, Nat.succ_lt_succ below, by omega, fun i inside => ?_, ?_⟩
          · cases i with
            | zero => exact isZero
            | succ i =>
                rw [show p + (i + 1) = p + 1 + i from by omega]
                exact before i (Nat.lt_of_succ_lt_succ inside)
          · rw [show p + (n + 1) = p + 1 + n from by omega]
            exact isEnd
        · rintro ⟨n, below, rfl, before, isEnd⟩
          cases n with
          | zero => exact absurd isEnd isZero
          | succ n =>
              refine ⟨n, Nat.lt_of_succ_lt_succ below, by omega, fun i inside => ?_, ?_⟩
              · rw [show p + 1 + i = p + (i + 1) from by omega]
                exact before (i + 1) (Nat.succ_lt_succ inside)
              · rw [show p + 1 + n = p + (n + 1) from by omega]
                exact isEnd

theorem strlen_eq_some_iff (mem : FlatMemory) {str n : Nat} (notNull : str ≠ 0) (below : str + n < addressSpace) :
    mem.strlen str = some n ↔ (∀ i < n, mem (str + i) ≠ 0) ∧ mem (str + n) = 0 := by
  rw [FlatMemory.strlen, if_neg notNull, Option.map_eq_some_iff]
  simp only [strlenLoop_eq_some_iff]
  constructor
  · rintro ⟨p, ⟨m, -, rfl, before, isEnd⟩, isLength⟩
    obtain rfl : m = n := by omega
    exact ⟨before, isEnd⟩
  · rintro ⟨before, isEnd⟩
    exact ⟨str + n + 1, ⟨n, by omega, rfl, before, isEnd⟩, by omega⟩

/-- The length of a text that lies in the memory. -/
theorem strlen_text {str : Nat} (notNull : str ≠ 0) (lies : LiesAt mem str (text ++ [0]))
    (inside : str + (text ++ [0]).length ≤ addressSpace) (noZero : (0 : UInt8) ∉ text) :
    mem.strlen str = some text.length := by
  obtain ⟨isText, isEnd⟩ := liesAt_append_iff.mp lies
  rw [List.length_append, List.length_singleton] at inside
  refine (strlen_eq_some_iff mem notNull (by omega)).mpr ⟨fun i below isZero => ?_, liesAt_singleton_iff.mp isEnd⟩
  rw [isText i below] at isZero
  exact noZero (isZero ▸ List.getElem_mem below)

/-- A copy of a text, with its zero, to where the source is not. -/
theorem strcpyLoop_spec (room dst src : Nat) (lies : LiesAt mem src (text ++ [0])) (noZero : (0 : UInt8) ∉ text)
    (enough : text.length < room)
    (apart : src + (text ++ [0]).length ≤ dst ∨ dst + (text ++ [0]).length ≤ src) :
    ∃ mem', strcpyLoop room mem dst src = some mem' ∧ Wrote mem dst (text ++ [0]) mem' := by
  induction text generalizing room mem dst src with
  | nil =>
      cases room with
      | zero => exact absurd enough (Nat.not_lt_zero _)
      | succ room =>
          have isZero : mem src = 0 := liesAt_singleton_iff.mp lies
          refine ⟨mem.store dst 0, ?_, .store mem dst 0⟩
          rw [strcpyLoop, isZero]
          rfl
  | cons char text inductionHypothesis =>
      cases room with
      | zero => exact absurd enough (Nat.not_lt_zero _)
      | succ room =>
          rw [List.cons_append] at lies apart
          obtain ⟨isChar, rest⟩ := liesAt_cons_iff.mp lies
          rw [List.mem_cons, not_or] at noZero
          rw [List.length_cons] at apart
          have isStore : Wrote mem dst [char] (mem.store dst char) := .store mem dst char
          obtain ⟨mem', isCopy, isRest⟩ := inductionHypothesis room (dst + 1) (src + 1)
            (isStore.keeps rest (by rw [List.length_singleton]; omega)) noZero.2
            (Nat.lt_of_succ_lt_succ enough) (by omega)
          refine ⟨mem', ?_, isStore.trans isRest⟩
          rw [strcpyLoop, isChar, if_neg (Ne.symm noZero.1)]
          exact isCopy

/-- The digits before the last are written first; then the last. -/
theorem itoa_eq (mem : FlatMemory) (value bufPtr base : Nat) :
    itoa mem value bufPtr base =
      let before := if 1 < base ∧ value / base ≠ 0 then itoa mem (value / base) bufPtr base else (mem, bufPtr)
      (before.1.store before.2 (digitChar (value % base)), before.2 + 1) := by
  rw [itoa]
  generalize (if 1 < base ∧ value / base ≠ 0 then itoa mem (value / base) bufPtr base else (mem, bufPtr)) = before
  unfold digitChar
  dsimp only
  split <;> rfl

/-- `itoa` writes the numeral and moves the cursor behind it. -/
theorem itoa_spec (base : Nat) (isBase : 1 < base) (value : Nat) (mem : FlatMemory) (bufPtr : Nat) :
    Wrote mem bufPtr (numeral base value) (itoa mem value bufPtr base).1 ∧
      (itoa mem value bufPtr base).2 = bufPtr + (numeral base value).length := by
  induction value using Nat.strong_induction_on generalizing mem bufPtr with
  | _ value inductionHypothesis =>
      rw [itoa_eq]
      by_cases small : value < base
      · have noMore : ¬ (1 < base ∧ value / base ≠ 0) := by
          rw [Nat.div_eq_of_lt small]
          exact fun more => more.2 rfl
        rw [if_neg noMore, numeral_of_lt small, Nat.mod_eq_of_lt small]
        exact ⟨.store mem bufPtr (digitChar value), rfl⟩
      · have large : base ≤ value := Nat.le_of_not_lt small
        have more : 1 < base ∧ value / base ≠ 0 := ⟨isBase, (Nat.div_pos large (by omega)).ne'⟩
        obtain ⟨wrote, cursor⟩ := inductionHypothesis (value / base)
          (Nat.div_lt_self (by omega) isBase) mem bufPtr
        rw [if_pos more, numeral_of_ge isBase large]
        dsimp only
        rw [cursor, List.length_append]
        exact ⟨wrote.trans (.store _ _ _), rfl⟩

end

/-! ### One piece -/

section

variable {mem : FlatMemory} {window size bufPtr indexPtr ap : Nat} {piece : Piece} {pieces : List Piece}

/-- Every piece leaves something. -/
theorem written_pos (piece : Piece) : 0 < (piece.text ++ piece.tail).length := by
  cases piece with
  | ordinary char => exact Nat.succ_pos _
  | s argStr text =>
      show 0 < (text ++ [0]).length
      rw [List.length_append]
      exact Nat.succ_pos _
  | c arg => exact Nat.succ_pos _
  | d argInt =>
      show 0 < (signedNumeral argInt.toInt ++ []).length
      rw [List.append_nil]
      unfold signedNumeral
      split
      · exact Nat.succ_pos _
      · exact List.length_pos_of_ne_nil (numeral_ne_nil _ _)
  | x argInt =>
      show 0 < (numeral 16 argInt.toNat ++ []).length
      rw [List.append_nil]
      exact List.length_pos_of_ne_nil (numeral_ne_nil _ _)

theorem tail_length_le (piece : Piece) : piece.tail.length ≤ 1 := by
  cases piece with
  | s argStr text => exact Nat.le_refl 1
  | _ => exact Nat.zero_le 1

/-- The sign, then `itoa` of what is left. -/
theorem signed_spec (argInt : BitVec 32) (mem : FlatMemory) (bufPtr : Nat) :
    let signed := if argInt.slt 0 then (0 - argInt, mem.store bufPtr 45, bufPtr + 1) else (argInt, mem, bufPtr)
    let result := itoa signed.2.1 signed.1.toNat signed.2.2 10
    Wrote mem bufPtr (signedNumeral argInt.toInt) result.1 ∧
      result.2 = bufPtr + (signedNumeral argInt.toInt).length := by
  have small := argInt.isLt
  have isInt := BitVec.toInt_eq_toNat_cond argInt
  have isSlt : argInt.slt 0 = decide (argInt.toInt < 0) := by
    rw [BitVec.slt_eq_decide]
    rfl
  unfold signedNumeral
  by_cases negative : argInt.toInt < 0
  · have isAbs : (0 - argInt).toNat = argInt.toInt.natAbs := by
      rw [BitVec.toNat_sub]
      split at isInt
      · omega
      · have isZero : (0 : BitVec 32).toNat = 0 := rfl
        omega
    rw [isSlt, decide_eq_true negative, if_pos rfl, if_pos negative]
    dsimp only
    rw [isAbs]
    obtain ⟨wrote, cursor⟩ := itoa_spec 10 (by decide) argInt.toInt.natAbs (mem.store bufPtr 45) (bufPtr + 1)
    refine ⟨?_, ?_⟩
    · rw [← List.singleton_append]
      exact Wrote.trans (.store mem bufPtr 45) wrote
    · rw [cursor, List.length_cons]
      omega
  · have isAbs : argInt.toNat = argInt.toInt.natAbs := by
      split at isInt
      · omega
      · omega
    rw [isSlt, decide_eq_false negative, if_neg Bool.false_ne_true, if_neg negative]
    dsimp only
    rw [isAbs]
    exact itoa_spec 10 (by decide) _ _ _

/-- What the loop does with a piece: its text is written, with its tail behind it, and the
pointers are behind it. -/
theorem vsprintfLoop_piece (room : Nat) (ready : Ready mem window size bufPtr indexPtr ap (piece :: pieces)) :
    ∃ mem', vsprintfLoop (room + 1) mem bufPtr indexPtr ap (mem indexPtr) =
        vsprintfLoop room mem' (bufPtr + piece.text.length) (indexPtr + piece.format.length)
          (ap + piece.args.length) (mem' (indexPtr + piece.format.length)) ∧
      Wrote mem bufPtr (piece.text ++ piece.tail) mem' := by
  have valid := ready.valid piece List.mem_cons_self
  have isFormat := ready.format.lies
  rw [formatOf, List.flatMap_cons, List.append_assoc, liesAt_append_iff] at isFormat
  have isChars := isFormat.1
  have isArgs := ready.args.lies
  rw [argsOf, List.flatMap_cons, liesAt_append_iff] at isArgs
  have isArg := isArgs.1
  cases piece with
  | ordinary char =>
      have isChar : mem indexPtr = char := liesAt_singleton_iff.mp isChars
      refine ⟨mem.store bufPtr char, ?_, .store mem bufPtr char⟩
      rw [vsprintfLoop, isChar, if_neg valid.1, if_pos valid.2]
      rfl
  | s argStr text =>
      obtain ⟨isPercent, isS⟩ := liesAt_cons_iff.mp isChars
      rw [liesAt_singleton_iff] at isS
      have readable := ready.strings argStr text List.mem_cons_self
      have notNull : argStr.toNat ≠ 0 := fun isZero => valid.1 (BitVec.eq_of_toNat_eq isZero)
      have start := ready.start
      have fits := ready.room
      have inside := readable.inside
      have apart := readable.apart
      rw [textOf, List.flatMap_cons, List.length_append] at fits
      rw [List.length_append, List.length_singleton] at inside apart
      change bufPtr + (text.length + _) + 1 ≤ _ at fits
      obtain ⟨mem', isCopy, wrote⟩ := strcpyLoop_spec (addressSpace - argStr.toNat) bufPtr argStr.toNat
        readable.lies valid.2 (by omega) (by rw [List.length_append, List.length_singleton]; omega)
      have isStrcpy : mem.strcpy bufPtr argStr.toNat = some mem' := by
        rw [FlatMemory.strcpy, if_neg (by omega), isCopy]
      have isStrlen : mem'.strlen argStr.toNat = some text.length :=
        strlen_text notNull (wrote.keeps readable.lies (by rw [List.length_append, List.length_singleton]; omega))
          readable.inside valid.2
      refine ⟨mem', ?_, wrote⟩
      rw [vsprintfLoop, isPercent, if_neg (by decide), if_neg (by decide)]
      dsimp only
      rw [isS, if_pos rfl, word_eq isArg, isStrcpy]
      dsimp only [bind, Option.bind]
      rw [isStrlen]
      rfl
  | c arg =>
      obtain ⟨isPercent, isC⟩ := liesAt_cons_iff.mp isChars
      rw [liesAt_singleton_iff] at isC
      have isByte : mem (ap + 4) = UInt8.ofNat arg.toNat := (liesAt_cons_iff.mp isArg).1
      refine ⟨mem.store bufPtr (UInt8.ofNat arg.toNat), ?_, .store mem bufPtr _⟩
      rw [vsprintfLoop, isPercent, if_neg (by decide), if_neg (by decide)]
      dsimp only
      rw [isC, if_neg (by decide), if_pos rfl, isByte]
      rfl
  | d argInt =>
      obtain ⟨isPercent, isD⟩ := liesAt_cons_iff.mp isChars
      rw [liesAt_singleton_iff] at isD
      obtain ⟨wrote, cursor⟩ := signed_spec argInt mem bufPtr
      refine ⟨_, ?_, by rw [show Piece.tail (.d argInt) = [] from rfl, List.append_nil]; exact wrote⟩
      rw [vsprintfLoop, isPercent, if_neg (by decide), if_neg (by decide)]
      dsimp only
      rw [isD, if_neg (by decide), if_neg (by decide), if_pos rfl, word_eq isArg]
      rw [cursor]
      rfl
  | x argInt =>
      obtain ⟨isPercent, isX⟩ := liesAt_cons_iff.mp isChars
      rw [liesAt_singleton_iff] at isX
      obtain ⟨wrote, cursor⟩ := itoa_spec 16 (by decide) argInt.toNat mem bufPtr
      refine ⟨_, ?_, by rw [show Piece.tail (.x argInt) = [] from rfl, List.append_nil]; exact wrote⟩
      rw [vsprintfLoop, isPercent, if_neg (by decide), if_neg (by decide)]
      dsimp only
      rw [isX, if_neg (by decide), if_neg (by decide), if_neg (by decide), if_pos rfl, word_eq isArg]
      rw [cursor]
      rfl

/-- After a piece the rest of the format is ready. -/
theorem Ready.next (ready : Ready mem window size bufPtr indexPtr ap (piece :: pieces)) {mem' : FlatMemory}
    (wrote : Wrote mem bufPtr (piece.text ++ piece.tail) mem') :
    Ready mem' window size (bufPtr + piece.text.length) (indexPtr + piece.format.length)
      (ap + piece.args.length) pieces := by
  obtain ⟨valid, format, args, strings, start, room⟩ := ready
  rw [textOf, List.flatMap_cons, List.length_append] at room
  rw [formatOf, List.flatMap_cons, List.append_assoc] at format
  rw [argsOf, List.flatMap_cons] at args
  have fits : bufPtr + (piece.text ++ piece.tail).length ≤ window + size := by
    have atMost := tail_length_le piece
    rw [List.length_append]
    omega
  refine ⟨fun other mem => valid other (List.mem_cons_of_mem _ mem), format.append.2.of_wrote wrote start.2 fits, ?_,
    fun argStr text mem => (strings argStr text (List.mem_cons_of_mem _ mem)).of_wrote wrote start.2 fits,
    ⟨start.1, by omega⟩, ?_⟩
  · rw [show ap + piece.args.length + 4 = ap + 4 + piece.args.length from by omega]
    exact args.append.2.of_wrote wrote start.2 fits
  · rw [textOf]
    omega

end

/-! ### All pieces -/

/-- What stands behind the text when the loop ends. -/
def endOf (pieces : List Piece) : List UInt8 := (pieces.getLast?.map Piece.tail).getD []

section

variable {mem : FlatMemory} {window size str format bufPtr indexPtr ap : Nat} {pieces : List Piece}

theorem endOf_cons_cons (piece next : Piece) (pieces : List Piece) :
    endOf (piece :: next :: pieces) = endOf (next :: pieces) := by
  unfold endOf
  rw [List.getLast?_cons_cons]

theorem textOf_cons (piece : Piece) (pieces : List Piece) : textOf (piece :: pieces) = piece.text ++ textOf pieces :=
  List.flatMap_cons

/-- Some pieces leave something. -/
theorem writtenAll_pos (piece : Piece) (pieces : List Piece) :
    0 < (textOf (piece :: pieces) ++ endOf (piece :: pieces)).length := by
  induction pieces generalizing piece with
  | nil =>
      rw [textOf_cons, show textOf [] = [] from rfl, List.append_nil]
      exact written_pos piece
  | cons next pieces inductionHypothesis =>
      rw [endOf_cons_cons, textOf_cons, List.append_assoc, List.length_append]
      exact Nat.add_pos_right _ (inductionHypothesis next)

/-- The loop writes the text of all pieces, and the tail of the last. -/
theorem vsprintfLoop_spec (room : Nat) (ready : Ready mem window size bufPtr indexPtr ap pieces) (enough : pieces.length < room) :
    ∃ mem', vsprintfLoop room mem bufPtr indexPtr ap (mem indexPtr) = some mem' ∧
      Wrote mem bufPtr (textOf pieces ++ endOf pieces) mem' := by
  induction pieces generalizing mem bufPtr indexPtr ap room with
  | nil =>
      obtain ⟨room, rfl⟩ : ∃ more, room = more + 1 := ⟨room - 1, by omega⟩
      have isEnd : mem indexPtr = 0 := liesAt_singleton_iff.mp ready.format.lies
      refine ⟨mem, ?_, .nil mem bufPtr⟩
      rw [vsprintfLoop, if_pos isEnd]
  | cons piece pieces inductionHypothesis =>
      obtain ⟨room, rfl⟩ : ∃ more, room = more + 1 := ⟨room - 1, by omega⟩
      obtain ⟨mem', isPiece, wrote⟩ := vsprintfLoop_piece room ready
      obtain ⟨mem'', isRest, wroteRest⟩ :=
        inductionHypothesis room (ready.next wrote) (Nat.lt_of_succ_lt_succ enough)
      refine ⟨mem'', isPiece.trans isRest, ?_⟩
      rw [textOf_cons, List.append_assoc]
      cases pieces with
      | nil =>
          rw [wroteRest.eq_of_nil]
          exact wrote
      | cons next pieces =>
          rw [endOf_cons_cons]
          refine wrote.append wroteRest ?_
          have atMost := tail_length_le piece
          have atLeast := writtenAll_pos next pieces
          omega

/-- The byte behind the text is zero when the last piece writes it, or when it was zero before. -/
theorem behind_text_iff {mem' : FlatMemory} (wrote : Wrote mem str (textOf pieces ++ endOf pieces) mem') :
    mem' (str + (textOf pieces).length) = 0 ↔ EndsWithString pieces ∨ mem (str + (textOf pieces).length) = 0 := by
  by_cases endsWith : EndsWithString pieces
  · obtain ⟨argStr, text, isLast⟩ := endsWith
    have isEnd : endOf pieces = [0] := by
      rw [endOf, isLast]
      rfl
    have lies := wrote.lies
    rw [isEnd, liesAt_append_iff, liesAt_singleton_iff] at lies
    exact iff_of_true lies.2 (.inl ⟨argStr, text, isLast⟩)
  · have isEnd : endOf pieces = [] := by
      unfold endOf
      cases isLast : pieces.getLast? with
      | none => rfl
      | some piece =>
          cases piece with
          | s argStr text => exact absurd ⟨argStr, text, isLast⟩ endsWith
          | _ => rfl
    rw [wrote.frame _ (by rw [isEnd, List.append_nil]; exact .inr (Nat.le_refl _))]
    exact (or_iff_right endsWith).symm

/-- Only `%c` puts a zero into the text. -/
theorem zero_notMem_textOf_iff (valid : ∀ piece ∈ pieces, piece.Valid) :
    (0 : UInt8) ∉ textOf pieces ↔ ∀ arg, .c arg ∈ pieces → UInt8.ofNat arg.toNat ≠ 0 := by
  have ofPiece (piece : Piece) (isValid : piece.Valid) :
      (0 : UInt8) ∈ piece.text ↔ ∃ arg, piece = .c arg ∧ UInt8.ofNat arg.toNat = 0 := by
    cases piece with
    | ordinary char =>
        refine iff_of_false (fun isZero => isValid.1 (List.mem_singleton.mp isZero).symm) ?_
        exact fun ⟨_, same, _⟩ => nomatch same
    | s argStr text => exact iff_of_false isValid.2 fun ⟨_, same, _⟩ => nomatch same
    | c arg =>
        constructor
        · exact fun isZero => ⟨arg, rfl, (List.mem_singleton.mp isZero).symm⟩
        · rintro ⟨_, same, isZero⟩
          cases same
          exact List.mem_singleton.mpr isZero.symm
    | d argInt =>
        refine iff_of_false (fun isZero => ?_) fun ⟨_, same, _⟩ => nomatch same
        have noZero := @zero_notMem_numeral 10 argInt.toInt.natAbs (by decide) (by decide)
        change 0 ∈ signedNumeral argInt.toInt at isZero
        unfold signedNumeral at isZero
        split at isZero
        · rcases List.mem_cons.mp isZero with isSign | isDigit
          · exact absurd isSign (by decide)
          · exact noZero isDigit
        · exact noZero isZero
    | x argInt =>
        exact iff_of_false (zero_notMem_numeral (by decide) (by decide)) fun ⟨_, same, _⟩ => nomatch same
  rw [textOf, List.mem_flatMap, not_exists]
  constructor
  · intro noZero arg isPiece isZero
    exact noZero (.c arg) ⟨isPiece, (ofPiece (.c arg) trivial).mpr ⟨arg, rfl, isZero⟩⟩
  · rintro noZero piece ⟨isPiece, isZero⟩
    obtain ⟨arg, rfl, isNul⟩ := (ofPiece piece (valid piece isPiece)).mp isZero
    exact noZero arg isPiece isNul

/-- No number but zero is printed with a leading zero. -/
theorem text_head_ne {argInt : BitVec 32} (notZero : argInt ≠ 0) :
    (Piece.d argInt).text.head? ≠ some (digitChar 0) ∧ (Piece.x argInt).text.head? ≠ some (digitChar 0) := by
  have ofNumeral {base value : Nat} (isBase : 1 < base) (small : base ≤ 16) (isSome : value ≠ 0) :
      (numeral base value).head? ≠ some (digitChar 0) := by
    rw [List.head?_eq_some_head (numeral_ne_nil base value)]
    exact fun isZero => head_numeral_ne isBase small isSome (Option.some.inj isZero)
  constructor
  · show (signedNumeral argInt.toInt).head? ≠ _
    have isSome : argInt.toInt ≠ 0 := fun isZero => notZero (BitVec.toInt_inj.mp isZero)
    unfold signedNumeral
    split
    · exact fun isZero => absurd (Option.some.inj isZero) (by decide)
    · exact ofNumeral (by decide) (by decide) (Int.natAbs_ne_zero.mpr isSome)
  · exact ofNumeral (by decide) (by decide) fun isZero => notZero (BitVec.eq_of_toNat_eq isZero)

theorem pieces_length_le (pieces : List Piece) : pieces.length ≤ (formatOf pieces).length := by
  induction pieces with
  | nil => exact Nat.le_refl 0
  | cons piece pieces inductionHypothesis =>
      have atLeast : 0 < piece.format.length := by cases piece <;> exact Nat.succ_pos _
      rw [formatOf, List.flatMap_cons, List.length_append, List.length_cons, Nat.add_comm pieces.length]
      exact Nat.add_le_add atLeast inductionHypothesis

/-- What `vsprintf` leaves and returns. -/
theorem vsprintf_spec (isCall : Matches mem str format ap pieces) :
    ∃ mem' : FlatMemory, Wrote mem str (textOf pieces ++ endOf pieces) mem' ∧
      vsprintf mem str format ap = (mem'.strlen str).map fun len => (mem', len) := by
  have inside := isCall.format.inside
  rw [List.length_append, List.length_singleton] at inside
  have atMost := pieces_length_le pieces
  obtain ⟨mem', isLoop, wrote⟩ := vsprintfLoop_spec (addressSpace - format) isCall.toReady (by omega)
  refine ⟨mem', wrote, ?_⟩
  rw [vsprintf, isLoop]
  show (mem'.strlen str >>= fun len => some (mem', len)) = _
  cases mem'.strlen str <;> rfl

/-- A text without a zero byte, and a zero byte behind it, make the buffer and the length right. -/
theorem Matches.prints (isCall : Matches mem str format ap pieces) (noZero : (0 : UInt8) ∉ textOf pieces)
    (behind : EndsWithString pieces ∨ mem (str + (textOf pieces).length) = 0) : Prints mem str format ap pieces := by
  obtain ⟨mem', wrote, isRun⟩ := vsprintf_spec isCall
  have isText := (liesAt_append_iff.mp wrote.lies).1
  have isEnd := (behind_text_iff wrote).mpr behind
  have isLength : mem'.strlen str = some (textOf pieces).length := by
    refine (strlen_eq_some_iff mem' (Nat.pos_iff_ne_zero.mp isCall.start.1) isCall.below).mpr ⟨fun i inside isZero => ?_, isEnd⟩
    rw [isText i inside] at isZero
    exact noZero (isZero ▸ List.getElem_mem inside)
  refine ⟨mem', ?_, liesAt_append_iff.mpr ⟨isText, liesAt_singleton_iff.mpr isEnd⟩⟩
  rw [isRun, isLength]
  rfl

/-- What the callers rely on that fill the buffer with zeros first. -/
theorem sprintf_zeroed {buf formatParam : Nat}
    (isCall : Matches mem buf (mem.word formatParam).toNat formatParam pieces)
    (zeroed : ∀ i ≤ (textOf pieces).length, mem (buf + i) = 0) (noZero : (0 : UInt8) ∉ textOf pieces) :
    ∃ mem', sprintf mem buf formatParam = some (mem', (textOf pieces).length) ∧
      LiesAt mem' buf (textOf pieces ++ [0]) :=
  isCall.prints noZero (.inr (zeroed _ (Nat.le_refl _)))

/-- For every format and arguments: the buffer ends up with the text and its zero, and the length is
that of the text, exactly when no `%c` is given the zero character and the zero behind the text comes
from a `%s` at the end or was in the buffer before. -/
theorem vsprintf_prints_iff (isCall : Matches mem str format ap pieces) :
    Prints mem str format ap pieces ↔
      (∀ arg, .c arg ∈ pieces → UInt8.ofNat arg.toNat ≠ 0) ∧
        (EndsWithString pieces ∨ mem (str + (textOf pieces).length) = 0) := by
  rw [← zero_notMem_textOf_iff isCall.valid]
  constructor
  · rintro ⟨mem'', isPrint, -⟩
    obtain ⟨mem', wrote, isRun⟩ := vsprintf_spec isCall
    rw [isRun, Option.map_eq_some_iff] at isPrint
    obtain ⟨len, isLen, isPair⟩ := isPrint
    cases isPair
    obtain ⟨before, isEnd⟩ :=
      (strlen_eq_some_iff _ (Nat.pos_iff_ne_zero.mp isCall.start.1) isCall.below).mp isLen
    refine ⟨fun isZero => ?_, (behind_text_iff wrote).mp isEnd⟩
    obtain ⟨i, inside, isByte⟩ := List.getElem_of_mem isZero
    exact before i inside (((liesAt_append_iff.mp wrote.lies).1 i inside).trans isByte)
  · rintro ⟨noZero, behind⟩
    exact isCall.prints noZero behind

end

/-! ### Two calls -/

/-- `%d%c%s` at 64, its arguments at 96, and the text of the last at 128; all other bytes are `b`. -/
def printMemory : FlatMemory := fun a =>
  if 64 ≤ a ∧ a < 71 then [37, 100, 37, 99, 37, 115, 0].getD (a - 64) 0
  else if 96 ≤ a ∧ a < 108 then [251, 255, 255, 255, 61, 0, 0, 0, 128, 0, 0, 0].getD (a - 96) 0
  else if 128 ≤ a ∧ a < 131 then [104, 105, 0].getD (a - 128) 0
  else 98

def printPieces : List Piece := [.d (-5), .c 61, .s 128 [104, 105]]

theorem textOf_printPieces : textOf printPieces = [45, 53, 61, 104, 105] := by
  have isFive : numeral 10 (5 : Int).natAbs = [53] := numeral_of_lt (by decide)
  show signedNumeral (-5) ++ [61, 104, 105] = _
  unfold signedNumeral
  rw [if_pos (by decide), Int.natAbs_neg, isFive]
  rfl

theorem printMemory_matches : Matches printMemory 16 64 92 printPieces where
  valid piece isPiece := by
    simp only [printPieces, List.mem_cons, List.not_mem_nil, or_false] at isPiece
    rcases isPiece with rfl | rfl | rfl
    · trivial
    · trivial
    · exact ⟨by decide, by decide⟩
  format := ⟨by decide, by decide, by rw [textOf_printPieces]; decide⟩
  args := ⟨by decide, by decide, by rw [textOf_printPieces]; decide⟩
  strings argStr text isPiece := by
    simp only [printPieces, List.mem_cons, List.not_mem_nil, or_false, reduceCtorEq, false_or,
      Piece.s.injEq] at isPiece
    obtain ⟨rfl, rfl⟩ := isPiece
    exact ⟨by decide, by decide, by rw [textOf_printPieces]; decide⟩
  start := by decide
  room := by rw [textOf_printPieces]; decide
  below := by rw [textOf_printPieces]; decide

/-- `-5=hi`, into a buffer without a zero. -/
theorem vsprintf_prints_signed : Prints printMemory 16 64 92 printPieces := by
  refine (vsprintf_prints_iff printMemory_matches).mpr ⟨fun arg isPiece => ?_, .inl ⟨128, [104, 105], rfl⟩⟩
  simp only [printPieces, List.mem_cons, List.not_mem_nil, or_false, reduceCtorEq, false_or,
    Piece.c.injEq] at isPiece
  rw [isPiece]
  decide

/-- `a` as the format at 64, and `bbbb` in the buffer at 16. -/
def bufferOfB : FlatMemory := fun a => if a = 64 then 97 else if 16 ≤ a ∧ a < 20 then 98 else 0

theorem bufferOfB_matches : Matches bufferOfB 16 64 92 [.ordinary 97] where
  valid piece isPiece := by
    rw [List.mem_singleton.mp isPiece]
    exact ⟨by decide, by decide⟩
  format := ⟨by decide, by decide, by decide⟩
  args := ⟨by decide, by decide, by decide⟩
  strings argStr text isPiece := nomatch List.mem_singleton.mp isPiece
  start := by decide
  room := by decide
  below := by decide

/-- The text is `a` and the buffer then holds `abbb`: four characters are returned. -/
theorem vsprintf_no_terminator : Matches bufferOfB 16 64 92 [.ordinary 97] ∧
    (vsprintf bufferOfB 16 64 92).map Prod.snd = some 4 ∧ ¬ Prints bufferOfB 16 64 92 [.ordinary 97] := by
  have isFour : (vsprintf bufferOfB 16 64 92).map Prod.snd = some 4 := by decide +kernel
  refine ⟨bufferOfB_matches, isFour, ?_⟩
  rintro ⟨mem', isOne, -⟩
  rw [isOne] at isFour
  exact absurd (Option.some.inj isFour) (show 1 ≠ 4 by decide)

end ZyOs.Kernel
