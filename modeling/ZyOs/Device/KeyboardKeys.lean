import Mathlib.Data.List.Count
import ZyOs.Device.Keyboard

/-!
Contract: the flags of the keyboard and the letters it makes, against the keys that are down.

Owns:
- keys with their set-1 codes, histories of presses and releases, and the bytes they send;
- what one key event does to the flags;
- runs: the bytes of key events in order, with readers of `kbd_buf` between them.

A key that is held down may send its make code again: a press of a key that is down is a
key event like any other.
-/

namespace ZyOs.Device

/-! ### Keys -/

/-- A key by its code: one byte, or two bytes with the prefix `0xe0`. The break code has the
top bit of the last byte set; no key has the code whose break code is the prefix. -/
structure Key where
  extended : Bool
  code : Fin 128
  notPrefix : code ≠ 0x60
deriving DecidableEq, Repr

namespace Key

def ctrlL : Key := ⟨false, 0x1d, by decide⟩
def ctrlR : Key := ⟨true, 0x1d, by decide⟩
def shiftL : Key := ⟨false, 0x2a, by decide⟩
def shiftR : Key := ⟨false, 0x36, by decide⟩
def altL : Key := ⟨false, 0x38, by decide⟩
def altR : Key := ⟨true, 0x38, by decide⟩
def capsLock : Key := ⟨false, 0x3a, by decide⟩
def a : Key := ⟨false, 0x1e, by decide⟩

/-- The make code, as the handler puts it together. -/
def scancode (key : Key) : UInt16 :=
  if key.extended then 0xe000 ||| (UInt8.ofNat key.code).toUInt16 else (UInt8.ofNat key.code).toUInt16

end Key

inductive KeyEvent where
  | press (key : Key)
  | release (key : Key)
deriving DecidableEq, Repr

namespace KeyEvent

def key : KeyEvent → Key
  | .press key | .release key => key

def isPress : KeyEvent → Bool
  | .press _ => true
  | .release _ => false

/-- The last byte that the event sends. -/
def byte : KeyEvent → UInt8
  | .press key => UInt8.ofNat key.code
  | .release key => UInt8.ofNat (key.code + 0x80)

/-- The scan code, as the handler puts it together. -/
def scancode : KeyEvent → UInt16
  | .press key => key.scancode
  | .release key => key.scancode ||| 0x0080

end KeyEvent

/-! ### Histories -/

/-- The last event of the key was a press. -/
def isDown (history : List KeyEvent) (key : Key) : Bool :=
  history.foldl (fun down event => if event.key = key then event.isPress else down) false

/-- The parity of the make codes of caps lock. -/
def capsOn (history : List KeyEvent) : Bool := history.countP (· = .press .capsLock) % 2 = 1

/-- The pairs of keys that do the same. -/
inductive Modifier where
  | ctrl
  | shift
  | alt
deriving DecidableEq, Repr

namespace Modifier

def left : Modifier → Key
  | .ctrl => .ctrlL
  | .shift => .shiftL
  | .alt => .altL

def right : Modifier → Key
  | .ctrl => .ctrlR
  | .shift => .shiftR
  | .alt => .altR

def isHeld (history : List KeyEvent) (m : Modifier) : Bool := isDown history m.left || isDown history m.right

def status (flags : KeyboardFlags) : Modifier → Bool
  | .ctrl => flags.ctrlStatus
  | .shift => flags.shiftStatus
  | .alt => flags.altStatus

def set (flags : KeyboardFlags) (value : Bool) : Modifier → KeyboardFlags
  | .ctrl => { flags with ctrlStatus := value }
  | .shift => { flags with shiftStatus := value }
  | .alt => { flags with altStatus := value }

/-- The pair that a key belongs to. -/
def ofKey (key : Key) : Option Modifier :=
  if key = .ctrlL ∨ key = .ctrlR then some .ctrl
  else if key = .shiftL ∨ key = .shiftR then some .shift
  else if key = .altL ∨ key = .altR then some .alt
  else none

end Modifier

section

variable {history : List KeyEvent} {event : KeyEvent} {key : Key}

theorem isDown_append (history : List KeyEvent) (event : KeyEvent) (key : Key) :
    isDown (history ++ [event]) key = if event.key = key then event.isPress else isDown history key :=
  List.foldl_append

theorem capsOn_append (history : List KeyEvent) (event : KeyEvent) :
    capsOn (history ++ [event]) = if event = .press .capsLock then !capsOn history else capsOn history := by
  unfold capsOn
  rw [List.countP_append, List.countP_singleton]
  by_cases isCaps : event = .press .capsLock
  · rw [if_pos isCaps, decide_eq_true isCaps, if_pos rfl, ← decide_not]
    exact decide_eq_decide.mpr (by omega)
  · rw [if_neg isCaps, decide_eq_false isCaps]
    rfl

/-! ### Scan codes -/

theorem toNat_scancode (key : Key) :
    key.scancode.toNat = (if key.extended then 0xe000 else 0) + key.code := by
  have codes : ∀ code : Fin 128, (0xe000 ||| (UInt8.ofNat code).toUInt16).toNat = 0xe000 + code.val ∧
      (UInt8.ofNat code).toUInt16.toNat = code.val := by decide
  unfold Key.scancode
  cases key.extended with
  | true => exact (codes key.code).1
  | false => exact (codes key.code).2.trans (Nat.zero_add _).symm

theorem scancode_inj {key key' : Key} : key.scancode = key'.scancode ↔ key = key' := by
  refine ⟨fun same => ?_, fun same => same ▸ rfl⟩
  have isNat := congrArg UInt16.toNat same
  rw [toNat_scancode, toNat_scancode] at isNat
  obtain ⟨extended, code, _⟩ := key
  obtain ⟨extended', code', _⟩ := key'
  have isCode : extended = extended' ∧ code = code' := by
    have small := code.isLt
    have small' := code'.isLt
    cases extended <;> cases extended' <;> simp only [if_true, Bool.false_eq_true, if_false] at isNat
    · exact ⟨rfl, Fin.ext (by omega)⟩
    · omega
    · omega
    · exact ⟨rfl, Fin.ext (by omega)⟩
  simp only [isCode]

/-- The bits that the handler looks at. -/
theorem scancode_bits (key : Key) :
    key.scancode &&& 0x0080 = 0 ∧ (key.scancode ||| 0x0080) &&& 0x0080 ≠ 0 ∧
      (key.scancode ||| 0x0080) &&& 0xff7f = key.scancode ∧
      key.scancode &&& 0x00ff = (UInt8.ofNat key.code).toUInt16 := by
  have codes : ∀ extended : Bool, ∀ code : Fin 128,
      let scancode : UInt16 := if extended then 0xe000 ||| (UInt8.ofNat code).toUInt16
        else (UInt8.ofNat code).toUInt16
      scancode &&& 0x0080 = 0 ∧ (scancode ||| 0x0080) &&& 0x0080 ≠ 0 ∧
        (scancode ||| 0x0080) &&& 0xff7f = scancode ∧
        scancode &&& 0x00ff = (UInt8.ofNat code).toUInt16 := by decide
  exact codes key.extended key.code

/-- The last byte of an event is not the prefix byte, and the handler makes the event's scan
code of it. -/
theorem byte_scancode (event : KeyEvent) :
    event.byte.toUInt16 ≠ 0xe0 ∧
      (if event.key.extended then 0xe000 ||| event.byte.toUInt16 else event.byte.toUInt16) = event.scancode := by
  have codes : ∀ extended : Bool, ∀ code : Fin 128, code ≠ 0x60 →
      let byte (value : Nat) : UInt16 := (UInt8.ofNat value).toUInt16
      let scancode (value : Nat) : UInt16 := if extended then 0xe000 ||| byte value else byte value
      byte code ≠ 0xe0 ∧ byte (code + 0x80) ≠ 0xe0 ∧ scancode (code + 0x80) = scancode code ||| 0x0080 := by
    decide
  obtain ⟨isMake, isBreak, same⟩ := codes event.key.extended event.key.code event.key.notPrefix
  cases event with
  | press key => exact ⟨isMake, rfl⟩
  | release key => exact ⟨isBreak, same⟩

end

/-! ### One key event -/

namespace KeyboardFlags

/-- What a key event is for. -/
def typed (flags : KeyboardFlags) (event : KeyEvent) : KeyboardFlags :=
  match Modifier.ofKey event.key with
  | some m => m.set flags event.isPress
  | none => if event = .press .capsLock then { flags with capsLockStatus := !flags.capsLockStatus } else flags

variable {flags : KeyboardFlags} {key : Key}

theorem typed_pair (event : KeyEvent) {m : Modifier} (isPair : Modifier.ofKey event.key = some m) :
    flags.typed event = m.set flags event.isPress := by
  unfold typed
  rw [isPair]

theorem typed_other (event : KeyEvent) (noPair : Modifier.ofKey event.key = none)
    (notCaps : event ≠ .press .capsLock) : flags.typed event = flags := by
  unfold typed
  rw [noPair]
  exact if_neg notCaps

/-- The branch for a break code. -/
theorem release_eq (flags : KeyboardFlags) (key : Key) :
    flags.release (KeyEvent.release key).scancode = flags.typed (.release key) := by
  have isMake : (KeyEvent.release key).scancode &&& 0xff7f = key.scancode := (scancode_bits key).2.2.1
  have isKey : ∀ other : Key, key.scancode = other.scancode ↔ key = other := fun _ => scancode_inj
  have isRelease : flags.release (KeyEvent.release key).scancode =
      if key = .ctrlL ∨ key = .ctrlR then { flags with ctrlStatus := false }
      else if key = .shiftL ∨ key = .shiftR then { flags with shiftStatus := false }
      else if key = .altL ∨ key = .altR then { flags with altStatus := false }
      else flags := by
    unfold release
    dsimp only
    rw [isMake]
    simp only [← isKey]
    rfl
  rw [isRelease]
  by_cases isCtrl : key = .ctrlL ∨ key = .ctrlR
  · rw [if_pos isCtrl]
    exact (typed_pair (m := .ctrl) (.release key) (if_pos isCtrl)).symm
  rw [if_neg isCtrl]
  by_cases isShift : key = .shiftL ∨ key = .shiftR
  · rw [if_pos isShift]
    exact (typed_pair (m := .shift) (.release key) ((if_neg isCtrl).trans (if_pos isShift))).symm
  rw [if_neg isShift]
  by_cases isAlt : key = .altL ∨ key = .altR
  · rw [if_pos isAlt]
    exact (typed_pair (m := .alt) (.release key)
      ((if_neg isCtrl).trans ((if_neg isShift).trans (if_pos isAlt)))).symm
  · rw [if_neg isAlt]
    refine (typed_other (.release key) ?_ fun same => nomatch same).symm
    exact (if_neg isCtrl).trans ((if_neg isShift).trans (if_neg isAlt))

/-- The keys that have a flag, with their codes. -/
theorem cases_key (key : Key) :
    key ∈ [Key.ctrlL, .ctrlR, .shiftL, .shiftR, .altL, .altR, .capsLock] ∨
      Modifier.ofKey key = none ∧ key ≠ .capsLock := by
  unfold Modifier.ofKey
  simp only [List.mem_cons, List.not_mem_nil, or_false]
  split_ifs <;> tauto

/-- A key with a flag makes no character. -/
theorem charOf_flagKey (flags : KeyboardFlags)
    (isFlag : key ∈ [Key.ctrlL, .ctrlR, .shiftL, .shiftR, .altL, .altR, .capsLock]) :
    known key.scancode ∧ flags.charOf key.scancode = 0 ∧
      flags.press key.scancode = flags.typed (.press key) := by
  have noChar : ∀ key ∈ [Key.ctrlL, .ctrlR, .shiftL, .shiftR, .altL, .altR, .capsLock], ∀ shift,
      known key.scancode ∧ keymapAt (key.scancode &&& 0x00ff).toUInt8 shift = 0 := by decide
  refine ⟨(noChar key isFlag false).1, (noChar key isFlag _).2, ?_⟩
  simp only [List.mem_cons, List.not_mem_nil, or_false] at isFlag
  rcases isFlag with rfl | rfl | rfl | rfl | rfl | rfl | rfl <;> rfl

/-- Any other key changes no flag. -/
theorem press_other (known : known key.scancode) (noPair : Modifier.ofKey key = none)
    (notCaps : key ≠ .capsLock) : flags.press key.scancode = flags := by
  have notKey : ∀ other, Modifier.ofKey other ≠ none → key ≠ other := fun other isPair same =>
    isPair (same ▸ noPair)
  have isPlain : key.extended = false := by
    rw [Bool.eq_false_iff]
    intro isExtended
    have high := toNat_scancode key
    rw [if_pos isExtended] at high
    rcases known with ⟨-, low⟩ | isAlt | isCtrl
    · have below : key.scancode.toNat < 0x3b := UInt16.lt_iff_toNat_lt.mp low
      omega
    · exact notKey .altR (by decide) (scancode_inj.mp isAlt)
    · exact notKey .ctrlR (by decide) (scancode_inj.mp isCtrl)
  have isWhole : key.scancode &&& 0x00ff = key.scancode := by
    rw [(scancode_bits key).2.2.2, Key.scancode, if_neg (by simp [isPlain])]
  have notMake : ∀ other, Modifier.ofKey other ≠ none → key.scancode ≠ other.scancode :=
    fun other isPair same => notKey other isPair (scancode_inj.mp same)
  have notCtrl : ¬ (key.scancode = ctrlLMake ∨ key.scancode = ctrlRMake) :=
    not_or.mpr ⟨notMake .ctrlL (by decide), notMake .ctrlR (by decide)⟩
  have notShift : ¬ (key.scancode = shiftLMake ∨ key.scancode = shiftRMake) :=
    not_or.mpr ⟨notMake .shiftL (by decide), notMake .shiftR (by decide)⟩
  have notAlt : ¬ (key.scancode = altLMake ∨ key.scancode = altRMake) :=
    not_or.mpr ⟨notMake .altL (by decide), notMake .altR (by decide)⟩
  have notLock : ¬ key.scancode = capsLockMake := fun isCaps =>
    notCaps ((scancode_inj : key.scancode = Key.capsLock.scancode ↔ _).mp isCaps)
  unfold press
  dsimp only
  rw [isWhole, if_neg notCtrl, if_neg notShift, if_neg notAlt, if_neg notLock]

end KeyboardFlags

/-! ### Letters -/

def isUpper (char : UInt8) : Bool := 65 ≤ char && char ≤ 90

def isLower (char : UInt8) : Bool := 97 ≤ char && char ≤ 122

def isLetter (char : UInt8) : Bool := isUpper char || isLower char

namespace KeyboardFlags

variable {flags : KeyboardFlags} {key : Key}

/-- A letter that is put into the buffer. -/
theorem letter_case (isKnown : known key.scancode)
    (letter : isLetter (flags.shortcut (flags.charOf key.scancode))) :
    isUpper (flags.shortcut (flags.charOf key.scancode)) = (flags.shiftStatus ^^ flags.capsLockStatus) := by
  have chars : ∀ extended : Bool, ∀ code : Fin 128, ∀ shiftStatus capsLockStatus : Bool,
      let scancode : UInt16 := if extended then 0xe000 ||| (UInt8.ofNat code).toUInt16
        else (UInt8.ofNat code).toUInt16
      let char := charOf ⟨false, shiftStatus, false, capsLockStatus, false⟩ scancode
      known scancode → isLetter char → isUpper char = (shiftStatus ^^ capsLockStatus) := by
    decide +kernel
  unfold shortcut at letter ⊢
  by_cases isShortcut : (flags.ctrlStatus ∧ flags.charOf key.scancode = 108) ∨
      (flags.ctrlStatus ∧ flags.charOf key.scancode = 117)
  · have noLetter : isLetter (108 - 97) = false ∧ isLetter (117 - 97) = false := by decide
    rw [if_pos isShortcut] at letter
    rcases isShortcut with ⟨-, isL⟩ | ⟨-, isU⟩
    · rw [isL, noLetter.1] at letter
      cases letter
    · rw [isU, noLetter.2] at letter
      cases letter
  · rw [if_neg isShortcut] at letter ⊢
    exact chars key.extended key.code _ _ isKnown letter

end KeyboardFlags

/-! ### One interrupt -/

variable {Task : Type} [DecidableEq Task]

/-- A letter that the queue has accepted behind the earlier bytes has the right case. -/
def LetterRight (before after : QueueState Task) (upper : Bool) : Prop :=
  ∀ char, after.accepted = before.accepted ++ [char] → isLetter char → isUpper char = upper

omit [DecidableEq Task] in
theorem letterRight_of_accepted {before after : QueueState Task} (same : after.accepted = before.accepted)
    (upper : Bool) : LetterRight before after upper := by
  intro char isMore
  have length := congrArg List.length (same.symm.trans isMore)
  rw [List.length_append, List.length_singleton] at length
  omega

namespace Keyboard

/-- The queue accepts the character or nothing. -/
theorem accepted_of_key {queue queue' : QueueState Task} {curChar : UInt8}
    (isRun : queue.intrKeyboardHandler curChar = .ok queue') :
    queue'.accepted = queue.accepted ∨ queue'.accepted = queue.accepted ++ [curChar] := by
  unfold QueueState.intrKeyboardHandler at isRun
  by_cases full : queue.ioqFull
  · rw [if_neg (not_not_intro full)] at isRun
    cases isRun
    exact .inl rfl
  rw [if_pos full, QueueState.ioqPutchar, if_neg full] at isRun
  dsimp only at isRun
  split at isRun
  · obtain ⟨woken, isWoken, isEnd⟩ := Lib.ok_bind_iff.mp isRun
    cases isEnd
    refine .inr ?_
    unfold QueueState.wakeup QueueState.threadUnblock at isWoken
    split at isWoken
    · cases isWoken
    · split at isWoken
      · cases isWoken
        rfl
      · cases isWoken
  · cases isRun
    exact .inr rfl

/-- A key that makes a character. -/
theorem scan_char (s : Keyboard Task) {key : Key} (inv : QueueInv s.kbdBuf)
    (isKnown : KeyboardFlags.known key.scancode) (isChar : s.flags.charOf key.scancode ≠ 0) :
    ∃ s', s.scan key.scancode = .ok s' ∧ QueueInv s'.kbdBuf ∧ s'.flags = s.flags.typed (.press key) ∧
      LetterRight s.kbdBuf s'.kbdBuf (s.flags.shiftStatus ^^ s.flags.capsLockStatus) := by
  obtain ⟨kbdBuf, isRun, inv', -⟩ := intrKeyboardHandler_spec inv (s.flags.shortcut (s.flags.charOf key.scancode))
  have isMake : ¬ (key.scancode &&& 0x0080 ≠ 0) := not_not_intro (scancode_bits key).1
  refine ⟨{ s with kbdBuf := kbdBuf }, ?_, inv', ?_, ?_⟩
  · rw [scan, if_neg isMake, if_pos isKnown, if_pos isChar, isRun]
    rfl
  · rcases KeyboardFlags.cases_key key with isFlag | ⟨noPair, notCaps⟩
    · exact absurd (KeyboardFlags.charOf_flagKey s.flags isFlag).2.1 isChar
    · exact (KeyboardFlags.typed_other (.press key) noPair (by simpa using notCaps)).symm
  · rcases accepted_of_key isRun with same | more
    · exact letterRight_of_accepted same _
    · intro char isMore letter
      have isLast : char = s.flags.shortcut (s.flags.charOf key.scancode) := by
        have both := more.symm.trans isMore
        simpa using both.symm
      rw [isLast] at letter ⊢
      exact KeyboardFlags.letter_case isKnown letter

/-- The branches behind the two-byte codes, for the scan code of a key event. -/
theorem scan_event (s : Keyboard Task) (event : KeyEvent) (inv : QueueInv s.kbdBuf) :
    ∃ s', s.scan event.scancode = .ok s' ∧ QueueInv s'.kbdBuf ∧ s'.flags = s.flags.typed event ∧
      LetterRight s.kbdBuf s'.kbdBuf (s.flags.shiftStatus ^^ s.flags.capsLockStatus) := by
  cases event with
  | release key =>
      have isBreak := (scancode_bits key).2.1
      refine ⟨{ s with flags := s.flags.release (KeyEvent.release key).scancode }, if_pos isBreak, inv,
        KeyboardFlags.release_eq s.flags key, letterRight_of_accepted rfl _⟩
  | press key =>
      have isMake : ¬ (key.scancode &&& 0x0080 ≠ 0) := not_not_intro (scancode_bits key).1
      show ∃ s', s.scan key.scancode = .ok s' ∧ _
      by_cases isKnown : KeyboardFlags.known key.scancode
      · by_cases isChar : s.flags.charOf key.scancode ≠ 0
        · exact s.scan_char inv isKnown isChar
        · refine ⟨{ s with flags := s.flags.press key.scancode }, ?_, inv, ?_, letterRight_of_accepted rfl _⟩
          · rw [scan, if_neg isMake, if_pos isKnown, if_neg isChar]
          · rcases KeyboardFlags.cases_key key with isFlag | ⟨noPair, notCaps⟩
            · exact (KeyboardFlags.charOf_flagKey s.flags isFlag).2.2
            · rw [KeyboardFlags.typed_other (.press key) noPair (by simpa using notCaps)]
              exact KeyboardFlags.press_other isKnown noPair notCaps
      · refine ⟨s, ?_, inv, ?_, letterRight_of_accepted rfl _⟩
        · rw [scan, if_neg isMake, if_neg isKnown]
        · rcases KeyboardFlags.cases_key key with isFlag | ⟨noPair, notCaps⟩
          · exact absurd (KeyboardFlags.charOf_flagKey s.flags isFlag).1 isKnown
          · exact (KeyboardFlags.typed_other (.press key) noPair (by simpa using notCaps)).symm

/-- The interrupt for the last byte of a key event. -/
theorem handler_last (s : Keyboard Task) (event : KeyEvent) (inv : QueueInv s.kbdBuf)
    (isExt : s.flags.extScancode = event.key.extended) :
    ∃ s', s.intrKeyboardHandler event.byte = .ok s' ∧ QueueInv s'.kbdBuf ∧
      s'.flags = { s.flags with extScancode := false }.typed event ∧
      LetterRight s.kbdBuf s'.kbdBuf (s.flags.shiftStatus ^^ s.flags.capsLockStatus) := by
  obtain ⟨notFirst, isCode⟩ := byte_scancode event
  obtain ⟨s', isRun, result⟩ :=
    scan_event { s with flags := { s.flags with extScancode := false } } event inv
  refine ⟨s', ?_, result⟩
  unfold intrKeyboardHandler
  dsimp only
  rw [if_neg notFirst]
  cases isTwo : event.key.extended with
  | true =>
      rw [isTwo, if_pos rfl] at isCode
      rw [isExt, isTwo, if_pos rfl, isCode]
      exact isRun
  | false =>
      have isSame : { s with flags := { s.flags with extScancode := false } } = s := by
        rw [← isTwo, ← isExt]
      rw [isTwo, if_neg (by decide)] at isCode
      rw [isExt, isTwo, if_neg (by decide), isCode, ← isRun, isSame]

end Keyboard

end ZyOs.Device
