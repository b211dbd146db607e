import Mathlib.Data.UInt
import ZyOs.Device.IoQueueSafety
import ZyOs.Lib.Outcomes

/-!
Contract: `intr_keyboard_handler` of `device/keyboard.c`, byte by byte.

Owns:
- the five flags, the two-byte scan codes, and `keymap`;
- what each branch of the handler does to the flags, and the character that it puts into
  `kbd_buf`.

Does not own: the queue behind `kbd_buf`, and the text `unknown key`, which is printed only.
-/

namespace ZyOs.Device

/-! ### Scan codes -/

def shiftLMake : UInt16 := 0x2a
def shiftRMake : UInt16 := 0x36
def altLMake : UInt16 := 0x38
def altRMake : UInt16 := 0xe038
def ctrlLMake : UInt16 := 0x1d
def ctrlRMake : UInt16 := 0xe01d
def capsLockMake : UInt16 := 0x3a

/-- `keymap`, without and with shift. -/
def keymap : List (Char × Char) :=
  [('\x00', '\x00'), ('\x1b', '\x1b'),
    ('1', '!'), ('2', '@'), ('3', '#'), ('4', '$'), ('5', '%'), ('6', '^'), ('7', '&'), ('8', '*'),
    ('9', '('), ('0', ')'), ('-', '_'), ('=', '+'), ('\x08', '\x08'), ('\t', '\t'),
    ('q', 'Q'), ('w', 'W'), ('e', 'E'), ('r', 'R'), ('t', 'T'), ('y', 'Y'), ('u', 'U'), ('i', 'I'),
    ('o', 'O'), ('p', 'P'), ('[', '\x7b'), (']', '\x7d'), ('\r', '\r'),
    -- ctrl
    ('\x00', '\x00'),
    ('a', 'A'), ('s', 'S'), ('d', 'D'), ('f', 'F'), ('g', 'G'), ('h', 'H'), ('j', 'J'), ('k', 'K'),
    ('l', 'L'), (';', ':'), ('\x27', '\x22'), ('\x60', '~'),
    -- left shift
    ('\x00', '\x00'),
    ('\x5c', '|'), ('z', 'Z'), ('x', 'X'), ('c', 'C'), ('v', 'V'), ('b', 'B'), ('n', 'N'), ('m', 'M'),
    (',', '<'), ('.', '>'), ('/', '?'),
    -- right shift
    ('\x00', '\x00'), ('*', '*'),
    -- alt
    ('\x00', '\x00'), (' ', ' '),
    -- caps lock
    ('\x00', '\x00')]

/-- `keymap[index][shift]`. -/
def keymapAt (index : UInt8) (shift : Bool) : UInt8 :=
  let entry := keymap.getD index.toNat ('\x00', '\x00')
  UInt8.ofNat (if shift then entry.2 else entry.1).toNat

/-- The keys with two characters that are no letters. -/
def hasTwoChars (scancode : UInt16) : Bool :=
  scancode < 0x0e || scancode == 0x29 || scancode == 0x1a || scancode == 0x1b || scancode == 0x2b ||
    scancode == 0x27 || scancode == 0x28 || scancode == 0x33 || scancode == 0x34 || scancode == 0x35

/-! ### The handler -/

structure KeyboardFlags where
  ctrlStatus : Bool
  shiftStatus : Bool
  altStatus : Bool
  capsLockStatus : Bool
  extScancode : Bool
deriving DecidableEq, Repr

namespace KeyboardFlags

/-- The branch for a break code, behind the two-byte codes. -/
def release (flags : KeyboardFlags) (scancode : UInt16) : KeyboardFlags :=
  let makeCode := scancode &&& 0xff7f
  if makeCode = ctrlLMake ∨ makeCode = ctrlRMake then { flags with ctrlStatus := false }
  else if makeCode = shiftLMake ∨ makeCode = shiftRMake then { flags with shiftStatus := false }
  else if makeCode = altLMake ∨ makeCode = altRMake then { flags with altStatus := false }
  else flags

/-- A make code that the handler knows. -/
def known (scancode : UInt16) : Prop :=
  0 < scancode ∧ scancode < 0x3b ∨ scancode = altRMake ∨ scancode = ctrlRMake

instance (scancode : UInt16) : Decidable (known scancode) := inferInstanceAs (Decidable (_ ∨ _))

/-- The column of `keymap`. -/
def shift (flags : KeyboardFlags) (scancode : UInt16) : Bool :=
  if hasTwoChars scancode then
    if flags.shiftStatus then true else false
  else if flags.shiftStatus && flags.capsLockStatus then false
  else if flags.shiftStatus || flags.capsLockStatus then true
  else false

/-- The character of a known make code. -/
def charOf (flags : KeyboardFlags) (scancode : UInt16) : UInt8 :=
  keymapAt (scancode &&& 0x00ff).toUInt8 (flags.shift scancode)

/-- `ctrl+l` and `ctrl+u` give characters of their own. -/
def shortcut (flags : KeyboardFlags) (curChar : UInt8) : UInt8 :=
  if (flags.ctrlStatus ∧ curChar = 108) ∨ (flags.ctrlStatus ∧ curChar = 117) then curChar - 97
  else curChar

/-- The last branch for a make code: a key without a character, by its low byte. -/
def press (flags : KeyboardFlags) (scancode : UInt16) : KeyboardFlags :=
  let scancode := scancode &&& 0x00ff
  if scancode = ctrlLMake ∨ scancode = ctrlRMake then { flags with ctrlStatus := true }
  else if scancode = shiftLMake ∨ scancode = shiftRMake then { flags with shiftStatus := true }
  else if scancode = altLMake ∨ scancode = altRMake then { flags with altStatus := true }
  else if scancode = capsLockMake then { flags with capsLockStatus := !flags.capsLockStatus }
  else flags

end KeyboardFlags

/-- The flags, and the queue that `kbd_buf` is. -/
structure Keyboard (Task : Type) where
  flags : KeyboardFlags
  kbdBuf : QueueState Task

variable {Task : Type} [DecidableEq Task]

namespace Keyboard

/-- The branches behind the two-byte codes. -/
def scan (s : Keyboard Task) (scancode : UInt16) : Except QueuePanic (Keyboard Task) :=
  if scancode &&& 0x0080 ≠ 0 then
    .ok { s with flags := s.flags.release scancode }
  else if KeyboardFlags.known scancode then
    if s.flags.charOf scancode ≠ 0 then do
      let kbdBuf ← s.kbdBuf.intrKeyboardHandler (s.flags.shortcut (s.flags.charOf scancode))
      .ok { s with kbdBuf := kbdBuf }
    else
      .ok { s with flags := s.flags.press scancode }
  else
    .ok s

/-- `intr_keyboard_handler`, with the byte that it reads from the port. -/
def intrKeyboardHandler (s : Keyboard Task) (byte : UInt8) : Except QueuePanic (Keyboard Task) :=
  let scancode := byte.toUInt16
  if scancode = 0xe0 then
    .ok { s with flags := { s.flags with extScancode := true } }
  else if s.flags.extScancode then
    scan { s with flags := { s.flags with extScancode := false } } (0xe000 ||| scancode)
  else
    s.scan scancode

end Keyboard

end ZyOs.Device
