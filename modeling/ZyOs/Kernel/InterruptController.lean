import Mathlib.Logic.Function.Basic
import Mathlib.Data.Nat.Bitwise
import ZyOs.Kernel.InterruptGates
import ZyOs.Lib.Simulation

/-!
Contract: the two 8259A controllers behind `pic_init` of `kernel/interrupt.c`, and the end of
interrupt that `VECTOR` sends.

Owns:
- the controllers as the kernel uses them: initialization words, masks, priorities, the cascade;
- runs of devices that request, of the processor that takes interrupts and of the `out`s of
  `VECTOR`;
- a set of requests that these runs amount to, and the handlers that `register_handler` sets.

Does not own: modes that `pic_init` does not select, and whether the processor takes interrupts
at a given time: between an interrupt and the `out`s its gate keeps them off.
-/

namespace ZyOs.Kernel.Controller

open ZyOs.Lib

/-! ### An 8259A -/

/-- The initialization word that comes next. -/
inductive InitWord where
  | icw2
  | icw3
  | icw4
  | none
deriving DecidableEq, Repr

structure Chip where
  irr : Nat → Bool
  isr : Nat → Bool
  imr : Nat → Bool
  base : Nat
  expects : InitWord
  single : Bool
  needsIcw4 : Bool
  autoEoi : Bool

namespace Chip

/-- The level of highest priority that is in service is done. -/
def endOfInterrupt (c : Chip) : Chip :=
  match (List.range 8).find? c.isr with
  | none => c
  | some i => { c with isr := Function.update c.isr i false }

/-- A word for the first port: ICW1, or the end of an interrupt. -/
def ctrl (c : Chip) (value : Nat) : Chip :=
  if value.testBit 4 then
    { c with
      irr := fun _ => false
      isr := fun _ => false
      imr := fun _ => false
      expects := .icw2
      single := value.testBit 1
      needsIcw4 := value.testBit 0
      autoEoi := false }
  else if value = 0x20 then c.endOfInterrupt
  else c

/-- A word for the second port. -/
def data (c : Chip) (value : Nat) : Chip :=
  match c.expects with
  | .icw2 =>
      { c with
        base := value / 8 * 8
        expects := if c.single then (if c.needsIcw4 then .icw4 else .none) else .icw3 }
  | .icw3 => { c with expects := if c.needsIcw4 then .icw4 else .none }
  | .icw4 => { c with autoEoi := value.testBit 1, expects := .none }
  | .none => { c with imr := fun i => value.testBit i }

def wants (c : Chip) (i : Nat) : Bool := c.irr i && !c.imr i

/-- The request that the controller passes on: one of the same or higher priority in service
holds it back. -/
def next (c : Chip) : Option Nat :=
  match (List.range 8).find? fun i => c.isr i || c.wants i with
  | none => none
  | some i => if c.isr i then none else some i

def request (c : Chip) (i : Nat) : Chip := { c with irr := Function.update c.irr i true }

end Chip

/-! ### Both -/

structure Pics where
  master : Chip
  slave : Chip

namespace Pics

/-- `outb`. -/
def outb (p : Pics) (port value : Nat) : Pics :=
  if port = 0x20 then { p with master := p.master.ctrl value }
  else if port = 0x21 then { p with master := p.master.data value }
  else if port = 0xa0 then { p with slave := p.slave.ctrl value }
  else if port = 0xa1 then { p with slave := p.slave.data value }
  else p

/-- A device requests on line `i` of 16. -/
def request (p : Pics) (i : Nat) : Pics :=
  if i < 8 then { p with master := p.master.request i } else { p with slave := p.slave.request (i - 8) }

end Pics

inductive Handler where
  | generalIntrHandler
  | intrTimerHandler
  | intrKeyboardHandler
  | intrHdHandler
deriving DecidableEq, Repr

/-- `idt_table`, as `exception_init` leaves it. -/
def exceptionInit : Nat → Handler := fun _ => .generalIntrHandler

def registerHandler (idtTable : Nat → Handler) (vectorNo : Nat) (function : Handler) : Nat → Handler :=
  Function.update idtTable vectorNo function

/-- `irq_no` of a channel. -/
def irqNo (channelNo : Nat) : Nat := if channelNo = 0 then 0x20 + 14 else 0x20 + 15

/-- `idt_table` after `timer_init`, `keyboard_init` and `ide_init` of `channel_cnt` channels. -/
def idtTable (channelCnt : Nat) : Nat → Handler :=
  (List.range channelCnt).foldl (fun table channelNo => registerHandler table (irqNo channelNo) .intrHdHandler)
    (registerHandler (registerHandler exceptionInit 0x20 .intrTimerHandler) 0x21 .intrKeyboardHandler)

/-! ### Runs -/

/-- Which `out` of `VECTOR` comes next. -/
inductive Phase where
  | none
  | slave
  | master
deriving DecidableEq, Repr

structure State where
  pics : Pics
  phase : Phase

/-- The lines that `pic_init` leaves open, but for the cascade. -/
def Open (line : Nat) : Prop := line = 0 ∨ line = 1 ∨ line = 14

section Chip

variable {c : Chip} {i j : Nat}

/-- Nothing is in service. -/
def Idle (c : Chip) : Prop := ∀ i < 8, c.isr i = false

/-- At most one level is in service. -/
def Serves (c : Chip) (i : Nat) : Prop := ∀ j < 8, c.isr j = true → j = i

end Chip

/-! ### The requests that a run amounts to -/

/-- The controllers as `pic_init` has set them up, and the requests that wait. -/
structure SetUp (p : Pics) (waits : Nat → Bool) : Prop where
  masterBase : p.master.base = 0x20
  slaveBase : p.slave.base = 0x28
  masterMask : ∀ i < 8, p.master.imr i = decide (3 ≤ i)
  slaveMask : ∀ i < 8, p.slave.imr i = decide (i ≠ 6)
  masterLines : ∀ i < 8, i ≠ 2 → p.master.irr i = waits i
  slaveLines : ∀ i < 8, p.slave.irr i = waits (8 + i)

/-- What is in service while `VECTOR` has yet to send its ends of interrupt. -/
def InService (p : Pics) : Phase → Prop
  | .none => Idle p.master ∧ Idle p.slave
  | .slave => (∃ i, Serves p.master i) ∧ ∃ i, Serves p.slave i
  | .master => (∃ i, Serves p.master i) ∧ Idle p.slave

structure Related (s : State) (waits : Nat → Bool) : Prop where
  setUp : SetUp s.pics waits
  inService : InService s.pics s.phase

variable {p : Pics} {waits : Nat → Bool}

namespace SetUp

theorem request (setUp : SetUp p waits) {line : Nat} (isLine : line < 16) (device : line ≠ 2) :
    SetUp (p.request line) (Function.update waits line true) := by
  unfold Pics.request
  split
  · rename_i isMaster
    refine { setUp with masterLines := fun i small notChain => ?_, slaveLines := fun i small => ?_ }
    · by_cases same : i = line
      · subst same
        rw [Function.update_self]
        exact Function.update_self i true p.master.irr
      · refine (Function.update_of_ne same ..).trans ?_
        rw [Function.update_of_ne same, setUp.masterLines i small notChain]
    · rw [Function.update_of_ne (by omega), setUp.slaveLines i small]
  · rename_i isSlave
    refine { setUp with masterLines := fun i small notChain => ?_, slaveLines := fun i small => ?_ }
    · rw [Function.update_of_ne (by omega), setUp.masterLines i small notChain]
    · by_cases same : i = line - 8
      · subst same
        rw [show 8 + (line - 8) = line by omega, Function.update_self]
        exact Function.update_self ..
      · refine (Function.update_of_ne same ..).trans ?_
        rw [Function.update_of_ne (by omega), setUp.slaveLines i small]

end SetUp

theorem InService.request {phase : Phase} (inService : InService p phase) (line : Nat) :
    InService (p.request line) phase := by
  unfold Pics.request
  split <;> exact inService

end ZyOs.Kernel.Controller
