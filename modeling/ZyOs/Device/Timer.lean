import Mathlib.Data.UInt
import ZyOs.Thread.Lock

/-!
Contract: `device/timer.c`: the 8253, the timer interrupt, and tasks that sleep.

Owns:
- the three bytes that `frequency_set` writes and the value that the 8253 counts from;
- clocks, interrupts and the loop of `ticks_to_sleep` as one transition system over the
  scheduler.

One step is one clock of the 8253, one timer interrupt, or what the current task does; any
number of clocks may pass before and after each. An interrupt that nobody has taken yet is
kept by the 8259, once.

Ghost: the clocks since power on, and what a sleep was called with and when.
-/

namespace ZyOs.Device

open ZyOs.Thread

/-! ### The 8253 -/

def irq0Frequency : Nat := 100
def inputFrequency : Nat := 1193180
def counter0Value : Nat := inputFrequency / irq0Frequency
def counter0Port : UInt8 := 0x40
def counter0No : UInt8 := 0
def counterMode : UInt8 := 2
def readWriteLatch : UInt8 := 3
def pitControlPort : UInt16 := 0x43

/-- `mil_seconds_per_intr`. -/
def milSecondsPerIntr : UInt32 := UInt32.ofNat (1000 / irq0Frequency)

/-- Counter 0 of the 8253: how it is written and in what mode it counts, the low byte that waits
for the high byte, and the value that it counts from. -/
structure Pit where
  rwl : UInt8
  mode : UInt8
  lowByte : Option UInt8
  value : UInt16
deriving DecidableEq, Repr

namespace Pit

/-- The control word for counter 0, and its data port. -/
def outb (pit : Pit) (port : UInt16) (data : UInt8) : Pit :=
  if port = pitControlPort then
    if data >>> 6 = 0 ∧ (data >>> 4) &&& 3 ≠ 0 then
      { pit with rwl := (data >>> 4) &&& 3, mode := (data >>> 1) &&& 7, lowByte := none }
    else
      pit
  else if port = counter0Port.toUInt16 then
    if pit.rwl = 3 then
      match pit.lowByte with
      | none => { pit with lowByte := some data }
      | some low => { pit with lowByte := none, value := data.toUInt16 <<< 8 ||| low.toUInt16 }
    else if pit.rwl = 2 then
      { pit with value := data.toUInt16 <<< 8 }
    else
      { pit with value := data.toUInt16 }
  else
    pit

/-- The clocks from one interrupt to the next. -/
def divisor (pit : Pit) : Nat := if pit.value = 0 then 0x10000 else pit.value.toNat

end Pit

def frequencySet (pit : Pit) (counterPort counterNo rwl counterMode : UInt8) (counterValue : UInt16) : Pit :=
  let pit := pit.outb pitControlPort
    (UInt8.ofNat (counterNo.toNat <<< 6 ||| rwl.toNat <<< 4 ||| counterMode.toNat <<< 1))
  let pit := pit.outb counterPort.toUInt16 counterValue.toUInt8
  -- the cast binds tighter than the shift
  pit.outb counterPort.toUInt16 (UInt8.ofNat (counterValue.toUInt8.toNat >>> 8))

/-- `timer_init`, without the registration of the handler. -/
def timerInit (pit : Pit) : Pit :=
  frequencySet pit counter0Port counter0No readWriteLatch counterMode (UInt16.ofNat counter0Value)

/-- The counter counts from the low byte of `counter_value`: the high byte is written as zero. -/
theorem frequencySet_value (pit : Pit) (counterValue : UInt16) :
    (frequencySet pit counter0Port counter0No readWriteLatch counterMode counterValue).value =
      counterValue.toUInt8.toUInt16 := by
  have isHigh : UInt8.ofNat (counterValue.toUInt8.toNat >>> 8) = 0 := by
    rw [Nat.shiftRight_eq_div_pow, Nat.div_eq_of_lt (counterValue.toUInt8.toNat_lt)]
    rfl
  unfold frequencySet
  rw [isHigh]
  show (0 : UInt16) ||| counterValue.toUInt8.toUInt16 = _
  exact UInt16.zero_or

/-- Not the 11931 clocks that `COUNTER0_VALUE` is. -/
theorem timerInit_divisor (pit : Pit) : (timerInit pit).divisor = 155 := by
  unfold Pit.divisor timerInit
  rw [frequencySet_value]
  decide

/-! ### Sleeping tasks -/

/-- `start_tick` and `sleep_ticks` of a task in the loop of `ticks_to_sleep`. -/
structure Sleep where
  startTick : UInt32
  sleepTicks : UInt32
  mSeconds : UInt32
  calledAt : Nat
deriving DecidableEq, Repr

inductive TimerPanic where
  | thread (panic : Panic)
  | stackMagic
  | sleepTicks
deriving DecidableEq, Repr

/-- `count` is what the 8253 has left to count, `irq` the interrupt that it has asked for. -/
structure TimerState where
  thread : State
  pit : Pit
  count : Nat
  irq : Bool
  clock : Nat
  ticks : UInt32
  stackMagic : Tid → UInt32
  elapsedTicks : Tid → UInt32
  sleep : Tid → Option Sleep

namespace TimerState

/-- An event of the scheduler. -/
def onThread (s : TimerState) (event : Thread.Event) : Except TimerPanic TimerState :=
  match exec s.thread event with
  | .ok thread => .ok { s with thread := thread }
  | .error panic => .error (.thread panic)

/-- One clock of the 8253. -/
def tick (s : TimerState) : TimerState :=
  if s.count ≤ 1 then { s with clock := s.clock + 1, count := s.pit.divisor, irq := true }
  else { s with clock := s.clock + 1, count := s.count - 1 }

def intrTimerHandler (s : TimerState) : Except TimerPanic TimerState :=
  let curThread := s.thread.cur
  if s.stackMagic curThread = 0x19870916 then
    { s with
      elapsedTicks := Function.update s.elapsedTicks curThread (s.elapsedTicks curThread + 1)
      ticks := s.ticks + 1 }.onThread .timer
  else
    .error .stackMagic

/-- `mtime_sleep`, and `ticks_to_sleep` up to its loop. -/
def mtimeSleep (s : TimerState) (mSeconds : UInt32) : Except TimerPanic TimerState :=
  let sleepTicks := (mSeconds + milSecondsPerIntr - 1) / milSecondsPerIntr
  if sleepTicks > 0 then
    .ok { s with
      sleep := Function.update s.sleep s.thread.cur (some ⟨s.ticks, sleepTicks, mSeconds, s.clock⟩) }
  else
    .error .sleepTicks

/-- One turn of the loop in `ticks_to_sleep`. -/
def ticksToSleep (s : TimerState) (sleep : Sleep) : Except TimerPanic TimerState :=
  if s.ticks - sleep.startTick < sleep.sleepTicks then
    s.onThread .yield
  else
    .ok { s with sleep := Function.update s.sleep s.thread.cur none }

/-- What `init_thread` sets for the timer. -/
def initThread (s : TimerState) : Thread.Event → TimerState
  | .initThread thread _ =>
      { s with
        elapsedTicks := Function.update s.elapsedTicks thread 0
        stackMagic := Function.update s.stackMagic thread 0x19870916 }
  | _ => s

end TimerState

inductive TimerEvent where
  | clock
  | timer
  | mtimeSleep (mSeconds : UInt32)
  | ticksToSleep (sleep : Sleep)
  | thread (event : Thread.Event)
deriving DecidableEq, Repr

/-- A task in the loop does nothing but the loop; what an interrupt does on its stack may come
between. -/
def TimerEnabled (s : TimerState) : TimerEvent → Prop
  | .clock => True
  | .timer => s.irq = true ∧ Enabled s.thread .timer
  | .mtimeSleep _ =>
      s.thread.resume s.thread.cur = .none ∧ s.thread.cur ≠ s.thread.idleThread ∧ s.sleep s.thread.cur = none
  | .ticksToSleep sleep =>
      s.thread.resume s.thread.cur = .none ∧ s.thread.cur ≠ s.thread.idleThread ∧
        s.sleep s.thread.cur = some sleep
  | .thread event =>
      Enabled s.thread event ∧ event ≠ .timer ∧ (s.sleep s.thread.cur = none ∨ event.ofInterrupt = true)

def timerExec (s : TimerState) : TimerEvent → Except TimerPanic TimerState
  | .clock => .ok s.tick
  | .timer => { s with irq := false }.intrTimerHandler
  | .mtimeSleep mSeconds => s.mtimeSleep mSeconds
  | .ticksToSleep sleep => s.ticksToSleep sleep
  | .thread event => (s.initThread event).onThread event

def TimerStep (s t : TimerState) : Prop := ∃ event, TimerEnabled s event ∧ timerExec s event = .ok t

/-- After `thread_init` and `timer_init`. -/
structure TimerInitial (s : TimerState) : Prop where
  thread : Initial s.thread
  pit : ∃ pit, s.pit = timerInit pit
  count : s.count = s.pit.divisor
  ticks : s.ticks = 0
  stackMagic : ∀ thread, s.thread.status thread ≠ none → s.stackMagic thread = 0x19870916
  elapsedTicks : ∀ thread, s.thread.status thread ≠ none → s.elapsedTicks thread = 0
  sleep : ∀ thread, s.sleep thread = none

/-- A state that some run from `timer_init` reaches. -/
def TimerReachable (s : TimerState) : Prop :=
  ∃ start, TimerInitial start ∧ Relation.ReflTransGen TimerStep start s

/-- The current task leaves the loop, and with it `mtime_sleep`. -/
def Returns (s : TimerState) (sleep : Sleep) : Prop :=
  TimerEnabled s (.ticksToSleep sleep) ∧ ¬ s.ticks - sleep.startTick < sleep.sleepTicks

end ZyOs.Device
