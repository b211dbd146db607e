import ZyOs.Lib.Ring
import Mathlib.Tactic.Ring

/-!
Contract: the keyboard buffer: `ioq_getchar` by any number of tasks and
`ioq_putchar` by the keyboard handler.

Owns:
- the queue of `struct ioqueue` with its lock, consumer and producer;
- where a task sleeps inside `ioq_getchar`: in `sema_down` of the lock, or in
  `ioq_wait`.

A task runs `ioq_getchar` with interrupts off, so it gives up the processor only
in `thread_block`: one step is all that a task does between two such places. An
interrupt falls between steps. Any task that is ready may run next.

Ghost: the bytes accepted and returned so far.

Does not own: the ready list, and the keys the handler makes a character from.
-/

namespace ZyOs.Device

/-- Where a task goes on when it runs next. -/
inductive QueuePc where
  | outside
  /-- The loop of `sema_down` on `ioq->lock`. -/
  | semaDown
  /-- Behind the `thread_block` of `ioq_wait`. -/
  | ioqWait
deriving DecidableEq, Repr

inductive QueueStatus where
  | ready
  | blocked
deriving DecidableEq, Repr

/-- The `ASSERT`s of `ioqueue.c`, `sync.c` and `thread_unblock`. A producer that
finds the queue full would wait; that is not modelled, and counts as a failure. -/
inductive QueuePanic where
  | waiterSet
  | noWaiter
  | notBlocked
  | inWaiters
  | downValue
  | acquireNr
  | releaseNotHolder
  | releaseNr
  | upValue
  | producerWaits
deriving DecidableEq, Repr

structure QueueState (Task : Type) where
  value : Nat
  waiters : List Task
  holder : Option Task
  holderRepeatNr : Nat
  producer : Option Task
  consumer : Option Task
  buf : Nat → UInt8
  head : Nat
  tail : Nat
  status : Task → QueueStatus
  pc : Task → QueuePc
  accepted : List UInt8
  returned : List UInt8

/-- `bufsize`. -/
def bufsize : Nat := 64

def nextPos (pos : Nat) : Nat := (pos + 1) % bufsize

variable {Task : Type} [DecidableEq Task]

namespace QueueState

def ioqFull (s : QueueState Task) : Prop := nextPos s.head = s.tail

def ioqEmpty (s : QueueState Task) : Prop := s.head = s.tail

instance (s : QueueState Task) : Decidable s.ioqFull := inferInstanceAs (Decidable (_ = _))

instance (s : QueueState Task) : Decidable s.ioqEmpty := inferInstanceAs (Decidable (_ = _))

/-- `thread_block`; the task goes on at `pc`. -/
def threadBlock (s : QueueState Task) (task : Task) (pc : QueuePc) : QueueState Task :=
  { s with
    status := Function.update s.status task .blocked
    pc := Function.update s.pc task pc }

def threadUnblock (s : QueueState Task) (task : Task) : Except QueuePanic (QueueState Task) :=
  if s.status task = .blocked then
    .ok { s with status := Function.update s.status task .ready }
  else
    .error .notBlocked

/-- `ioq_wait(&ioq->consumer)`. -/
def ioqWait (s : QueueState Task) (task : Task) : Except QueuePanic (QueueState Task) :=
  if s.consumer = none then
    .ok ({ s with consumer := some task }.threadBlock task .ioqWait)
  else
    .error .waiterSet

/-- `wakeup`; the caller clears the waiter. -/
def wakeup (s : QueueState Task) (waiter : Option Task) : Except QueuePanic (QueueState Task) :=
  match waiter with
  | none => .error .noWaiter
  | some task => s.threadUnblock task

/-- `sema_down` of the lock from its test on, the rest of `lock_acquire`, and
`ioq_wait`. -/
def downAndWait (s : QueueState Task) (task : Task) : Except QueuePanic (QueueState Task) :=
  if s.value = 0 then
    if task ∈ s.waiters then
      .error .inWaiters
    else
      .ok ({ s with waiters := s.waiters ++ [task] }.threadBlock task .semaDown)
  else if s.value - 1 = 0 then
    if s.holderRepeatNr = 0 then
      ioqWait { s with value := s.value - 1, holder := some task, holderRepeatNr := 1 } task
    else
      .error .acquireNr
  else
    .error .downValue

/-- `lock_acquire` and `ioq_wait`. -/
def acquireAndWait (s : QueueState Task) (task : Task) : Except QueuePanic (QueueState Task) :=
  if s.holder ≠ some task then
    s.downAndWait task
  else
    ioqWait { s with holderRepeatNr := (s.holderRepeatNr + 1) % 2 ^ 32 } task

def semaUp (s : QueueState Task) : Except QueuePanic (QueueState Task) :=
  if s.value = 0 then
    match s.waiters with
    | [] => .ok { s with value := s.value + 1 }
    | task :: rest => do
        let s ← threadUnblock { s with waiters := rest } task
        .ok { s with value := s.value + 1 }
  else
    .error .upValue

def lockRelease (s : QueueState Task) (task : Task) : Except QueuePanic (QueueState Task) :=
  if s.holder = some task then
    if s.holderRepeatNr > 1 then
      .ok { s with holderRepeatNr := s.holderRepeatNr - 1 }
    else if s.holderRepeatNr = 1 then
      semaUp { s with holder := none, holderRepeatNr := 0 }
    else
      .error .releaseNr
  else
    .error .releaseNotHolder

/-- `ioq_getchar` from the test of its loop on. -/
def ioqGetchar (s : QueueState Task) (task : Task) : Except QueuePanic (QueueState Task) :=
  if s.ioqEmpty then
    s.acquireAndWait task
  else do
    let byte := s.buf s.tail
    let s := { s with
      tail := nextPos s.tail
      returned := s.returned ++ [byte]
      pc := Function.update s.pc task .outside }
    if s.producer.isSome then
      let s ← s.wakeup s.producer
      .ok { s with producer := none }
    else
      .ok s

/-- What a task does when it runs again. -/
def resume (s : QueueState Task) (task : Task) : Except QueuePanic (QueueState Task) :=
  match s.pc task with
  | .outside => .ok s
  | .semaDown => s.downAndWait task
  | .ioqWait => do
      let s ← s.lockRelease task
      s.ioqGetchar task

def ioqPutchar (s : QueueState Task) (byte : UInt8) : Except QueuePanic (QueueState Task) :=
  if s.ioqFull then
    .error .producerWaits
  else do
    let s := { s with
      buf := Function.update s.buf s.head byte
      head := nextPos s.head
      accepted := s.accepted ++ [byte] }
    if s.consumer.isSome then
      let s ← s.wakeup s.consumer
      .ok { s with consumer := none }
    else
      .ok s

/-- The end of `intr_keyboard_handler`, for a key that makes a character. -/
def intrKeyboardHandler (s : QueueState Task) (curChar : UInt8) :
    Except QueuePanic (QueueState Task) :=
  if ¬s.ioqFull then s.ioqPutchar curChar else .ok s

end QueueState

open QueueState

inductive QueueEvent (Task : Type) where
  | key (curChar : UInt8)
  | getchar (task : Task)
  | run (task : Task)

/-- A task calls when it is outside, and goes on when it is ready. -/
def QueueEnabled (s : QueueState Task) : QueueEvent Task → Prop
  | .key _ => True
  | .getchar task => s.pc task = .outside ∧ s.status task = .ready
  | .run task => s.pc task ≠ .outside ∧ s.status task = .ready

def queueExec (s : QueueState Task) : QueueEvent Task → Except QueuePanic (QueueState Task)
  | .key curChar => s.intrKeyboardHandler curChar
  | .getchar task => s.ioqGetchar task
  | .run task => s.resume task

/-- `ioqueue_init`. -/
structure QueueInitial (s : QueueState Task) : Prop where
  value : s.value = 1
  waiters : s.waiters = []
  holder : s.holder = none
  holderRepeatNr : s.holderRepeatNr = 0
  producer : s.producer = none
  consumer : s.consumer = none
  head : s.head = 0
  tail : s.tail = 0
  status : ∀ task, s.status task = .ready
  pc : ∀ task, s.pc task = .outside
  accepted : s.accepted = []
  returned : s.returned = []

/-- A run, with the state before each event. -/
inductive QueueRun : List (QueueState Task × QueueEvent Task) → QueueState Task → Prop where
  | start {s : QueueState Task} (initial : QueueInitial s) : QueueRun [] s
  | step {trace : List (QueueState Task × QueueEvent Task)} {s t : QueueState Task}
      {event : QueueEvent Task} (run : QueueRun trace s) (enabled : QueueEnabled s event)
      (eq : queueExec s event = .ok t) : QueueRun (trace ++ [(s, event)]) t

end ZyOs.Device
