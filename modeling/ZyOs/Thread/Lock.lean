import ZyOs.Thread.SchedulerInvariant

/-!
Contract: `lock_acquire` and `lock_release` of `thread/sync.c` on one lock, run
by any number of tasks on top of the scheduler.

Owns:
- the statements of both functions as separate steps, so that a task switch can
  fall between any two of them while interrupts are on;
- the ghost nesting depth of a task: the calls of `lock_acquire` it has come
  back from, less those of `lock_release`.

The lock's semaphore is one semaphore of the scheduler; nobody else touches it.
`holder_repeat_nr` is a `uint32_t`.
-/

namespace ZyOs.Thread

/-- Where a task is inside `lock_acquire` or `lock_release`: each constructor
names the statement it executes next. -/
inductive LockPc where
  | outside
  | acquireDown
  | acquireWait
  | acquireHolder
  | acquireAssert
  | acquireFirst
  | acquireNested
  | releaseTest
  | releaseNested
  | releaseAssert
  | releaseHolder
  | releaseNr
  | releaseUp
deriving DecidableEq, Repr

/-- The `ASSERT`s of the lock functions, beside those of the scheduler. -/
inductive LockPanic where
  | thread (panic : Panic)
  | acquireNr
  | releaseNotHolder
  | releaseNr
deriving DecidableEq, Repr

structure LockState where
  thread : State
  holder : Option Tid
  holderRepeatNr : Nat
  pc : Tid → LockPc
  depth : Tid → Nat

def LockState.setPc (s : LockState) (task : Tid) (pc : LockPc) : LockState :=
  { s with pc := Function.update s.pc task pc }

def LockState.setDepth (s : LockState) (task : Tid) (depth : Nat) : LockState :=
  { s with depth := Function.update s.depth task depth }

/-- `acquire` and `release` are the calls, `advance` is the next statement of
the call the current task is in, `thread` is everything else. -/
inductive LockEvent where
  | thread (event : Event)
  | acquire
  | release
  | advance
deriving DecidableEq, Repr

/-- The events an interrupt can cause on the stack of a task. -/
def Event.ofInterrupt : Event → Bool
  | .timer | .semaUp _ | .wakeup _ | .resume => true
  | _ => false

/-- `lock` is used by the lock functions alone. -/
def Event.avoids (lock : SemaId) : Event → Prop
  | .semaDown sema => sema ≠ lock
  | .semaUp sema => sema ≠ lock
  | _ => True

/-- Calls are properly bracketed: a task releases what it has acquired. -/
def LockEnabled (lock : SemaId) (s : LockState) : LockEvent → Prop
  | .thread event =>
      Enabled s.thread event ∧ event.avoids lock ∧
        (s.pc s.thread.cur = .outside ∨ event.ofInterrupt = true)
  | .acquire =>
      s.thread.resume s.thread.cur = .none ∧ s.thread.cur ≠ s.thread.idleThread ∧
        s.pc s.thread.cur = .outside
  | .release =>
      s.thread.resume s.thread.cur = .none ∧ s.thread.cur ≠ s.thread.idleThread ∧
        s.pc s.thread.cur = .outside ∧ 0 < s.depth s.thread.cur
  | .advance =>
      s.thread.resume s.thread.cur = .none ∧ s.pc s.thread.cur ≠ .outside

def liftPanic {α : Type} : Except Panic α → Except LockPanic α
  | .ok value => .ok value
  | .error panic => .error (.thread panic)

/-- A task inside `sema_down` of the lock goes on once it has taken the value. -/
def afterDown (s : LockState) (task : Tid) (thread : State) : LockState :=
  LockState.setPc { s with thread := thread } task
    (if thread.resume task = .none then .acquireHolder else .acquireWait)

/-- A scheduler event. It moves the lock's own program counter only when it is
the retest of a task woken inside `sema_down` of the lock. -/
def threadEvent (s : LockState) (event : Event) : Except LockPanic LockState := do
  let thread ← liftPanic (exec s.thread event)
  if event = .resume ∧ s.pc s.thread.cur = .acquireWait then
    .ok (afterDown s s.thread.cur thread)
  else
    .ok { s with thread := thread }

/-- The test `plock->holder != running_thread()` at the start of `lock_acquire`. -/
def lockAcquire (s : LockState) : LockState :=
  if s.holder ≠ some s.thread.cur then
    s.setPc s.thread.cur .acquireDown
  else
    s.setPc s.thread.cur .acquireNested

/-- The `ASSERT(plock->holder == running_thread())` of `lock_release`. -/
def lockRelease (s : LockState) : Except LockPanic LockState :=
  if s.holder = some s.thread.cur then
    .ok (s.setPc s.thread.cur .releaseTest)
  else
    .error .releaseNotHolder

/-- The statement the current task is at. -/
def lockAdvance (lock : SemaId) (s : LockState) : Except LockPanic LockState :=
  let cur := s.thread.cur
  match s.pc cur with
  | .outside => .ok s
  | .acquireDown => do
      let thread ← liftPanic (semaDown s.thread lock)
      .ok (afterDown s cur thread)
  | .acquireWait => .ok s
  | .acquireHolder => .ok ({ s with holder := some cur }.setPc cur .acquireAssert)
  | .acquireAssert =>
      if s.holderRepeatNr = 0 then .ok (s.setPc cur .acquireFirst) else .error .acquireNr
  | .acquireFirst =>
      .ok (({ s with holderRepeatNr := 1 }.setPc cur .outside).setDepth cur (s.depth cur + 1))
  | .acquireNested =>
      .ok (({ s with holderRepeatNr := (s.holderRepeatNr + 1) % 2 ^ 32 }.setPc cur
        .outside).setDepth cur (s.depth cur + 1))
  | .releaseTest =>
      if s.holderRepeatNr > 1 then
        .ok (s.setPc cur .releaseNested)
      else
        .ok (s.setPc cur .releaseAssert)
  | .releaseNested =>
      .ok (({ s with holderRepeatNr := s.holderRepeatNr - 1 }.setPc cur
        .outside).setDepth cur (s.depth cur - 1))
  | .releaseAssert =>
      if s.holderRepeatNr = 1 then .ok (s.setPc cur .releaseHolder) else .error .releaseNr
  | .releaseHolder => .ok ({ s with holder := none }.setPc cur .releaseNr)
  | .releaseNr => .ok ({ s with holderRepeatNr := 0 }.setPc cur .releaseUp)
  | .releaseUp => do
      let thread ← liftPanic (semaUp s.thread lock)
      .ok (({ s with thread := thread }.setPc cur .outside).setDepth cur (s.depth cur - 1))

def lockExec (lock : SemaId) (s : LockState) : LockEvent → Except LockPanic LockState
  | .thread event => threadEvent s event
  | .acquire => .ok (lockAcquire s)
  | .release => lockRelease s
  | .advance => lockAdvance lock s

def LockStep (lock : SemaId) (s t : LockState) : Prop :=
  ∃ event, LockEnabled lock s event ∧ lockExec lock s event = .ok t

/-- The state after `thread_init` and `lock_init`. -/
structure LockInitial (lock : SemaId) (s : LockState) : Prop where
  thread : Initial s.thread
  value : s.thread.value lock = 1
  holder : s.holder = none
  holderRepeatNr : s.holderRepeatNr = 0
  pc : ∀ task, s.pc task = .outside
  depth : ∀ task, s.depth task = 0

/-- A state that some run reaches. -/
def LockReachable (lock : SemaId) (s : LockState) : Prop :=
  ∃ start, LockInitial lock start ∧ Relation.ReflTransGen (LockStep lock) start s

/-- A state that some run reaches in which no task nests `2 ^ 32` calls. -/
def LockReachableBelow (lock : SemaId) (s : LockState) : Prop :=
  ∃ start, LockInitial lock start ∧ Relation.ReflTransGen
    (fun s t => LockStep lock s t ∧ ∀ task, t.depth task < 2 ^ 32) start s

/-- The task is between its outermost acquire and the matching release: it has
taken the semaphore's value and not given it back. -/
def InsideLock (s : LockState) (task : Tid) : Prop :=
  0 < s.depth task ∨ s.pc task = .acquireHolder ∨ s.pc task = .acquireAssert ∨
    s.pc task = .acquireFirst

/-- The task waited for the lock, was popped from the waiters and has yet to
test the value again. -/
def YetToRetest (lock : SemaId) (s : LockState) (task : Tid) : Prop :=
  (∃ old, s.thread.resume task = .semaDown lock old) ∧
    task ∉ s.thread.waiters lock ∧
    (s.thread.status task = some .ready ∨ s.thread.status task = some .running)

end ZyOs.Thread
