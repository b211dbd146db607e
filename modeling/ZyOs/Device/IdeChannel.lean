import Mathlib.Logic.Function.Basic
import Mathlib.Tactic.Ring

/-!
Contract: `ide_read` and `ide_write` by any number of tasks on one channel, and
the interrupts of its disks.

Owns:
- the handshake of a command: `cmd_out` sets `expecting_intr`, the handler
  clears it and raises `disk_done`, and the task takes it in `sema_down`;
- the statements of both functions as separate steps, so that a task switch or
  an interrupt can fall between any two of them, inside `cmd_out` too. Only
  `sema_down` and `sema_up` run with interrupts off, up to where they block.

The channel's lock is one action: `lock_acquire` waits until the lock is free.
An interrupt may come at any time, whether a command is under way or not. A disk
that `busy_wait` gives up on ends the run.

Ghost: a clock that counts the steps; the times at which every task last set
`expecting_intr` and last wrote the command register, and of the last `sema_up`;
and for each finished `sema_down` those it saw.

Does not own: the sectors that are moved.
-/

namespace ZyOs.Device

inductive IdeOp where
  | read
  | write
deriving DecidableEq, Repr

/-- A call and its local variables. -/
structure IdeCall where
  op : IdeOp
  secCnt : Nat
  secsDone : Nat
  secsOp : Nat
deriving DecidableEq, Repr

/-- The statement a task executes next. -/
inductive IdePc where
  | outside
  | lockAcquire (call : IdeCall)
  | loop (call : IdeCall)
  /-- `cmd_out`, at `channel->expecting_intr = true`. -/
  | cmdFlag (call : IdeCall)
  /-- `cmd_out`, at the write to the command register. -/
  | cmdPort (call : IdeCall)
  | busyWait (call : IdeCall)
  | transfer (call : IdeCall)
  /-- `sema_down`, at the test of `value`; in `waiters` while it is blocked. -/
  | semaDown (call : IdeCall)
  | advance (call : IdeCall)
  | lockRelease (call : IdeCall)
deriving DecidableEq, Repr

/-- The `ASSERT`s of `sema_down`, `sema_up` and `thread_unblock` on `disk_done`. -/
inductive IdePanic where
  | inWaiters
  | downValue
  | upValue
  | notBlocked
  | releaseNotHolder
deriving DecidableEq, Repr

/-- A finished `sema_down`. -/
structure Released (Task : Type) where
  task : Task
  flagAt : Nat
  cmdAt : Nat
  upAt : Nat
  downAt : Nat

structure ChannelState (Task : Type) where
  lock : Option Task
  expectingIntr : Bool
  value : Nat
  waiters : List Task
  blocked : Task → Bool
  pc : Task → IdePc
  clock : Nat
  flagAt : Task → Nat
  cmdAt : Task → Nat
  upAt : Nat
  released : List (Released Task)

variable {Task : Type} [DecidableEq Task]

namespace ChannelState

def setPc (s : ChannelState Task) (task : Task) (pc : IdePc) : ChannelState Task :=
  { s with pc := Function.update s.pc task pc }

/-- `secs_op` of the next command. -/
def nextSecsOp (call : IdeCall) : Nat :=
  if (call.secsDone + 256) % 2 ^ 32 ≤ call.secCnt then 256 else call.secCnt - call.secsDone

/-- `sema_down(&channel->disk_done)` from the test of its loop on. -/
def semaDown (s : ChannelState Task) (task : Task) (call : IdeCall) :
    Except IdePanic (ChannelState Task) :=
  if s.value = 0 then
    if task ∈ s.waiters then
      .error .inWaiters
    else
      .ok { s with
        waiters := s.waiters ++ [task]
        blocked := Function.update s.blocked task true }
  else if s.value - 1 = 0 then
    .ok (setPc { s with
        value := s.value - 1
        released := s.released ++ [⟨task, s.flagAt task, s.cmdAt task, s.upAt, s.clock⟩] } task
      (match call.op with
        | .read => .busyWait call
        | .write => .advance call))
  else
    .error .downValue

/-- `sema_up(&channel->disk_done)`. -/
def semaUp (s : ChannelState Task) : Except IdePanic (ChannelState Task) :=
  if s.value = 0 then
    match s.waiters with
    | [] => .ok { s with value := s.value + 1, upAt := s.clock }
    | task :: rest =>
        if s.blocked task then
          .ok { s with
            waiters := rest
            blocked := Function.update s.blocked task false
            value := s.value + 1
            upAt := s.clock }
        else
          .error .notBlocked
  else
    .error .upValue

/-- `intr_hd_handler`, for an interrupt of this channel. -/
def intrHdHandler (s : ChannelState Task) : Except IdePanic (ChannelState Task) :=
  if s.expectingIntr then
    semaUp { s with expectingIntr := false }
  else
    .ok s

/-- The statement a task is at. -/
def statement (s : ChannelState Task) (task : Task) : Except IdePanic (ChannelState Task) :=
  match s.pc task with
  | .outside => .ok s
  | .lockAcquire call =>
      if s.lock = none then
        .ok ({ s with lock := some task }.setPc task (.loop call))
      else
        .ok s
  | .loop call =>
      if call.secsDone < call.secCnt then
        .ok (s.setPc task (.cmdFlag { call with secsOp := nextSecsOp call }))
      else
        .ok (s.setPc task (.lockRelease call))
  | .cmdFlag call =>
      .ok ({ s with
        expectingIntr := true
        flagAt := Function.update s.flagAt task s.clock }.setPc task (.cmdPort call))
  | .cmdPort call =>
      .ok ({ s with cmdAt := Function.update s.cmdAt task s.clock }.setPc task
        (match call.op with
          | .read => .semaDown call
          | .write => .busyWait call))
  | .busyWait call => .ok (s.setPc task (.transfer call))
  | .transfer call =>
      .ok (s.setPc task
        (match call.op with
          | .read => .advance call
          | .write => .semaDown call))
  | .semaDown call => s.semaDown task call
  | .advance call =>
      .ok (s.setPc task
        (.loop { call with secsDone := (call.secsDone + call.secsOp) % 2 ^ 32 }))
  | .lockRelease _ =>
      if s.lock = some task then
        .ok ({ s with lock := none }.setPc task .outside)
      else
        .error .releaseNotHolder

def tick (s : ChannelState Task) : ChannelState Task := { s with clock := s.clock + 1 }

end ChannelState

inductive ChannelEvent (Task : Type) where
  | interrupt
  | call (task : Task) (op : IdeOp) (secCnt : Nat)
  | run (task : Task)

/-- A task that is not blocked may run. -/
def ChannelEnabled (s : ChannelState Task) : ChannelEvent Task → Prop
  | .interrupt => True
  | .call task _ secCnt => s.pc task = .outside ∧ 0 < secCnt
  | .run task => s.pc task ≠ .outside ∧ s.blocked task = false

def channelExec (s : ChannelState Task) : ChannelEvent Task → Except IdePanic (ChannelState Task)
  | .interrupt => (·.tick) <$> s.intrHdHandler
  | .call task op secCnt => .ok (s.setPc task (.lockAcquire ⟨op, secCnt, 0, 0⟩)).tick
  | .run task => (·.tick) <$> s.statement task

/-- The channel after `ide_init`. -/
structure ChannelInitial (s : ChannelState Task) : Prop where
  lock : s.lock = none
  expectingIntr : s.expectingIntr = false
  value : s.value = 0
  waiters : s.waiters = []
  blocked : ∀ task, s.blocked task = false
  pc : ∀ task, s.pc task = .outside
  released : s.released = []

inductive ChannelReachable : ChannelState Task → Prop where
  | start {s : ChannelState Task} (initial : ChannelInitial s) : ChannelReachable s
  | step {s t : ChannelState Task} {event : ChannelEvent Task} (reachable : ChannelReachable s)
      (enabled : ChannelEnabled s event) (eq : channelExec s event = .ok t) : ChannelReachable t

/-- The interrupt comes while a task is between the two statements of `cmd_out`. -/
def InCmdOut (s : ChannelState Task) : ChannelEvent Task → Prop
  | .interrupt => ∃ task call, s.pc task = .cmdPort call
  | .call _ _ _ | .run _ => False

/-- The states of the runs without such an interrupt. -/
inductive ChannelCalm : ChannelState Task → Prop where
  | start {s : ChannelState Task} (initial : ChannelInitial s) : ChannelCalm s
  | step {s t : ChannelState Task} {event : ChannelEvent Task} (calm : ChannelCalm s)
      (enabled : ChannelEnabled s event) (apart : ¬ InCmdOut s event)
      (eq : channelExec s event = .ok t) : ChannelCalm t

/-- The task expects an interrupt and has not finished its `sema_down` yet. -/
def IdePc.awaits : IdePc → Bool
  | .cmdPort _ | .semaDown _ => true
  | .busyWait call | .transfer call => call.op = .write
  | _ => false

/-- The command is in the register. -/
def IdePc.commanded : IdePc → Bool
  | .cmdPort _ => false
  | pc => pc.awaits

/-- The task is behind `lock_acquire`. -/
def IdePc.locked : IdePc → Bool
  | .outside | .lockAcquire _ => false
  | _ => true

end ZyOs.Device
