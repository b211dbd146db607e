import Mathlib.Tactic.Ring
import Mathlib.Logic.Function.Basic
import Mathlib.Logic.Relation
import Mathlib.Data.List.Nodup

/-!
Contract: the scheduler of `thread/thread.c` and the semaphores of
`thread/sync.c` as one transition system over any number of tasks.

Owns:
- the task table, the ready list, the waiters of every semaphore and the
  waiter slots of the io queues;
- `schedule`, `thread_block`, `thread_unblock`, `thread_yield`, `sema_down`,
  `sema_up`, `ioq_wait` and `wakeup`, each with its `ASSERT`s;
- the steps a processor can take: the code of the current task, interrupts
  taken in its context, and the continuation of a task that was switched in.

A stretch of code that runs with interrupts off is one step. A list of
`general_tag`s is the list of the tasks that own the tags, in order.

Does not own: page directories, the TSS and the kernel stacks that
`process_activate` and `switch_to` load.
-/

namespace ZyOs.Thread

/-- A task, named by the address of its PCB. -/
abbrev Tid := Nat

/-- A semaphore, named by its address. -/
abbrev SemaId := Nat

/-- A `struct task_struct*` cell of an io queue: `producer` or `consumer`. -/
abbrev SlotId := Nat

/-- `enum task_status`. -/
inductive TaskStatus where
  | running
  | ready
  | blocked
  | waiting
  | hanging
  | died
deriving DecidableEq, Repr

/-- The `ASSERT`s and `PANIC`s on the modelled paths. -/
inductive Panic where
  | scheduleIntr
  | scheduleInReady
  | scheduleEmpty
  | blockStatus
  | unblockStatus
  | unblockInReady
  | yieldInReady
  | startInReady
  | startInAll
  | semaDownInWaiters
  | semaDownValue
  | semaUpBefore
  | semaUpAfter
  | ioqIntr
  | ioqWaitBusy
  | wakeupNone
deriving DecidableEq, Repr

/-- Where a task goes on once `switch_to` gives it the processor. The Boolean
is the `old_status` saved in the frame that called `schedule`. -/
inductive Resume where
  | none
  | kernelThread
  | intrExit
  | threadYield (old : Bool)
  | semaDown (sema : SemaId) (old : Bool)
  | ioqWait (slot : SlotId) (old : Bool)
  | idle (old : Bool)
deriving DecidableEq, Repr

/-- Progress of a task inside `thread_start`: the new PCB is initialised and
waits for `thread_ready_list`, or for `thread_all_list`. -/
inductive Starting where
  | none
  | ready (thread : Tid)
  | all (thread : Tid)
deriving DecidableEq, Repr

/-- The state shared by all tasks. A PCB is a task once `init_thread` has set
its status. -/
structure State where
  status : Tid → Option TaskStatus
  ticks : Tid → Nat
  priority : Tid → Nat
  resume : Tid → Resume
  starting : Tid → Starting
  readyList : List Tid
  allList : List Tid
  value : SemaId → Nat
  waiters : SemaId → List Tid
  waiter : SlotId → Option Tid
  cur : Tid
  idleThread : Tid
  intr : Bool

def setStatus (s : State) (thread : Tid) (status : TaskStatus) : State :=
  { s with status := Function.update s.status thread (some status) }

def setResume (s : State) (thread : Tid) (resume : Resume) : State :=
  { s with resume := Function.update s.resume thread resume }

/-- `thread_unblock(pthread)`. The caller's interrupt status is restored. -/
def threadUnblock (s : State) (pthread : Tid) : Except Panic State :=
  if s.status pthread = some .blocked ∨ s.status pthread = some .waiting ∨
      s.status pthread = some .hanging then
    if pthread ∈ s.readyList then
      .error .unblockInReady
    else
      .ok (setStatus { s with readyList := pthread :: s.readyList } pthread .ready)
  else
    .error .unblockStatus

/-- `if (list_empty(&thread_ready_list)) thread_unblock(idle_thread)`. -/
def wakeIdle (s : State) : Except Panic State :=
  if s.readyList = [] then threadUnblock s s.idleThread else .ok s

/-- The part of `schedule` after the current task has been put back: wake the
idle task if nobody is ready, then switch to the head of the ready list. -/
def scheduleNext (s : State) : Except Panic State := do
  let s ← wakeIdle s
  match s.readyList with
  | [] => .error .scheduleEmpty
  | next :: rest =>
      .ok { setStatus { s with readyList := rest } next .running with cur := next }

/-- `schedule()`. -/
def schedule (s : State) : Except Panic State :=
  if s.intr then
    .error .scheduleIntr
  else if s.status s.cur = some .running then
    if s.cur ∈ s.readyList then
      .error .scheduleInReady
    else
      scheduleNext (setStatus
        { s with
          readyList := s.readyList ++ [s.cur]
          ticks := Function.update s.ticks s.cur (s.priority s.cur) }
        s.cur .ready)
  else
    scheduleNext s

/-- `thread_block(stat)` by the current task, which goes on at `resume` with
the interrupt status it had here. -/
def threadBlock (s : State) (stat : TaskStatus) (resume : Bool → Resume) :
    Except Panic State :=
  if stat = .blocked ∨ stat = .waiting ∨ stat = .hanging then
    schedule (setResume (setStatus { s with intr := false } s.cur stat) s.cur
      (resume s.intr))
  else
    .error .blockStatus

/-- `thread_yield()`. -/
def threadYield (s : State) : Except Panic State :=
  if s.cur ∈ s.readyList then
    .error .yieldInReady
  else
    schedule (setResume
      (setStatus { s with intr := false, readyList := s.readyList ++ [s.cur] } s.cur .ready)
      s.cur (.threadYield s.intr))

/-- The loop of `sema_down` from its test on, with interrupts off; `old` is
the status to restore at its end. A task that blocks comes back to the test. -/
def semaTest (s : State) (sema : SemaId) (old : Bool) : Except Panic State :=
  if s.value sema = 0 then
    if s.cur ∈ s.waiters sema then
      .error .semaDownInWaiters
    else
      threadBlock
        { s with
          waiters := Function.update s.waiters sema (s.waiters sema ++ [s.cur]) }
        .blocked (fun _ => .semaDown sema old)
  else if s.value sema - 1 = 0 then
    .ok (setResume
      { s with
        value := Function.update s.value sema (s.value sema - 1)
        intr := old }
      s.cur .none)
  else
    .error .semaDownValue

/-- `sema_down(psema)`. -/
def semaDown (s : State) (sema : SemaId) : Except Panic State :=
  semaTest { s with intr := false } sema s.intr

/-- The first waiter of `sema_up`, if there is one, is popped and unblocked. -/
def wakeWaiter (s : State) (sema : SemaId) : Except Panic State :=
  match s.waiters sema with
  | [] => .ok s
  | thread :: rest =>
      threadUnblock { s with waiters := Function.update s.waiters sema rest } thread

/-- `sema_up(psema)`. -/
def semaUp (s : State) (sema : SemaId) : Except Panic State :=
  if s.value sema = 0 then do
    let s ← wakeWaiter s sema
    if (s.value sema + 1) % 256 = 1 then
      .ok { s with value := Function.update s.value sema ((s.value sema + 1) % 256) }
    else
      .error .semaUpAfter
  else
    .error .semaUpBefore

/-- `ioq_wait(waiter)`, called with interrupts off as `ioq_getchar` and
`ioq_putchar` assert. -/
def ioqWait (s : State) (slot : SlotId) : Except Panic State :=
  if s.intr then
    .error .ioqIntr
  else if (s.waiter slot).isSome then
    .error .ioqWaitBusy
  else
    threadBlock { s with waiter := Function.update s.waiter slot (some s.cur) }
      .blocked (.ioqWait slot)

/-- `wakeup(waiter)`. -/
def wakeup (s : State) (slot : SlotId) : Except Panic State :=
  match s.waiter slot with
  | none => .error .wakeupNone
  | some thread => do
      let s ← threadUnblock s thread
      .ok { s with waiter := Function.update s.waiter slot none }

/-- `intr_timer_handler()`. The gate clears the interrupt flag; a task whose
time slice is used up is switched out and later leaves through `intr_exit`. -/
def intrTimerHandler (s : State) : Except Panic State :=
  if s.ticks s.cur = 0 then
    schedule (setResume { s with intr := false } s.cur .intrExit)
  else
    .ok { s with ticks := Function.update s.ticks s.cur (s.ticks s.cur - 1) }

/-- `init_thread(thread, name, prio)` inside `thread_start`. -/
def initThread (s : State) (thread : Tid) (prio : Nat) : State :=
  setResume
    (setStatus
      { s with
        ticks := Function.update s.ticks thread prio
        priority := Function.update s.priority thread prio
        starting := Function.update s.starting s.cur (.ready thread) }
      thread .ready)
    thread .kernelThread

/-- The `list_append` to `thread_ready_list` in `thread_start`. -/
def appendReady (s : State) (thread : Tid) : Except Panic State :=
  if thread ∈ s.readyList then
    .error .startInReady
  else
    .ok { s with
      readyList := s.readyList ++ [thread]
      starting := Function.update s.starting s.cur (.all thread) }

/-- The `list_append` to `thread_all_list` in `thread_start`. -/
def appendAll (s : State) (thread : Tid) : Except Panic State :=
  if thread ∈ s.allList then
    .error .startInAll
  else
    .ok { s with
      allList := s.allList ++ [thread]
      starting := Function.update s.starting s.cur .none }

/-- The rest of the primitive in which the current task was switched out. -/
def resumeCur (s : State) : Except Panic State :=
  match s.resume s.cur with
  | .none => .ok s
  | .kernelThread => .ok (setResume { s with intr := true } s.cur .none)
  | .intrExit => .ok (setResume { s with intr := true } s.cur .none)
  | .threadYield old => .ok (setResume { s with intr := old } s.cur .none)
  | .semaDown sema old => semaTest s sema old
  | .ioqWait _ old => .ok (setResume { s with intr := old } s.cur .none)
  -- `sti; hlt` after `thread_block` in the idle loop
  | .idle _ => .ok (setResume { s with intr := true } s.cur .none)

/-- What the processor does next. `semaUp` and `wakeup` are the current task's
own calls or those of an interrupt handler that runs on its stack; `setIntr`
is any other code that switches the interrupt flag. -/
inductive Event where
  | initThread (thread : Tid) (prio : Nat)
  | appendReady (thread : Tid)
  | appendAll (thread : Tid)
  | timer
  | yield
  | semaDown (sema : SemaId)
  | semaUp (sema : SemaId)
  | ioqWait (slot : SlotId)
  | wakeup (slot : SlotId)
  | idleBlock
  | setIntr (status : Bool)
  | resume
deriving DecidableEq, Repr

/-- When an event can happen. The idle task runs nothing but its loop; the
page that `get_kernel_pages` hands out is not yet a PCB. -/
def Enabled (s : State) : Event → Prop
  | .initThread thread _ =>
      s.resume s.cur = .none ∧ s.cur ≠ s.idleThread ∧ s.starting s.cur = .none ∧
        s.status thread = none
  | .appendReady thread => s.resume s.cur = .none ∧ s.starting s.cur = .ready thread
  | .appendAll thread => s.resume s.cur = .none ∧ s.starting s.cur = .all thread
  | .timer => s.resume s.cur = .none ∧ s.intr = true
  | .yield => s.resume s.cur = .none ∧ s.cur ≠ s.idleThread
  | .semaDown _ => s.resume s.cur = .none ∧ s.cur ≠ s.idleThread
  | .semaUp _ => s.resume s.cur = .none
  | .ioqWait _ => s.resume s.cur = .none ∧ s.cur ≠ s.idleThread
  | .wakeup _ => s.resume s.cur = .none
  | .idleBlock => s.resume s.cur = .none ∧ s.cur = s.idleThread
  | .setIntr _ => s.resume s.cur = .none
  | .resume => s.resume s.cur ≠ .none

instance (s : State) (event : Event) : Decidable (Enabled s event) := by
  cases event <;> unfold Enabled <;> infer_instance

/-- The effect of an event. -/
def exec (s : State) : Event → Except Panic State
  | .initThread thread prio => .ok (initThread s thread prio)
  | .appendReady thread => appendReady s thread
  | .appendAll thread => appendAll s thread
  | .timer => intrTimerHandler s
  | .yield => threadYield s
  | .semaDown sema => semaDown s sema
  | .semaUp sema => semaUp s sema
  | .ioqWait slot => ioqWait s slot
  | .wakeup slot => wakeup s slot
  | .idleBlock => threadBlock s .blocked .idle
  | .setIntr status => .ok { s with intr := status }
  | .resume => resumeCur s

/-- One step of the system. A failed `ASSERT` stops the machine. -/
def Step (s t : State) : Prop :=
  ∃ event, Enabled s event ∧ exec s event = .ok t

/-- The state that `thread_init` leaves: the main task runs, the idle task is
ready, and every semaphore carries the value `sema_init` gave it. -/
structure Initial (s : State) : Prop where
  idleNe : s.idleThread ≠ s.cur
  status : ∀ thread, s.status thread =
    if thread = s.cur then some .running
    else if thread = s.idleThread then some .ready
    else none
  resume : ∀ thread, s.resume thread =
    if thread = s.idleThread then .kernelThread else .none
  starting : ∀ thread, s.starting thread = .none
  readyList : s.readyList = [s.idleThread]
  allList : s.allList = [s.cur, s.idleThread]
  value : ∀ sema, s.value sema ≤ 1
  waiters : ∀ sema, s.waiters sema = []
  waiter : ∀ slot, s.waiter slot = none

/-- A state some run from `thread_init` reaches. -/
def Reachable (s : State) : Prop :=
  ∃ start, Initial start ∧ Relation.ReflTransGen Step start s

end ZyOs.Thread
