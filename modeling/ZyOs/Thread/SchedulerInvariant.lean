import ZyOs.Thread.Scheduler

/-!
Contract: the invariant of the scheduler over every run.

`Consistent` relates the status of every task to the list its `general_tag` is
linked into. It holds at every point of `schedule`; `Inv` adds that exactly the
current task runs, `Parked` that nobody does, which is the moment between
`thread_block` and the choice of the next task.
-/

namespace ZyOs.Thread

/-- Status and list membership of every task agree. A task on a semaphore's
waiters is blocked inside `sema_down` of that semaphore, a task in a waiter
slot is blocked inside `ioq_wait` on that slot, and the idle task only ever
blocks in its own loop. -/
structure Consistent (s : State) : Prop where
  readyNodup : s.readyList.Nodup
  readyMem : ∀ thread, thread ∈ s.readyList ↔
    s.status thread = some .ready ∧ ∀ creator, s.starting creator ≠ .ready thread
  waitersNodup : ∀ sema, (s.waiters sema).Nodup
  waitersMem : ∀ sema thread, thread ∈ s.waiters sema ↔
    s.status thread = some .blocked ∧ ∃ old, s.resume thread = .semaDown sema old
  semaStatus : ∀ thread sema old, s.resume thread = .semaDown sema old →
    s.status thread = some .running ∨ s.status thread = some .ready ∨
      s.status thread = some .blocked
  slot : ∀ slot thread, s.waiter slot = some thread →
    s.status thread = some .blocked ∧ ∃ old, s.resume thread = .ioqWait slot old
  idleStatus : s.status s.idleThread = some .running ∨
    s.status s.idleThread = some .ready ∨ s.status s.idleThread = some .blocked
  idleResume : s.status s.idleThread = some .blocked →
    ∃ old, s.resume s.idleThread = .idle old
  idleOutside : ∀ sema old, s.resume s.idleThread ≠ .semaDown sema old
  idleStarted : ∀ creator, s.starting creator ≠ .ready s.idleThread
  value : ∀ sema, s.value sema ≤ 1
  startingReady : ∀ creator thread, s.starting creator = .ready thread →
    s.status thread = some .ready
  startingInj : ∀ first second thread, s.starting first = .ready thread →
    s.starting second = .ready thread → first = second
  startingAll : ∀ creator thread, s.starting creator = .all thread →
    s.status thread ≠ none ∧ thread ∉ s.allList ∧
      ∀ other, s.starting other ≠ .ready thread ∧
        (s.starting other = .all thread → other = creator)
  allMem : ∀ thread ∈ s.allList, s.status thread ≠ none ∧
    ∀ creator, s.starting creator ≠ .ready thread

/-- The invariant between two steps. A task that has just been switched in is
still inside the primitive it was switched out in, with interrupts off. -/
structure Inv (s : State) : Prop extends Consistent s where
  running : ∀ thread, s.status thread = some .running ↔ thread = s.cur
  resumeIntr : s.resume s.cur ≠ .none → s.intr = false

/-- The current task has given the processor up and no task has it yet. -/
structure Parked (s : State) : Prop extends Consistent s where
  noneRunning : ∀ thread, s.status thread ≠ some .running
  intrOff : s.intr = false

theorem Initial.inv {s : State} (initial : Initial s) : Inv s := by
  have status := initial.status
  have idleNe := initial.idleNe
  refine
    { readyNodup := by simp [initial.readyList]
      readyMem := ?_
      waitersNodup := by simp [initial.waiters]
      waitersMem := ?_
      semaStatus := by
        intro thread sema old
        rw [initial.resume]
        grind
      slot := by simp [initial.waiter]
      idleStatus := by simp [status, idleNe]
      idleResume := by simp [status, idleNe]
      idleOutside := by simp [initial.resume]
      idleStarted := by simp [initial.starting]
      value := initial.value
      startingReady := by simp [initial.starting]
      startingInj := by simp [initial.starting]
      startingAll := by simp [initial.starting]
      allMem := ?_
      running := ?_
      resumeIntr := by simp [initial.resume, Ne.symm idleNe] }
  · intro thread
    simp only [initial.readyList, List.mem_singleton, status, initial.starting]
    grind
  · intro sema thread
    simp only [initial.waiters, List.not_mem_nil, status, initial.resume]
    grind
  · intro thread
    simp only [initial.allList, status, initial.starting]
    grind
  · intro thread
    rw [status]
    grind

/-! ### One task changes status -/

/-- Making a blocked task ready keeps the invariant, provided the task is on no
waiters list and in no slot: the caller has already taken it off. -/
theorem Consistent.unblock {s : State} (consistent : Consistent s) {thread : Tid}
    (blocked : s.status thread = some .blocked)
    (notWaiting : ∀ sema old, s.resume thread ≠ .semaDown sema old)
    (notSlot : ∀ slot, s.waiter slot ≠ some thread) :
    Consistent (setStatus { s with readyList := thread :: s.readyList } thread .ready) := by
  cases consistent
  constructor <;> simp only [setStatus, Function.update_apply]
  all_goals grind

/-- `thread_unblock` passes both of its `ASSERT`s on a blocked task. -/
theorem threadUnblock_eq {s : State} {thread : Tid}
    (blocked : s.status thread = some .blocked)
    (readyStatus : ∀ other ∈ s.readyList, s.status other = some .ready) :
    threadUnblock s thread =
      .ok (setStatus { s with readyList := thread :: s.readyList } thread .ready) := by
  have notReady : thread ∉ s.readyList := by
    intro member
    have ready := readyStatus thread member
    rw [blocked] at ready
    cases ready
  simp [threadUnblock, blocked, notReady]

/-- Switching to the head of the ready list ends the parked moment. -/
theorem Parked.dispatch {s : State} (parked : Parked s) {next : Tid} {rest : List Tid}
    (ready : s.readyList = next :: rest) :
    Inv { setStatus { s with readyList := rest } next .running with cur := next } := by
  obtain ⟨consistent, noneRunning, intrOff⟩ := parked
  cases consistent
  constructor
  · constructor <;> simp only [setStatus, Function.update_apply]
    all_goals grind
  · simp only [setStatus, Function.update_apply]
    grind
  · exact fun _ => intrOff

/-- From a parked state `schedule` finds a task to run: if the ready list is
empty then the idle task is blocked in its loop and can be woken. -/
theorem Parked.scheduleNext {s : State} (parked : Parked s) :
    ∃ t, scheduleNext s = .ok t ∧ Inv t := by
  cases ready : s.readyList with
  | cons next rest =>
      refine ⟨_, ?_, parked.dispatch ready⟩
      simp [Thread.scheduleNext, wakeIdle, ready, bind, Except.bind]
  | nil =>
      have idleBlocked : s.status s.idleThread = some .blocked := by
        rcases parked.idleStatus with running | idleReady | blocked
        · exact absurd running (parked.noneRunning _)
        · have member := (parked.readyMem _).mpr ⟨idleReady, parked.idleStarted⟩
          simp [ready] at member
        · exact blocked
      obtain ⟨old, idleResume⟩ := parked.idleResume idleBlocked
      have woken : Parked
          (setStatus { s with readyList := s.idleThread :: s.readyList } s.idleThread .ready) := by
        refine ⟨parked.toConsistent.unblock idleBlocked ?_ ?_, ?_, parked.intrOff⟩
        · intro sema old'
          rw [idleResume]
          simp
        · intro slot holds
          obtain ⟨_, old', resume⟩ := parked.slot slot _ holds
          rw [idleResume] at resume
          cases resume
        · have noneRunning := parked.noneRunning
          simp only [setStatus, Function.update_apply]
          grind
      refine ⟨_, ?_, woken.dispatch rfl⟩
      simp only [Thread.scheduleNext, wakeIdle, ready, if_true]
      rw [threadUnblock_eq idleBlocked (by simp [ready])]
      simp [ready, setStatus, bind, Except.bind]

/-! ### The current task gives the processor up -/

theorem Inv.curNotReady {s : State} (inv : Inv s) : s.cur ∉ s.readyList := by
  intro member
  have ready := ((inv.readyMem s.cur).mp member).1
  rw [(inv.running s.cur).mpr rfl] at ready
  cases ready

/-- `schedule` called by the running task puts it at the end of the ready list. -/
theorem Inv.schedule {s : State} (inv : Inv s) (resume : Resume)
    (plain : ∀ sema old, resume ≠ .semaDown sema old) :
    ∃ t, Thread.schedule (setResume { s with intr := false } s.cur resume) = .ok t ∧ Inv t := by
  have curRunning : s.status s.cur = some .running := (inv.running s.cur).mpr rfl
  have parked : Parked (setStatus
      { setResume { s with intr := false } s.cur resume with
        readyList := s.readyList ++ [s.cur]
        ticks := Function.update s.ticks s.cur (s.priority s.cur) }
      s.cur .ready) := by
    obtain ⟨consistent, running, _⟩ := inv
    cases consistent
    constructor
    · constructor <;> simp only [setStatus, setResume, Function.update_apply]
      all_goals grind
    · simp only [setStatus, setResume, Function.update_apply]
      grind
    · rfl
  obtain ⟨t, next, tInv⟩ := parked.scheduleNext
  refine ⟨t, ?_, tInv⟩
  simpa [Thread.schedule, setResume, curRunning, inv.curNotReady] using next

/-- `thread_yield` appends the task itself, so `schedule` does not. -/
theorem Inv.threadYield {s : State} (inv : Inv s) :
    ∃ t, Thread.threadYield s = .ok t ∧ Inv t := by
  have parked : Parked (setResume
      (setStatus { s with intr := false, readyList := s.readyList ++ [s.cur] } s.cur .ready)
      s.cur (.threadYield s.intr)) := by
    have notReady := inv.curNotReady
    obtain ⟨consistent, running, _⟩ := inv
    cases consistent
    constructor
    · constructor <;> simp only [setStatus, setResume, Function.update_apply]
      all_goals grind
    · simp only [setStatus, setResume, Function.update_apply]
      grind
    · rfl
  obtain ⟨t, next, tInv⟩ := parked.scheduleNext
  refine ⟨t, ?_, tInv⟩
  simpa [Thread.threadYield, Thread.schedule, setResume, setStatus, inv.curNotReady] using next

/-- A task that blocks is parked once its tag or its slot is in place; the
prepared state `q` differs from the state of the call in waiters or slots. -/
theorem threadBlock_of_parked {q : State} (resume : Bool → Resume)
    (parked : Parked (setResume (setStatus { q with intr := false } q.cur .blocked) q.cur
      (resume q.intr))) :
    ∃ t, threadBlock q .blocked resume = .ok t ∧ Inv t := by
  obtain ⟨t, next, tInv⟩ := parked.scheduleNext
  refine ⟨t, ?_, tInv⟩
  simpa [threadBlock, Thread.schedule, setResume, setStatus] using next

/-- The test of `sema_down`: either the value is taken, or the task joins the
waiters and blocks. Neither `ASSERT` can fail. -/
theorem Inv.semaTest {s : State} (inv : Inv s) (notIdle : s.cur ≠ s.idleThread)
    (sema : SemaId) (old : Bool) :
    ∃ t, Thread.semaTest { s with intr := false } sema old = .ok t ∧ Inv t := by
  have curRunning : s.status s.cur = some .running := (inv.running s.cur).mpr rfl
  by_cases zero : s.value sema = 0
  · have notWaiting : s.cur ∉ s.waiters sema := by
      intro member
      have blocked := ((inv.waitersMem sema s.cur).mp member).1
      rw [curRunning] at blocked
      cases blocked
    obtain ⟨t, block, tInv⟩ := threadBlock_of_parked
      (q := { s with
        intr := false
        waiters := Function.update s.waiters sema (s.waiters sema ++ [s.cur]) })
      (fun _ => .semaDown sema old) (by
        obtain ⟨consistent, running, _⟩ := inv
        cases consistent
        constructor
        · constructor <;> simp only [setStatus, setResume, Function.update_apply]
          case waitersMem =>
            intro other thread
            by_cases sameTask : thread = s.cur
            · subst sameTask
              by_cases sameSema : other = sema
              · subst sameSema
                simp
              · have absent : s.cur ∉ s.waiters other := by grind
                simp [sameSema, absent, Ne.symm sameSema]
            · grind
          all_goals grind
        · simp only [setStatus, setResume, Function.update_apply]
          grind
        · rfl)
    exact ⟨t, by simpa [Thread.semaTest, zero, notWaiting] using block, tInv⟩
  · have one : s.value sema = 1 := by
      have := inv.value sema
      omega
    refine ⟨_, by simp [Thread.semaTest, one]; rfl, ?_⟩
    obtain ⟨consistent, running, _⟩ := inv
    cases consistent
    constructor
    · constructor <;> simp only [setResume, Function.update_apply]
      all_goals grind
    · exact running
    · simp [setResume]

/-- `ioq_wait` on a free slot, with interrupts off, blocks the task there. -/
theorem Inv.ioqWait {s : State} (inv : Inv s) (notIdle : s.cur ≠ s.idleThread)
    {slot : SlotId} (free : s.waiter slot = none) (intrOff : s.intr = false) :
    ∃ t, Thread.ioqWait s slot = .ok t ∧ Inv t := by
  have curRunning : s.status s.cur = some .running := (inv.running s.cur).mpr rfl
  obtain ⟨t, block, tInv⟩ := threadBlock_of_parked
    (q := { s with waiter := Function.update s.waiter slot (some s.cur) })
    (.ioqWait slot) (by
      obtain ⟨consistent, running, _⟩ := inv
      cases consistent
      constructor
      · constructor <;> simp only [setStatus, setResume, Function.update_apply]
        case slot =>
          intro other thread holds
          by_cases sameSlot : other = slot
          · rw [if_pos sameSlot] at holds
            obtain rfl := Option.some.inj holds
            simp [sameSlot]
          · grind
        all_goals grind
      · simp only [setStatus, setResume, Function.update_apply]
        grind
      · rfl)
  exact ⟨t, by simpa [Thread.ioqWait, free, intrOff] using block, tInv⟩

/-- The idle task blocks in its loop. -/
theorem Inv.idleBlock {s : State} (inv : Inv s) (isIdle : s.cur = s.idleThread) :
    ∃ t, threadBlock s .blocked .idle = .ok t ∧ Inv t := by
  have curRunning : s.status s.cur = some .running := (inv.running s.cur).mpr rfl
  apply threadBlock_of_parked
  obtain ⟨consistent, running, _⟩ := inv
  cases consistent
  constructor
  · constructor <;> simp only [setStatus, setResume, Function.update_apply]
    case idleResume => simp [isIdle]
    all_goals grind
  · simp only [setStatus, setResume, Function.update_apply]
    grind
  · rfl

/-! ### Another task is woken -/

/-- `sema_up` on a semaphore of value 0 hands the first waiter to the ready
list and leaves the value at 1. -/
theorem Inv.semaUp {s : State} (inv : Inv s) {sema : SemaId} (zero : s.value sema = 0) :
    ∃ t, Thread.semaUp s sema = .ok t ∧ Inv t := by
  cases waiting : s.waiters sema with
  | nil =>
      refine ⟨_, by
        simp [Thread.semaUp, wakeWaiter, zero, waiting, bind, Except.bind]
        rfl, ?_⟩
      obtain ⟨consistent, running, resumeIntr⟩ := inv
      cases consistent
      exact
        { readyNodup := ‹_›, readyMem := ‹_›, waitersNodup := ‹_›, waitersMem := ‹_›
          semaStatus := ‹_›, slot := ‹_›, idleStatus := ‹_›, idleResume := ‹_›, idleOutside := ‹_›, idleStarted := ‹_›
          value := by simp only [Function.update_apply]; grind
          startingReady := ‹_›, startingInj := ‹_›, startingAll := ‹_›, allMem := ‹_›
          running := running, resumeIntr := resumeIntr }
  | cons thread rest =>
      obtain ⟨blocked, old, resume⟩ :=
        (inv.waitersMem sema thread).mp (by simp [waiting])
      refine ⟨_, by
        simp only [Thread.semaUp, wakeWaiter, zero, waiting, if_true]
        rw [threadUnblock_eq (s := { s with waiters := Function.update s.waiters sema rest })
          blocked (fun other member => ((inv.readyMem other).mp member).1)]
        simp [bind, Except.bind, setStatus, zero]
        rfl, ?_⟩
      obtain ⟨consistent, running, resumeIntr⟩ := inv
      cases consistent
      constructor
      · constructor <;> simp only [Function.update_apply]
        all_goals grind
      · simp only [Function.update_apply]
        grind
      · exact resumeIntr

/-- `wakeup` on an occupied slot frees the slot and readies its task. -/
theorem Inv.wakeup {s : State} (inv : Inv s) {slot : SlotId} {thread : Tid}
    (holds : s.waiter slot = some thread) :
    ∃ t, Thread.wakeup s slot = .ok t ∧ Inv t := by
  obtain ⟨blocked, old, resume⟩ := inv.slot slot thread holds
  refine ⟨_, by
    simp only [Thread.wakeup, holds]
    rw [threadUnblock_eq blocked (fun other member => ((inv.readyMem other).mp member).1)]
    simp [bind, Except.bind, setStatus]
    rfl, ?_⟩
  obtain ⟨consistent, running, resumeIntr⟩ := inv
  cases consistent
  constructor
  · constructor <;> simp only [Function.update_apply]
    all_goals grind
  · simp only [Function.update_apply]
    grind
  · exact resumeIntr

/-! ### Task creation and the end of a primitive -/

theorem Inv.initThread {s : State} (inv : Inv s) {thread : Tid} (prio : Nat)
    (fresh : s.status thread = none) (notStarting : s.starting s.cur = .none) :
    Inv (Thread.initThread s thread prio) := by
  have curNe : s.cur ≠ thread := by
    intro equal
    have running := (inv.running s.cur).mpr rfl
    rw [equal, fresh] at running
    cases running
  obtain ⟨consistent, running, resumeIntr⟩ := inv
  cases consistent
  constructor
  · constructor <;> simp only [Thread.initThread, setStatus, setResume, Function.update_apply]
    all_goals grind
  · simp only [Thread.initThread, setStatus, setResume, Function.update_apply]
    grind
  · simpa [Thread.initThread, setStatus, setResume, Function.update_of_ne curNe] using resumeIntr

theorem Inv.appendReady {s : State} (inv : Inv s) {thread : Tid}
    (starting : s.starting s.cur = .ready thread) :
    ∃ t, Thread.appendReady s thread = .ok t ∧ Inv t := by
  have notReady : thread ∉ s.readyList := by
    intro member
    exact ((inv.readyMem thread).mp member).2 s.cur starting
  refine ⟨_, by simp [Thread.appendReady, notReady]; rfl, ?_⟩
  obtain ⟨consistent, running, resumeIntr⟩ := inv
  cases consistent
  refine ⟨?_, running, resumeIntr⟩
  constructor <;> simp only [Function.update_apply]
  all_goals grind

theorem Inv.appendAll {s : State} (inv : Inv s) {thread : Tid}
    (starting : s.starting s.cur = .all thread) :
    ∃ t, Thread.appendAll s thread = .ok t ∧ Inv t := by
  have notAll : thread ∉ s.allList := (inv.startingAll s.cur thread starting).2.1
  refine ⟨_, by simp [Thread.appendAll, notAll]; rfl, ?_⟩
  obtain ⟨consistent, running, resumeIntr⟩ := inv
  cases consistent
  refine ⟨?_, running, resumeIntr⟩
  constructor <;> simp only [Function.update_apply]
  all_goals grind

/-- Leaving a primitive changes only the interrupt flag. -/
theorem Inv.leave {s : State} (inv : Inv s) (intr : Bool) :
    Inv (setResume { s with intr := intr } s.cur .none) := by
  have curRunning : s.status s.cur = some .running := (inv.running s.cur).mpr rfl
  obtain ⟨consistent, running, _⟩ := inv
  cases consistent
  constructor
  · constructor <;> simp only [setResume, Function.update_apply]
    all_goals grind
  · exact running
  · simp [setResume]

/-- A task switched in passes the rest of the primitive it was switched out in. -/
theorem Inv.resumeCur {s : State} (inv : Inv s) (inside : s.resume s.cur ≠ .none) :
    ∃ t, Thread.resumeCur s = .ok t ∧ Inv t := by
  cases resume : s.resume s.cur with
  | none => exact absurd resume inside
  | kernelThread => exact ⟨_, by simp [Thread.resumeCur, resume], inv.leave true⟩
  | intrExit => exact ⟨_, by simp [Thread.resumeCur, resume], inv.leave true⟩
  | threadYield old => exact ⟨_, by simp [Thread.resumeCur, resume], inv.leave old⟩
  | ioqWait slot old => exact ⟨_, by simp [Thread.resumeCur, resume], inv.leave old⟩
  | idle old => exact ⟨_, by simp [Thread.resumeCur, resume], inv.leave true⟩
  | semaDown sema old =>
      have notIdle : s.cur ≠ s.idleThread := by
        intro idle
        rw [idle] at resume
        exact inv.idleOutside sema old resume
      obtain ⟨t, test, tInv⟩ := inv.semaTest notIdle sema old
      refine ⟨t, ?_, tInv⟩
      have intrOff := inv.resumeIntr inside
      simpa [Thread.resumeCur, resume, ← intrOff] using test

theorem Inv.intrTimerHandler {s : State} (inv : Inv s) :
    ∃ t, Thread.intrTimerHandler s = .ok t ∧ Inv t := by
  by_cases spent : s.ticks s.cur = 0
  · obtain ⟨t, scheduled, tInv⟩ := inv.schedule .intrExit (by simp)
    exact ⟨t, by simpa [Thread.intrTimerHandler, spent] using scheduled, tInv⟩
  · refine ⟨_, by simp [Thread.intrTimerHandler, spent]; rfl, ?_⟩
    obtain ⟨consistent, running, resumeIntr⟩ := inv
    cases consistent
    exact ⟨by constructor <;> assumption, running, resumeIntr⟩

/-! ### Every run -/

/-- The `ASSERT`s outside the scheduler that a caller can still trip. -/
def Panic.ofCaller : Panic → Bool
  | .semaUpBefore | .ioqIntr | .ioqWaitBusy | .wakeupNone => true
  | _ => false

/-- What one event does from a state of the invariant: it succeeds and keeps
the invariant, or a caller broke the rules of `sema_up`, `ioq_wait` or
`wakeup`. -/
theorem Inv.exec {s : State} (inv : Inv s) {event : Event} (enabled : Enabled s event) :
    (∃ t, exec s event = .ok t ∧ Inv t) ∨
      ∃ panic, exec s event = .error panic ∧ panic.ofCaller = true := by
  cases event with
  | initThread thread prio =>
      exact .inl ⟨_, rfl, inv.initThread prio enabled.2.2.2 enabled.2.2.1⟩
  | appendReady thread => exact .inl (inv.appendReady enabled.2)
  | appendAll thread => exact .inl (inv.appendAll enabled.2)
  | timer => exact .inl inv.intrTimerHandler
  | yield => exact .inl inv.threadYield
  | semaDown sema => exact .inl (inv.semaTest enabled.2 sema s.intr)
  | semaUp sema =>
      by_cases zero : s.value sema = 0
      · exact .inl (inv.semaUp zero)
      · exact .inr ⟨.semaUpBefore, by simp [Thread.exec, Thread.semaUp, zero], rfl⟩
  | ioqWait slot =>
      cases intr : s.intr with
      | true => exact .inr ⟨.ioqIntr, by simp [Thread.exec, Thread.ioqWait, intr], rfl⟩
      | false =>
          cases holds : s.waiter slot with
          | none => exact .inl (inv.ioqWait enabled.2 holds intr)
          | some thread =>
              exact .inr ⟨.ioqWaitBusy, by simp [Thread.exec, Thread.ioqWait, intr, holds], rfl⟩
  | wakeup slot =>
      cases holds : s.waiter slot with
      | none => exact .inr ⟨.wakeupNone, by simp [Thread.exec, Thread.wakeup, holds], rfl⟩
      | some thread => exact .inl (inv.wakeup holds)
  | idleBlock => exact .inl (inv.idleBlock enabled.2)
  | setIntr status =>
      refine .inl ⟨_, rfl, ?_⟩
      obtain ⟨consistent, running, _⟩ := inv
      cases consistent
      exact ⟨by constructor <;> assumption, running, fun inside => absurd enabled inside⟩
  | resume => exact .inl (inv.resumeCur enabled)

theorem Inv.step {s t : State} (inv : Inv s) (step : Step s t) : Inv t := by
  obtain ⟨event, enabled, executed⟩ := step
  rcases inv.exec enabled with ⟨t', ok, tInv⟩ | ⟨panic, failed, _⟩
  · rw [executed] at ok
    exact Except.ok.inj ok ▸ tInv
  · rw [executed] at failed
    cases failed

theorem Reachable.inv {s : State} (reachable : Reachable s) : Inv s := by
  obtain ⟨start, initial, run⟩ := reachable
  induction run with
  | refl => exact initial.inv
  | tail _ step inductionHypothesis => exact inductionHypothesis.step step

/-- In every reachable state exactly the current task runs, the ready list
holds every started ready task once and nothing else, no `general_tag` is on
two lists, and no event can fail an `ASSERT` of `schedule`, `thread_unblock`,
`thread_yield` or `sema_down`. -/
theorem scheduler_safe {s : State} (reachable : Reachable s) :
    (∀ thread, s.status thread = some .running ↔ thread = s.cur) ∧
    s.readyList.Nodup ∧
    (∀ thread, thread ∈ s.readyList ↔
      s.status thread = some .ready ∧ ∀ creator, s.starting creator ≠ .ready thread) ∧
    (∀ sema, (s.waiters sema).Nodup) ∧
    (∀ sema, ∀ thread ∈ s.waiters sema, thread ∉ s.readyList) ∧
    (∀ first second thread, thread ∈ s.waiters first → thread ∈ s.waiters second →
      first = second) ∧
    ∀ event panic, Enabled s event → exec s event = .error panic →
      panic ∉ [Panic.scheduleIntr, .scheduleInReady, .scheduleEmpty, .unblockStatus,
        .unblockInReady, .yieldInReady, .semaDownInWaiters, .semaDownValue] := by
  have inv := reachable.inv
  refine ⟨inv.running, inv.readyNodup, inv.readyMem, inv.waitersNodup, ?_, ?_, ?_⟩
  · intro sema thread waiting ready
    have blocked := ((inv.waitersMem sema thread).mp waiting).1
    have isReady := ((inv.readyMem thread).mp ready).1
    rw [blocked] at isReady
    cases isReady
  · intro first second thread inFirst inSecond
    obtain ⟨_, old, resume⟩ := (inv.waitersMem first thread).mp inFirst
    obtain ⟨_, old', resume'⟩ := (inv.waitersMem second thread).mp inSecond
    rw [resume] at resume'
    cases resume'
    rfl
  · intro event panic enabled failed
    rcases inv.exec enabled with ⟨t, ok, _⟩ | ⟨panic', failed', ofCaller⟩
    · rw [failed] at ok
      cases ok
    · rw [failed] at failed'
      obtain rfl := Except.error.inj failed'
      intro member
      revert ofCaller
      revert member
      cases panic <;> decide

/-- The machine right after `thread_init`: task 0 is main, task 1 is idle, and
every semaphore is free. -/
def bootState : State where
  status thread := if thread = 0 then some .running else if thread = 1 then some .ready else none
  ticks _ := 31
  priority _ := 31
  resume thread := if thread = 1 then .kernelThread else .none
  starting _ := .none
  readyList := [1]
  allList := [0, 1]
  value _ := 1
  waiters _ := []
  waiter _ := none
  cur := 0
  idleThread := 1
  intr := false

theorem bootState_initial : Initial bootState := by
  constructor
  case status => exact fun thread => rfl
  case resume => exact fun thread => rfl
  all_goals simp [bootState]

/-- The events of a list, each where it can happen. -/
def events : List Event → State → Option State
  | [], s => some s
  | event :: rest, s =>
      if Enabled s event then
        match exec s event with
        | .ok t => events rest t
        | .error _ => none
      else
        none

theorem events_run (list : List Event) {s t : State} (isRun : events list s = some t) :
    Relation.ReflTransGen Step s t := by
  induction list generalizing s with
  | nil =>
      cases isRun
      exact .refl
  | cons event rest inductionHypothesis =>
      unfold events at isRun
      split at isRun
      · rename_i enabled
        cases result : exec s event with
        | ok next =>
            rw [result] at isRun
            exact .head ⟨event, enabled, result⟩ (inductionHypothesis isRun)
        | error panic =>
            rw [result] at isRun
            cases isRun
      · cases isRun

/-- Main starts task 2, takes semaphore 5 and yields; idle blocks itself, and task 2 waits for
the semaphore. -/
def waitsForMain : List Event :=
  [.initThread 2 31, .appendReady 2, .appendAll 2, .semaDown 5, .yield, .resume, .idleBlock, .resume,
    .semaDown 5, .resume]

theorem waitsForMain_state : ((events waitsForMain bootState).map fun s =>
    (s.cur, s.status 1, s.status 2, s.waiters 5)) = some (0, some .blocked, some .blocked, [2]) := by
  decide +kernel

/-- Main is back, and the two others are blocked. -/
theorem scheduler_safe_after_block :
    ∃ s, Reachable s ∧ s.cur = 0 ∧ s.status 1 = some .blocked ∧ s.status 2 = some .blocked ∧
      s.waiters 5 = [2] ∧ (∀ thread, s.status thread = some .running ↔ thread = 0) := by
  obtain ⟨s, isRun, isState⟩ := Option.map_eq_some_iff.mp waitsForMain_state
  simp only [Prod.mk.injEq] at isState
  obtain ⟨isMain, idle, blocked, waiters⟩ := isState
  have reachable : Reachable s := ⟨bootState, bootState_initial, events_run waitsForMain isRun⟩
  refine ⟨s, reachable, isMain, idle, blocked, waiters, fun thread => ?_⟩
  rw [← isMain]
  exact (scheduler_safe reachable).1 thread

end ZyOs.Thread
