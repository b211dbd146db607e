import ZyOs.Lib.Outcomes
import ZyOs.Userprog.TaskNames

/-!
Contract: the `ASSERT`s of a fork and the names of the tasks, over every run from
`thread_init`.

Owns:
- the invariant: a name of a process is the one given to `process_execute` with
  `_fork` behind it once for each generation;
- when a fork of a given generation passes its `ASSERT`s.
-/

namespace ZyOs.Userprog.Names

open Kernel Lib
open Thread (Tid)

/-! ### No scheduler event makes a task -/

section Scheduler

variable {s t : Thread.State} {thread : Tid}

/-- What is no task stays none. -/
def KeepsFresh (s t : Thread.State) : Prop := ∀ thread, s.status thread = none → t.status thread = none

theorem KeepsFresh.trans {u : Thread.State} (first : KeepsFresh s t) (second : KeepsFresh t u) :
    KeepsFresh s u :=
  fun thread isNone => second thread (first thread isNone)

theorem keepsFresh_setStatus (isTask : s.status thread ≠ none) (status : Thread.TaskStatus) :
    KeepsFresh s (Thread.setStatus s thread status) := by
  intro other isNone
  have ne : other ≠ thread := fun same => isTask (same ▸ isNone)
  exact (Function.update_of_ne ne _ _).trans isNone

theorem setStatus_ne_none {other : Tid} (isTask : s.status other ≠ none) {status : Thread.TaskStatus} :
    (Thread.setStatus s thread status).status other ≠ none := by
  show Function.update s.status thread (some status) other ≠ none
  by_cases same : other = thread
  · rw [same, Function.update_self]
    exact Option.some_ne_none _
  · rw [Function.update_of_ne same]
    exact isTask

/-- The tasks that the scheduler can switch to. -/
structure Runnable (s : Thread.State) : Prop where
  ready : ∀ thread ∈ s.readyList, s.status thread ≠ none
  cur : s.status s.cur ≠ none

theorem Runnable.of_inv (inv : Thread.Inv s) : Runnable s where
  ready thread mem := by
    rw [((inv.readyMem thread).mp mem).1]
    exact Option.some_ne_none _
  cur := by
    rw [(inv.running s.cur).mpr rfl]
    exact Option.some_ne_none _

theorem keepsFresh_threadUnblock (isOk : Thread.threadUnblock s thread = .ok t) :
    KeepsFresh s t ∧ (∀ other ∈ t.readyList, other ∈ s.readyList ∨ other = thread) ∧
      t.status thread ≠ none := by
  unfold Thread.threadUnblock at isOk
  split at isOk
  · rename_i isBlocked
    split at isOk
    · cases isOk
    · cases isOk
      have isTask : s.status thread ≠ none := by
        rintro isNone
        rw [isNone] at isBlocked
        rcases isBlocked with isBlocked | isBlocked | isBlocked <;> cases isBlocked
      refine ⟨keepsFresh_setStatus isTask .ready, fun other mem => (List.mem_cons.mp mem).symm, ?_⟩
      exact (Function.update_self _ _ _).trans_ne (Option.some_ne_none _)
  · cases isOk

theorem keepsFresh_scheduleNext (ready : ∀ thread ∈ s.readyList, s.status thread ≠ none)
    (isOk : Thread.scheduleNext s = .ok t) : KeepsFresh s t := by
  have isWoken : ∀ woken, Thread.wakeIdle s = .ok woken →
      KeepsFresh s woken ∧ ∀ thread ∈ woken.readyList, woken.status thread ≠ none := by
    intro woken isOk
    unfold Thread.wakeIdle at isOk
    split at isOk
    · rename_i isNil
      obtain ⟨keeps, mem, isTask⟩ := keepsFresh_threadUnblock isOk
      refine ⟨keeps, fun thread isIn => ?_⟩
      rcases mem thread isIn with isIn | rfl
      · rw [isNil] at isIn
        cases isIn
      · exact isTask
    · cases isOk
      exact ⟨fun _ isNone => isNone, ready⟩
  unfold Thread.scheduleNext at isOk
  obtain ⟨next, woken, isOk⟩ := Lib.ok_bind_iff.mp isOk
  obtain ⟨keeps, ready'⟩ := isWoken next woken
  cases isList : next.readyList with
  | nil =>
      rw [isList] at isOk
      cases isOk
  | cons head rest =>
      rw [isList] at isOk
      cases isOk
      have isTask := ready' head (isList ▸ List.mem_cons_self)
      exact keeps.trans (keepsFresh_setStatus isTask .running)

theorem keepsFresh_schedule (runnable : Runnable s) (isOk : Thread.schedule s = .ok t) : KeepsFresh s t := by
  unfold Thread.schedule at isOk
  split at isOk
  · cases isOk
  · split at isOk
    · split at isOk
      · cases isOk
      · refine fun thread isNone => keepsFresh_scheduleNext (fun other mem => ?_) isOk thread
          (keepsFresh_setStatus runnable.cur .ready thread isNone)
        have isTask : s.status other ≠ none := by
          rcases List.mem_append.mp mem with mem | mem
          · exact runnable.ready other mem
          · rw [List.mem_singleton.mp mem]
            exact runnable.cur
        exact setStatus_ne_none isTask
    · exact keepsFresh_scheduleNext runnable.ready isOk

theorem Runnable.setStatus (runnable : Runnable s) (status : Thread.TaskStatus) :
    Runnable (Thread.setStatus s s.cur status) where
  ready thread mem := setStatus_ne_none (runnable.ready thread mem)
  cur := setStatus_ne_none runnable.cur

theorem keepsFresh_threadBlock (runnable : Runnable s) {stat : Thread.TaskStatus}
    {resume : Bool → Thread.Resume} (isOk : Thread.threadBlock s stat resume = .ok t) : KeepsFresh s t := by
  unfold Thread.threadBlock at isOk
  split at isOk
  · have blocked := runnable.setStatus stat
    refine fun thread isNone => keepsFresh_schedule ?_ isOk thread ?_
    · exact ⟨blocked.ready, blocked.cur⟩
    · exact keepsFresh_setStatus runnable.cur stat thread isNone
  · cases isOk

theorem keepsFresh_threadYield (runnable : Runnable s) (isOk : Thread.threadYield s = .ok t) :
    KeepsFresh s t := by
  unfold Thread.threadYield at isOk
  split at isOk
  · cases isOk
  · refine fun thread isNone => keepsFresh_schedule ?_ isOk thread ?_
    · refine ⟨fun other mem => setStatus_ne_none ?_, setStatus_ne_none runnable.cur⟩
      rcases List.mem_append.mp mem with mem | mem
      · exact runnable.ready other mem
      · rw [List.mem_singleton.mp mem]
        exact runnable.cur
    · exact keepsFresh_setStatus runnable.cur .ready thread isNone

theorem keepsFresh_semaTest (runnable : Runnable s) {sema : Thread.SemaId} {old : Bool}
    (isOk : Thread.semaTest s sema old = .ok t) : KeepsFresh s t := by
  unfold Thread.semaTest at isOk
  split at isOk
  · split at isOk
    · cases isOk
    · exact keepsFresh_threadBlock (s := { s with
        waiters := Function.update s.waiters sema (s.waiters sema ++ [s.cur]) })
        ⟨runnable.ready, runnable.cur⟩ isOk
  · split at isOk
    · cases isOk
      exact fun _ isNone => isNone
    · cases isOk

theorem keepsFresh_semaUp {sema : Thread.SemaId} (isOk : Thread.semaUp s sema = .ok t) : KeepsFresh s t := by
  unfold Thread.semaUp at isOk
  split at isOk
  · cases woken : Thread.wakeWaiter s sema with
    | error panic =>
        rw [woken] at isOk
        cases isOk
    | ok next =>
        rw [woken] at isOk
        change (if _ then _ else _) = _ at isOk
        split at isOk
        · cases isOk
          have keeps : KeepsFresh s next := by
            unfold Thread.wakeWaiter at woken
            split at woken
            · cases woken
              exact fun _ isNone => isNone
            · exact (keepsFresh_threadUnblock woken).1
          exact keeps
        · cases isOk
  · cases isOk

theorem keepsFresh_wakeup {slot : Thread.SlotId} (isOk : Thread.wakeup s slot = .ok t) : KeepsFresh s t := by
  unfold Thread.wakeup at isOk
  cases holds : s.waiter slot with
  | none =>
      rw [holds] at isOk
      cases isOk
  | some thread =>
      rw [holds] at isOk
      dsimp only at isOk
      cases woken : Thread.threadUnblock s thread with
      | error panic =>
          rw [woken] at isOk
          cases isOk
      | ok next =>
          rw [woken] at isOk
          cases isOk
          exact (keepsFresh_threadUnblock woken).1

/-- Only `init_thread` makes a task. -/
theorem keepsFresh_exec (runnable : Runnable s) {event : Thread.Event} (plain : IsPlain event)
    (isOk : Thread.exec s event = .ok t) : KeepsFresh s t := by
  cases event with
  | initThread thread prio => exact absurd plain id
  | appendReady thread =>
      change Thread.appendReady s thread = _ at isOk
      unfold Thread.appendReady at isOk
      split at isOk
      · cases isOk
      · cases isOk
        exact fun _ isNone => isNone
  | appendAll thread =>
      change Thread.appendAll s thread = _ at isOk
      unfold Thread.appendAll at isOk
      split at isOk
      · cases isOk
      · cases isOk
        exact fun _ isNone => isNone
  | timer =>
      change Thread.intrTimerHandler s = _ at isOk
      unfold Thread.intrTimerHandler at isOk
      split at isOk
      · exact keepsFresh_schedule (s := Thread.setResume { s with intr := false } s.cur .intrExit)
          ⟨runnable.ready, runnable.cur⟩ isOk
      · cases isOk
        exact fun _ isNone => isNone
  | yield => exact keepsFresh_threadYield runnable isOk
  | semaDown sema =>
      exact keepsFresh_semaTest (s := { s with intr := false }) ⟨runnable.ready, runnable.cur⟩ isOk
  | semaUp sema => exact keepsFresh_semaUp isOk
  | ioqWait slot =>
      change Thread.ioqWait s slot = _ at isOk
      unfold Thread.ioqWait at isOk
      split at isOk
      · cases isOk
      · split at isOk
        · cases isOk
        · exact keepsFresh_threadBlock (s := { s with waiter := Function.update s.waiter slot (some s.cur) })
            ⟨runnable.ready, runnable.cur⟩ isOk
  | wakeup slot => exact keepsFresh_wakeup isOk
  | idleBlock => exact keepsFresh_threadBlock runnable isOk
  | setIntr status =>
      cases isOk
      exact fun _ isNone => isNone
  | resume =>
      change Thread.resumeCur s = _ at isOk
      unfold Thread.resumeCur at isOk
      split at isOk
      all_goals first
        | exact keepsFresh_semaTest runnable isOk
        | (cases isOk; exact fun _ isNone => isNone)

/-- A task that is fresh is on no list, and appending it keeps the invariant of the
scheduler. -/
theorem linkTask_inv (inv : Thread.Inv s) (fresh : s.status thread = none) (prio : Nat)
    {resume : Thread.Resume} (outside : resume = .kernelThread ∨ resume = .intrExit) :
    ∃ t, linkTask s thread prio resume = .ok t ∧ Thread.Inv t ∧ t.cur = s.cur ∧
      t.status = Function.update s.status thread (some .ready) ∧
      t.resume = Function.update s.resume thread resume := by
  have notReady : thread ∉ s.readyList := by
    intro mem
    have isReady := ((inv.readyMem thread).mp mem).1
    rw [fresh] at isReady
    cases isReady
  have notAll : thread ∉ s.allList := fun mem => (inv.allMem thread mem).1 fresh
  have curNe : s.cur ≠ thread := by
    intro same
    have running := (inv.running s.cur).mpr rfl
    rw [same, fresh] at running
    cases running
  refine ⟨_, (if_neg notReady).trans (if_neg notAll), ?_, rfl, rfl, rfl⟩
  obtain ⟨consistent, running, resumeIntr⟩ := inv
  cases consistent
  constructor
  · constructor <;> simp only [Thread.setStatus, Thread.setResume, Function.update_apply]
    all_goals grind
  · simp only [Thread.setStatus, Thread.setResume, Function.update_apply]
    grind
  · simpa [Thread.setStatus, Thread.setResume, Function.update_of_ne curNe] using resumeIntr

/-- The interrupt flag alone, where no primitive is being left. -/
theorem setIntr_inv (inv : Thread.Inv s) (intr : Bool) (outside : s.resume s.cur = .none ∨ intr = false) :
    Thread.Inv { s with intr := intr } := by
  obtain ⟨consistent, running, -⟩ := inv
  cases consistent
  refine ⟨by constructor <;> assumption, running, fun inside => ?_⟩
  exact outside.resolve_left inside

end Scheduler

/-! ### The names -/

/-- The name field is whole, with a text in it, and the descriptors are in range. -/
structure Held (fields : TaskStruct) : Prop where
  length : fields.name.length = taskNameLen
  text : ∃ text, HoldsText fields.name text
  fds : ∀ globalFd ∈ fields.fdTable, globalFd < maxFileOpen

/-- The name of a process of this lineage. -/
def Lineage.text (lineage : Lineage) : List UInt8 :=
  lineage.name.text ++ (List.replicate lineage.forks forkSuffix).flatten

/-- A process of this lineage. -/
structure Traced (fields : TaskStruct) (lineage : Lineage) : Prop where
  name : HoldsText fields.name lineage.text
  pgdir : fields.pgdir ≠ none

variable {fields child : TaskStruct} {lineage : Lineage}

theorem Lineage.text_length (lineage : Lineage) :
    lineage.text.length = lineage.name.text.length + 5 * lineage.forks := by
  rw [Lineage.text, List.length_append, List.length_flatten, List.map_replicate, List.sum_replicate_nat]
  show _ = _ + 5 * _
  rw [Nat.mul_comm lineage.forks]
  rfl

theorem Lineage.text_fork (lineage : Lineage) : lineage.fork.text = lineage.text ++ forkSuffix := by
  rw [Lineage.text, Lineage.text, Lineage.fork, List.replicate_succ', List.flatten_append, List.append_assoc]
  simp

/-- `init_thread` leaves a task in order, with its name. -/
theorem initThread_held {len : Nat} (name : TaskName len) (fits : len < taskNameLen) (pid : Int) :
    ∃ fields, initThread pid name.text = some fields ∧ Held fields ∧ HoldsText fields.name name.text := by
  have room : name.text.length < (List.replicate taskNameLen (0 : UInt8)).length := by
    rw [List.length_replicate]
    exact Nat.lt_of_le_of_lt name.short fits
  obtain ⟨buf, isStored, holds, length, -⟩ := HoldsText.of_storeText room name.noZero
  rw [initThread, strcpy, isStored]
  refine ⟨_, rfl, ⟨length.trans List.length_replicate, ⟨_, holds⟩, ?_⟩, holds⟩
  intro globalFd mem
  simp only [List.mem_cons, List.not_mem_nil, or_false] at mem
  unfold maxFileOpen
  omega

/-- Copying the PCB of a process passes its `ASSERT` exactly when the name is short. -/
theorem copyPcb_eq (held : Held fields) (traced : Traced fields lineage) (pid : Int) (vaddrBtmp : Nat) :
    if lineage.name.text.length + 5 * lineage.forks ≤ 10 then
      ∃ child, copyPcbVaddrbitmapStack0 pid fields (some vaddrBtmp) = .ok (some child) ∧ Held child ∧
        Traced child lineage.fork
    else copyPcbVaddrbitmapStack0 pid fields (some vaddrBtmp) = .error .nameLength := by
  have length := lineage.text_length
  have isLen := strlen_eq traced.name
  rw [← length]
  unfold copyPcbVaddrbitmapStack0
  dsimp only
  rw [isLen]
  split
  · rename_i short
    have room : lineage.text.length + forkSuffix.length < fields.name.length := by
      rw [held.length]
      show _ + 5 < 16
      omega
    obtain ⟨buf, isStored, holds, sameLength, -⟩ := traced.name.append forkSuffix room (by decide)
    dsimp only
    rw [if_pos (Nat.lt_succ_of_le short), strcat_eq traced.name, isStored]
    refine ⟨_, rfl, ⟨sameLength.trans held.length, ⟨_, holds⟩, held.fds⟩, ?_, traced.pgdir⟩
    rw [lineage.text_fork]
    exact holds
  · rename_i long
    dsimp only
    rw [if_neg (by omega)]

/-! ### One event -/

variable {s : System}

/-- The scheduler is in order; every task and every child on its way has its name and its
descriptors in order, and a process the name of its lineage. -/
structure Inv (s : System) : Prop where
  sched : Thread.Inv s.sched
  held : ∀ thread, s.sched.status thread ≠ none → Held (s.task thread)
  traced : ∀ thread lineage, s.lineage thread = some lineage → Traced (s.task thread) lineage
  fresh : ∀ parent fork, s.pending parent = some fork → s.sched.status fork.child = none
  child : ∀ parent fork, s.pending parent = some fork → Held fork.fields
  childTraced : ∀ parent fork, s.pending parent = some fork → ∀ lineage, fork.lineage = some lineage →
    Traced fork.fields lineage
  apart : ∀ first second fork other, s.pending first = some fork → s.pending second = some other →
    fork.child = other.child → first = second

/-- A fork gets to the name of the child when its pages are there, and then the name of its
lineage leaves room for the suffix below eleven characters. -/
def Fits (s : System) : Event → Prop
  | .fork pages => pages.pcb ≠ none → pages.bufPage ≠ none → pages.vaddrBtmp ≠ none →
      ∀ lineage, s.lineage s.sched.cur = some lineage →
        lineage.name.text.length + 5 * lineage.forks ≤ 10
  | _ => True

/-- No `ASSERT` of `userprog/fork.c` fails. -/
def AssertsPass (s : System) (event : Event) : Prop :=
  ∀ stop, exec s event = .error stop → stop.isAssert = false

/-- What holds of an event from a state of the invariant: only the name can fail an
`ASSERT`, and the invariant stays. -/
structure Preserved (s : System) (event : Event) : Prop where
  passes : AssertsPass s event ↔ Fits s event
  keeps : ∀ t, exec s event = .ok t → Inv t

theorem Inv.isTask_cur (inv : Inv s) : s.sched.status s.sched.cur ≠ none :=
  (Runnable.of_inv inv.sched).cur

/-- A new task with its fields. -/
theorem Inv.addTask (inv : Inv s) {thread : Tid} (fresh : Fresh s thread) {sched : Thread.State}
    (schedInv : Thread.Inv sched)
    (isStatus : sched.status = Function.update s.sched.status thread (some .ready)) (held : Held fields)
    {lineage : Option Lineage} (traced : ∀ l, lineage = some l → Traced fields l) (nextPid : Int) :
    Inv { s with
      sched := sched
      task := Function.update s.task thread fields
      lineage := Function.update s.lineage thread lineage
      nextPid := nextPid } where
  sched := schedInv
  held other isTask := by
    show Held (Function.update s.task thread fields other)
    by_cases same : other = thread
    · rw [same, Function.update_self]
      exact held
    · rw [Function.update_of_ne same]
      refine inv.held other fun isNone => isTask ?_
      show sched.status other = none
      rw [isStatus, Function.update_of_ne same, isNone]
  traced other l isLineage := by
    show Traced (Function.update s.task thread fields other) l
    change Function.update s.lineage thread lineage other = some l at isLineage
    by_cases same : other = thread
    · rw [same, Function.update_self] at isLineage ⊢
      exact traced l isLineage
    · rw [Function.update_of_ne same] at isLineage ⊢
      exact inv.traced other l isLineage
  fresh parent fork isPending := by
    show sched.status fork.child = none
    rw [isStatus, Function.update_of_ne (fresh.2 parent fork isPending)]
    exact inv.fresh parent fork isPending
  child := inv.child
  childTraced := inv.childTraced
  apart := inv.apart

/-- The descriptors of the current task change in range. -/
theorem Inv.setFdTable (inv : Inv s) {fdTable : List Int} (inRange : ∀ fd ∈ fdTable, fd < maxFileOpen)
    (fdInode : Nat → Option Nat) : Inv { setFdTable s fdTable with fdInode := fdInode } where
  sched := inv.sched
  held other isTask := by
    show Held (Function.update s.task s.sched.cur _ other)
    by_cases same : other = s.sched.cur
    · have held := inv.held other isTask
      rw [same, Function.update_self]
      rw [same] at held
      exact ⟨held.length, held.text, inRange⟩
    · rw [Function.update_of_ne same]
      exact inv.held other isTask
  traced other l isLineage := by
    show Traced (Function.update s.task s.sched.cur _ other) l
    by_cases same : other = s.sched.cur
    · have traced := inv.traced other l isLineage
      rw [same, Function.update_self]
      rw [same] at traced
      exact ⟨traced.name, traced.pgdir⟩
    · rw [Function.update_of_ne same]
      exact inv.traced other l isLineage
  fresh := inv.fresh
  child := inv.child
  childTraced := inv.childTraced
  apart := inv.apart

theorem updateInodeOpenCnts_error {fdInode : Nat → Option Nat} {fds : List Int}
    (inRange : ∀ fd ∈ fds, fd < maxFileOpen) {iOpenCnts : Nat → Nat} {stop : Stop}
    (failed : updateInodeOpenCnts fdInode fds iOpenCnts = .error stop) : stop = .nullInode := by
  induction fds generalizing iOpenCnts with
  | nil => cases failed
  | cons fd fds inductionHypothesis =>
      have rest := @inductionHypothesis fun other mem => inRange other (List.mem_cons_of_mem _ mem)
      rw [updateInodeOpenCnts, if_pos (inRange fd List.mem_cons_self)] at failed
      split at failed
      · split at failed
        · cases failed
          rfl
        · exact rest failed
      · exact rest failed

/-- `copy_process` fails only at the name, and only when the pages are there. -/
theorem copyProcess_eq (held : Held fields) (traced : Traced fields lineage) (pid : Int) (pages : ForkPages) :
    if pages.bufPage ≠ none → pages.vaddrBtmp ≠ none →
        lineage.name.text.length + 5 * lineage.forks ≤ 10 then
      copyProcess pid fields pages = .ok none ∨ ∃ child,
        copyProcess pid fields pages = .ok (some child) ∧ Held child ∧ Traced child lineage.fork
    else copyProcess pid fields pages = .error .nameLength := by
  unfold copyProcess
  cases pages.bufPage with
  | none =>
      rw [if_pos fun isBuf => absurd rfl isBuf]
      exact .inl rfl
  | some buf =>
      cases pages.vaddrBtmp with
      | none =>
          rw [if_pos fun _ isBtmp => absurd rfl isBtmp]
          exact .inl rfl
      | some btmp =>
          have isCopy := copyPcb_eq held traced pid btmp
          by_cases short : lineage.name.text.length + 5 * lineage.forks ≤ 10
          · rw [if_pos short] at isCopy
            rw [if_pos fun _ _ => short]
            obtain ⟨child, isChild, childHeld, childTraced⟩ := isCopy
            dsimp only
            rw [isChild]
            cases pages.pageDir with
            | none => exact .inl rfl
            | some pageDir =>
                exact .inr ⟨_, rfl, ⟨childHeld.length, childHeld.text, childHeld.fds⟩, childTraced.name,
                  Option.some_ne_none pageDir⟩
          · rw [if_neg short] at isCopy
            rw [if_neg fun all => short (all (Option.some_ne_none _) (Option.some_ne_none _))]
            dsimp only
            rw [isCopy]

/-- The invariant says nothing of the next pid. -/
theorem Inv.setNextPid (inv : Inv s) (nextPid : Int) : Inv { s with nextPid := nextPid } :=
  ⟨inv.sched, inv.held, inv.traced, inv.fresh, inv.child, inv.childTraced, inv.apart⟩

/-- A child on its way, with interrupts off. -/
theorem Inv.addPending (inv : Inv s) (outside : s.sched.resume s.sched.cur = .none) {fork : Pending}
    (fresh : Fresh s fork.child) (held : Held fork.fields)
    (traced : ∀ l, fork.lineage = some l → Traced fork.fields l) (nextPid : Int) :
    Inv { s with
      sched := { s.sched with intr := false }
      pending := Function.update s.pending s.sched.cur (some fork)
      nextPid := nextPid } := by
  have isPending : ∀ {parent other}, Function.update s.pending s.sched.cur (some fork) parent = some other →
      parent = s.sched.cur ∧ other = fork ∨ parent ≠ s.sched.cur ∧ s.pending parent = some other := by
    intro parent other found
    by_cases same : parent = s.sched.cur
    · rw [same, Function.update_self] at found
      exact .inl ⟨same, (Option.some.inj found).symm⟩
    · rw [Function.update_of_ne same] at found
      exact .inr ⟨same, found⟩
  refine ⟨setIntr_inv inv.sched false (.inl outside), inv.held, inv.traced, ?_, ?_, ?_, ?_⟩
  · intro parent other found
    rcases isPending found with ⟨-, rfl⟩ | ⟨-, found⟩
    · exact fresh.1
    · exact inv.fresh parent other found
  · intro parent other found
    rcases isPending found with ⟨-, rfl⟩ | ⟨-, found⟩
    · exact held
    · exact inv.child parent other found
  · intro parent other found
    rcases isPending found with ⟨-, rfl⟩ | ⟨-, found⟩
    · exact traced
    · exact inv.childTraced parent other found
  · intro first second one other foundOne foundOther same
    rcases isPending foundOne with ⟨isCur, rfl⟩ | ⟨-, isOne⟩
    · rcases isPending foundOther with ⟨isCur', -⟩ | ⟨-, isOther⟩
      · exact isCur.trans isCur'.symm
      · exact absurd same.symm (fresh.2 second other isOther)
    · rcases isPending foundOther with ⟨-, rfl⟩ | ⟨-, isOther⟩
      · exact absurd same (fresh.2 first one isOne)
      · exact inv.apart first second one other isOne isOther same

/-- The first half of a fork. -/
theorem sysFork_spec (inv : Inv s) {pages : ForkPages} (enabled : Enabled s (.fork pages)) :
    Preserved s (.fork pages) := by
  obtain ⟨outside, -, ⟨lineage, isLineage⟩, fresh⟩ := enabled
  have held := inv.held _ inv.isTask_cur
  have traced := inv.traced _ _ isLineage
  suffices whole : (AssertsPass s (.fork pages) ↔ Fits s (.fork pages)) ∧
      ∀ t, sysFork s pages = .ok t → Inv t from ⟨whole.1, whole.2⟩
  unfold AssertsPass
  show ((∀ stop, sysFork s pages = .error stop → _) ↔ (_ → _)) ∧ _
  cases isPcb : pages.pcb with
  | none =>
      have isOk : sysFork s pages = .ok s := by
        unfold sysFork
        rw [isPcb]
      rw [isOk]
      refine ⟨⟨fun _ noPcb => absurd rfl noPcb, fun _ stop failed => by cases failed⟩, fun t isOk => ?_⟩
      cases isOk
      exact inv
  | some child =>
      have isFits : (∀ l, s.lineage s.sched.cur = some l → l.name.text.length + 5 * l.forks ≤ 10) ↔
          lineage.name.text.length + 5 * lineage.forks ≤ 10 := by
        rw [isLineage]
        exact ⟨fun all => all lineage rfl, fun short l isL => by
          cases isL
          exact short⟩
      have isCopy := copyProcess_eq held traced s.allocatePid pages
      rw [isFits]
      unfold sysFork
      rw [isPcb]
      dsimp only
      rw [if_pos ⟨rfl, traced.pgdir⟩]
      split at isCopy
      · rename_i short
        refine ⟨⟨fun _ _ => short, fun _ stop failed => ?_⟩, fun t isOk => ?_⟩
        · rcases isCopy with isCopy | ⟨fields, isCopy, -⟩
          · rw [isCopy] at failed
            cases failed
          · rw [isCopy] at failed
            cases failed
        · rcases isCopy with isCopy | ⟨fields, isCopy, childHeld, childTraced⟩
          · rw [isCopy] at isOk
            cases isOk
            exact inv.setNextPid _
          · rw [isCopy] at isOk
            cases isOk
            refine inv.addPending outside (fresh child isPcb) childHeld ?_ _
            rw [isLineage]
            intro l isL
            cases isL
            exact childTraced
      · rename_i long
        rw [isCopy]
        refine ⟨⟨fun passes => ?_, fun short => absurd (short (Option.some_ne_none _)) long⟩,
          fun t isOk => by cases isOk⟩
        cases passes .nameLength rfl

/-- The second half of a fork: only a descriptor without its inode is left to fail. -/
theorem sysForkLink_spec (inv : Inv s) (outside : s.sched.resume s.sched.cur = .none) {fork : Pending}
    (isPending : s.pending s.sched.cur = some fork) :
    sysForkLink s fork = .error .nullInode ∨ ∃ t, sysForkLink s fork = .ok t ∧ Inv t := by
  have held := inv.child _ _ isPending
  have isFresh := inv.fresh _ _ isPending
  obtain ⟨sched, isLinked, schedInv, isCur, isStatus, isResume⟩ :=
    linkTask_inv inv.sched isFresh (s.sched.priority s.sched.cur) (.inr rfl)
  unfold sysForkLink
  cases counted : updateInodeOpenCnts s.fdInode (fork.fields.fdTable.drop 3) s.iOpenCnts with
  | error stop =>
      rw [updateInodeOpenCnts_error (fun fd mem => held.fds fd (List.mem_of_mem_drop mem)) counted]
      exact .inl rfl
  | ok iOpenCnts =>
      right
      dsimp only
      rw [isLinked]
      refine ⟨_, rfl, ?_⟩
      have elsewhere : ∀ {parent other}, Function.update s.pending s.sched.cur none parent = some other →
          parent ≠ s.sched.cur ∧ s.pending parent = some other := by
        intro parent other found
        by_cases same : parent = s.sched.cur
        · rw [same, Function.update_self] at found
          cases found
        · rw [Function.update_of_ne same] at found
          exact ⟨same, found⟩
      have cleared : Inv { s with
          pending := Function.update s.pending s.sched.cur none
          iOpenCnts := iOpenCnts } :=
        ⟨inv.sched, inv.held, inv.traced,
          fun parent other found => inv.fresh parent other (elsewhere found).2,
          fun parent other found => inv.child parent other (elsewhere found).2,
          fun parent other found => inv.childTraced parent other (elsewhere found).2,
          fun first second one other isOne isOther same =>
            inv.apart first second one other (elsewhere isOne).2 (elsewhere isOther).2 same⟩
      have curNe : s.sched.cur ≠ fork.child := fun same => inv.isTask_cur (same ▸ isFresh)
      have isOutside : sched.resume sched.cur = .none := by
        rw [isCur, isResume, Function.update_of_ne curNe]
        exact outside
      refine cleared.addTask ⟨isFresh, fun parent other found same => ?_⟩
        (setIntr_inv schedInv fork.intr (.inl isOutside)) isStatus held
        (inv.childTraced _ _ isPending) s.nextPid
      exact (elsewhere found).1 (inv.apart _ _ _ _ (elsewhere found).2 isPending same)

/-- An event of the scheduler leaves the tasks as they are. -/
theorem Inv.scheduled (inv : Inv s) {event : Thread.Event} (enabled : Thread.Enabled s.sched event)
    (plain : IsPlain event) {sched : Thread.State} (isOk : Thread.exec s.sched event = .ok sched) :
    Inv { s with sched := sched } := by
  have keeps := keepsFresh_exec (Runnable.of_inv inv.sched) plain isOk
  exact ⟨inv.sched.step ⟨event, enabled, isOk⟩,
    fun thread isTask => inv.held thread fun isNone => isTask (keeps thread isNone), inv.traced,
    fun parent fork isPending => keeps _ (inv.fresh parent fork isPending), inv.child, inv.childTraced,
    inv.apart⟩

theorem Preserved.of_ok {event : Event} (fits : Fits s event) {t : System} (isOk : exec s event = .ok t)
    (inv : Inv t) : Preserved s event := by
  refine ⟨⟨fun _ => fits, fun _ stop failed => ?_⟩, fun t' isOk' => ?_⟩
  · rw [isOk] at failed
    cases failed
  · rw [isOk] at isOk'
    cases isOk'
    exact inv

theorem Preserved.of_error {event : Event} (fits : Fits s event) {stop : Stop}
    (failed : exec s event = .error stop) (quiet : stop.isAssert = false) : Preserved s event := by
  refine ⟨⟨fun _ => fits, fun _ stop' failed' => ?_⟩, fun t isOk => ?_⟩
  · rw [failed] at failed'
    cases failed'
    exact quiet
  · rw [failed] at isOk
    cases isOk

/-- The only failing `ASSERT` of a fork is the one about the name, and each event keeps the
invariant. -/
theorem Inv.exec (inv : Inv s) {event : Event} (enabled : Enabled s event) : Preserved s event := by
  cases event with
  | sched event =>
      obtain ⟨enabled, plain⟩ := enabled
      cases executed : Thread.exec s.sched event with
      | error panic =>
          have isExec : Names.exec s (.sched event) = .error (.scheduler panic) := by
            rw [Names.exec, executed]
          exact .of_error trivial isExec rfl
      | ok sched =>
          have isExec : Names.exec s (.sched event) = .ok { s with sched := sched } := by
            rw [Names.exec, executed]
          exact .of_ok trivial isExec (inv.scheduled enabled plain executed)
  | threadStart thread prio name =>
      obtain ⟨⟨-, -, notStarting, isNone⟩, fresh⟩ := enabled
      obtain ⟨fields, isThread, held, -⟩ := initThread_held name (by decide) s.allocatePid
      have isExec : Names.exec s (.threadStart thread prio name) = .ok { s with
          sched := Thread.initThread s.sched thread prio
          task := Function.update s.task thread fields
          lineage := Function.update s.lineage thread none
          nextPid := s.allocatePid } := by
        rw [Names.exec, isThread]
      exact .of_ok trivial isExec (inv.addTask fresh (inv.sched.initThread prio isNone notStarting) rfl
        held (fun l isSome => by cases isSome) _)
  | processExecute thread name pageDir =>
      obtain ⟨fields, isThread, held, holds⟩ := initThread_held name (by decide) s.allocatePid
      obtain ⟨sched, isLinked, schedInv, -, isStatus, -⟩ := linkTask_inv inv.sched enabled.1 31 (.inl rfl)
      have isExec : Names.exec s (.processExecute thread name pageDir) = .ok { s with
          sched := sched
          task := Function.update s.task thread { fields with pgdir := some pageDir }
          lineage := Function.update s.lineage thread (some ⟨name, 0⟩)
          nextPid := s.allocatePid } := by
        show processExecute s thread name pageDir = _
        rw [processExecute, isThread, isLinked]
      have processHeld : Held { fields with pgdir := some pageDir } := ⟨held.length, held.text, held.fds⟩
      refine .of_ok trivial isExec (inv.addTask enabled schedInv isStatus processHeld ?_ _)
      intro l isSome
      cases isSome
      refine ⟨?_, Option.some_ne_none pageDir⟩
      rw [Lineage.text, List.replicate_zero, List.flatten_nil, List.append_nil]
      exact holds
  | openFd localFd globalFd inode =>
      refine .of_ok trivial rfl (inv.setFdTable (fun fd mem => ?_) _)
      rcases List.mem_or_eq_of_mem_set mem with mem | rfl
      · exact (inv.held _ inv.isTask_cur).fds fd mem
      · exact Int.ofNat_lt.mpr enabled.2
  | closeFd localFd =>
      refine .of_ok trivial rfl (inv.setFdTable (fun fd mem => ?_) _)
      rcases List.mem_or_eq_of_mem_set mem with mem | rfl
      · exact (inv.held _ inv.isTask_cur).fds fd mem
      · decide
  | fork pages => exact sysFork_spec inv enabled
  | forkLink =>
      obtain ⟨outside, fork, isPending⟩ := enabled
      have isExec : Names.exec s .forkLink = sysForkLink s fork := by
        rw [Names.exec, isPending]
      rcases sysForkLink_spec inv outside isPending with failed | ⟨t, isOk, linked⟩
      · exact .of_error trivial (isExec.trans failed) rfl
      · exact .of_ok trivial (isExec.trans isOk) linked

/-! ### Every run -/

theorem Initial.inv (initial : Initial s) : Inv s where
  sched := initial.sched.inv
  held thread isTask := by
    obtain ⟨pid, name, isThread⟩ := initial.task thread isTask
    obtain ⟨fields, isThread', held, -⟩ := initThread_held name (by decide) pid
    rw [isThread] at isThread'
    exact Option.some.inj isThread' ▸ held
  traced thread l isLineage := by
    rw [initial.lineage thread] at isLineage
    cases isLineage
  fresh parent fork isPending := by
    rw [initial.pending parent] at isPending
    cases isPending
  child parent fork isPending := by
    rw [initial.pending parent] at isPending
    cases isPending
  childTraced parent fork isPending := by
    rw [initial.pending parent] at isPending
    cases isPending
  apart first second fork other isPending := by
    rw [initial.pending first] at isPending
    cases isPending

/-- The name of every task is a text that ends inside the 16 bytes. -/
def NamesWhole (s : System) : Prop :=
  ∀ thread, s.sched.status thread ≠ none →
    (s.task thread).name.length = taskNameLen ∧ ∃ text, HoldsText (s.task thread).name text

/-- In every state that the events reach the names are whole, and no `ASSERT` of a fork
fails. An event that cannot happen ends the run. -/
def SafeRun (s : System) : List Event → Prop
  | [] => NamesWhole s
  | event :: events => NamesWhole s ∧
      (Enabled s event → AssertsPass s event ∧ ∀ t, exec s event = .ok t → SafeRun t events)

/-- Every fork that the events reach fits. -/
def FittingRun (s : System) : List Event → Prop
  | [] => True
  | event :: events => Enabled s event → Fits s event ∧ ∀ t, exec s event = .ok t → FittingRun t events

theorem Inv.namesWhole (inv : Inv s) : NamesWhole s :=
  fun thread isTask => ⟨(inv.held thread isTask).length, (inv.held thread isTask).text⟩

theorem Inv.run_iff (inv : Inv s) {events : List Event} : SafeRun s events ↔ FittingRun s events := by
  induction events generalizing s with
  | nil => exact ⟨fun _ => trivial, fun _ => inv.namesWhole⟩
  | cons event events inductionHypothesis =>
      constructor
      · intro safe enabled
        obtain ⟨passes, rest⟩ := safe.2 enabled
        obtain ⟨isFits, keeps⟩ := inv.exec enabled
        exact ⟨isFits.mp passes, fun t isOk => (inductionHypothesis (keeps t isOk)).mp (rest t isOk)⟩
      · refine fun fitting => ⟨inv.namesWhole, fun enabled => ?_⟩
        obtain ⟨fits, rest⟩ := fitting enabled
        obtain ⟨isFits, keeps⟩ := inv.exec enabled
        exact ⟨isFits.mpr fits, fun t isOk => (inductionHypothesis (keeps t isOk)).mpr (rest t isOk)⟩

/-- From `thread_init` on, the `ASSERT`s of every fork pass and every name stays whole
exactly as long as each fork is by a process whose own name, with the five bytes of every
generation before it, has at most ten bytes. -/
theorem fork_chain_iff (initial : Initial s) (events : List Event) : SafeRun s events ↔ FittingRun s events :=
  initial.inv.run_iff

/-! ### A chain of two forks -/

/-- `thread_init`, with `main` and `idle` as the names of the threads. -/
def bootSystem : System where
  sched := Thread.bootState
  task thread :=
    { pid := thread, parentPid := -1, elapsedTicks := 0
      name := (if thread = 0 then [109, 97, 105, 110] else [105, 100, 108, 101]) ++ List.replicate 12 0
      fdTable := [0, 1, 2, -1, -1, -1, -1, -1], pgdir := none }
  pending _ := none
  lineage _ := none
  nextPid := 1
  fdInode _ := none
  iOpenCnts _ := 0

theorem bootSystem_initial : Initial bootSystem where
  sched := Thread.bootState_initial
  task thread _ := by
    refine ⟨thread, if thread = 0 then ⟨[109, 97, 105, 110], by decide, by decide⟩
      else ⟨[105, 100, 108, 101], by decide, by decide⟩, ?_⟩
    show _ = some (TaskStruct.mk _ _ _ ((if thread = 0 then _ else _) ++ _) _ _)
    split <;> rfl
  pending _ := rfl
  lineage _ := rfl

/-- Ten letters. -/
def tenLetters : TaskName 10 := ⟨List.replicate 10 97, by decide, by decide⟩

/-- The pages of a fork that find memory. -/
def forkPages (child : Tid) : ForkPages := ⟨some child, some 100, some 101, some 102⟩

/-- A process with this name runs: main yields to the idle thread, that blocks. -/
def startProcess (name : TaskName 10) : List Event :=
  [.processExecute 2 name 50, .sched .yield, .sched .resume, .sched .idleBlock, .sched .resume]

/-- A process forks, its child runs and forks. -/
def twoForks (name : TaskName 10) : List Event :=
  startProcess name ++ [.fork (forkPages 3), .forkLink, .sched .yield, .sched .resume, .sched .yield,
    .sched .resume, .fork (forkPages 4)]

theorem fork_chain_first : SafeRun bootSystem (startProcess tenLetters ++ [.fork (forkPages 3)]) := by
  refine (fork_chain_iff bootSystem_initial _).mpr ?_
  refine fun _ => ⟨trivial, fun t isOk => ?_⟩
  cases isOk
  refine fun _ => ⟨trivial, fun t isOk => ?_⟩
  cases isOk
  refine fun _ => ⟨trivial, fun t isOk => ?_⟩
  cases isOk
  refine fun _ => ⟨trivial, fun t isOk => ?_⟩
  cases isOk
  refine fun _ => ⟨trivial, fun t isOk => ?_⟩
  cases isOk
  refine fun _ => ⟨fun _ _ _ l isLineage => ?_, fun t isOk => trivial⟩
  cases isLineage
  decide

/-- The child of a process with ten letters has fifteen: its own fork fails the `ASSERT`. -/
theorem second_fork_fails : ¬ ∀ s, Initial s → ∀ events, SafeRun s events := by
  intro safe
  have whole := safe bootSystem bootSystem_initial (twoForks tenLetters)
  have started := (whole.2 ⟨rfl, fun parent fork found => by cases found⟩).2 _ rfl
  have toIdle := (started.2 ⟨⟨rfl, by decide⟩, trivial⟩).2 _ rfl
  have inIdle := (toIdle.2 ⟨by decide, trivial⟩).2 _ rfl
  have toFirst := (inIdle.2 ⟨⟨rfl, rfl⟩, trivial⟩).2 _ rfl
  have inFirst := (toFirst.2 ⟨by decide, trivial⟩).2 _ rfl
  have forked := (inFirst.2 ⟨rfl, rfl, ⟨_, rfl⟩, ?_⟩).2 _ rfl
  have linked := (forked.2 ⟨rfl, _, rfl⟩).2 _ rfl
  have toMain := (linked.2 ⟨⟨rfl, by decide⟩, trivial⟩).2 _ rfl
  have inMain := (toMain.2 ⟨by decide, trivial⟩).2 _ rfl
  have toSecond := (inMain.2 ⟨⟨rfl, by decide⟩, trivial⟩).2 _ rfl
  have inSecond := (toSecond.2 ⟨by decide, trivial⟩).2 _ rfl
  have passes := (inSecond.2 ⟨rfl, rfl, ⟨_, rfl⟩, ?_⟩).1
  · cases passes .nameLength rfl
  · rintro child ⟨⟩
    refine ⟨rfl, fun parent fork found => ?_⟩
    change Function.update (Function.update bootSystem.pending (2 : Tid) _) (2 : Tid) none parent = _ at found
    by_cases same : parent = 2
    · rw [same, Function.update_self] at found
      cases found
    · rw [Function.update_of_ne same, Function.update_of_ne same] at found
      cases found
  · rintro child ⟨⟩
    exact ⟨rfl, fun parent fork found => by cases found⟩

end ZyOs.Userprog.Names
