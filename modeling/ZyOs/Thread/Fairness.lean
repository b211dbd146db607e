import Mathlib.Algebra.Order.BigOperators.Group.Finset
import ZyOs.Lib.Simulation
import ZyOs.Thread.SchedulerInvariant

/-!
Contract: how long a ready task waits for the processor.

Owns:
- the tasks that may still run before a ready one: the one that runs, those in front of it
  on the ready list, and those that sleep, which go to the front when they are woken;
- that no event adds to them, and that each timer interrupt takes something from them;
- the bound on the timer interrupts that a ready task waits;
- the rounds of tasks that only compute.

Does not own: how long a task sleeps.
-/

namespace ZyOs.Thread.Fairness

open ZyOs.Lib

variable {s t u : State} {c x : Tid} {event : Event}

/-! ### Tasks that may run first -/

/-- `thread_unblock` takes the task. -/
def Sleeps (s : State) (x : Tid) : Prop :=
  s.status x = some .blocked ∨ s.status x = some .waiting ∨ s.status x = some .hanging

theorem Sleeps.of_status (same : t.status x = s.status x) (sleeps : Sleeps t x) : Sleeps s x := by
  unfold Sleeps at *
  rwa [same] at sleeps

theorem not_sleeps_ready (ready : s.status x = some .ready) : ¬ Sleeps s x := by
  unfold Sleeps
  rw [ready]
  decide

/-- The tasks of a list in front of `c`. -/
def inFront (c : Tid) (list : List Tid) : List Tid := list.takeWhile (fun x => decide (x ≠ c))

/-- The task may run before `c`, which is ready. -/
def Ahead (s : State) (c x : Tid) : Prop := x = s.cur ∨ x ∈ inFront c s.readyList ∨ Sleeps s x

instance : Decidable (Sleeps s x) := inferInstanceAs (Decidable (_ ∨ _))

instance : Decidable (Ahead s c x) := inferInstanceAs (Decidable (_ ∨ _))

theorem inFront_cons {list : List Tid} (ne : x ≠ c) : inFront c (x :: list) = x :: inFront c list :=
  List.takeWhile_cons_of_pos (decide_eq_true ne)

theorem inFront_append {list : List Tid} (mem : c ∈ list) (behind : List Tid) :
    inFront c (list ++ behind) = inFront c list := by
  induction list with
  | nil => cases mem
  | cons first rest inductionHypothesis =>
      by_cases isFirst : first = c
      · simp [inFront, isFirst]
      · have inRest : c ∈ rest := by
          cases mem with
          | head => exact absurd rfl isFirst
          | tail _ inRest => exact inRest
        rw [List.cons_append, inFront_cons isFirst, inFront_cons isFirst, inductionHypothesis inRest]

theorem inFront_subset {list : List Tid} (mem : x ∈ inFront c list) : x ∈ list :=
  List.takeWhile_subset _ mem

/-- No task comes in front of `c`, and none in front gets more time. -/
def Closer (c : Tid) (s t : State) : Prop := ∀ x, Ahead t c x → Ahead s c x ∧ t.ticks x ≤ s.ticks x

theorem Closer.of_same (cur : t.cur = s.cur) (readyList : t.readyList = s.readyList) (status : t.status = s.status)
    (ticks : t.ticks = s.ticks) : Closer c s t := by
  intro x ahead
  unfold Ahead Sleeps at *
  rw [cur, readyList, status] at ahead
  rw [ticks]
  exact ⟨ahead, Nat.le_refl _⟩

/-- A sleeping task goes to the front. -/
theorem Closer.unblock {pthread : Tid} (isReady : c ∈ s.readyList) (woken : threadUnblock s pthread = .ok t) :
    Closer c s t ∧ t.cur = s.cur := by
  unfold threadUnblock at woken
  split at woken
  case isFalse => cases woken
  case isTrue sleeps =>
    split at woken
    case isTrue => cases woken
    case isFalse notReady =>
      have isState := Except.ok.inj woken
      subst isState
      have ne : pthread ≠ c := fun same => notReady (same ▸ isReady)
      refine ⟨fun x ahead => ⟨?_, Nat.le_refl _⟩, rfl⟩
      by_cases isThread : x = pthread
      · exact .inr (.inr (isThread ▸ sleeps))
      · rcases ahead with isCur | front | sleeping
        · exact .inl isCur
        · rw [show (setStatus { s with readyList := pthread :: s.readyList } pthread .ready).readyList =
            pthread :: s.readyList from rfl, inFront_cons ne] at front
          exact .inr (.inl ((List.mem_cons.mp front).resolve_left isThread))
        · exact .inr (.inr (sleeping.of_status (Function.update_of_ne isThread _ _)))

/-! ### The current task gives the processor up -/

theorem scheduleNext_ready {next : Tid} {rest : List Tid} (isReady : s.readyList = next :: rest) :
    scheduleNext s = .ok { setStatus { s with readyList := rest } next .running with cur := next } := by
  simp [scheduleNext, wakeIdle, isReady, bind, Except.bind]

/-- The current task sleeps, or goes to the end of the ready list. -/
theorem Closer.leave {tail : List Tid} (next : scheduleNext u = .ok t) (nodup : s.readyList.Nodup)
    (notReady : s.cur ∉ s.readyList) (isReady : c ∈ s.readyList) (readyList : u.readyList = s.readyList ++ tail) (isTail : ∀ x ∈ tail, x = s.cur)
    (others : ∀ x, x ≠ s.cur → u.status x = s.status x ∧ u.ticks x = s.ticks x)
    (own : u.ticks s.cur = s.ticks s.cur ∨ u.status s.cur = some .ready)
    (still : c ∈ t.readyList) : Closer c s t ∧ (u.status s.cur = some .ready → ¬ Ahead t c s.cur) := by
  cases isList : s.readyList with
  | nil =>
      rw [isList] at isReady
      cases isReady
  | cons first rest =>
      rw [isList] at nodup notReady isReady readyList
      rw [scheduleNext_ready readyList] at next
      have isState := Except.ok.inj next
      subst isState
      have still : c ∈ rest ++ tail := still
      have notTail : c ∉ tail := fun mem => notReady (isTail c mem ▸ isReady)
      have inRest : c ∈ rest := (List.mem_append.mp still).resolve_right notTail
      have ne : first ≠ c := fun same => (List.nodup_cons.mp nodup).1 (same ▸ inRest)
      have notFirst : s.cur ≠ first := fun same => notReady (same ▸ List.mem_cons_self)
      have front : inFront c (rest ++ tail) = inFront c rest := inFront_append inRest tail
      have front' : inFront c s.readyList = first :: inFront c rest := by rw [isList, inFront_cons ne]
      have notAhead : u.status s.cur = some .ready →
          ¬ Ahead { setStatus { u with readyList := rest ++ tail } first .running with cur := first } c s.cur := by
        intro ready ahead
        rcases ahead with isFirst | isFront | sleeps
        · exact notFirst isFirst
        · have isFront : s.cur ∈ inFront c (rest ++ tail) := isFront
          rw [front] at isFront
          exact notReady (List.mem_cons_of_mem _ (inFront_subset isFront))
        · exact not_sleeps_ready ready (sleeps.of_status (Function.update_of_ne notFirst _ _))
      refine ⟨fun x ahead => ?_, notAhead⟩
      by_cases isCur : x = s.cur
      · subst isCur
        refine ⟨.inl rfl, ?_⟩
        rcases own with same | ready
        · exact Nat.le_of_eq same
        · exact absurd ahead (notAhead ready)
      · obtain ⟨sameStatus, sameTicks⟩ := others x isCur
        refine ⟨?_, Nat.le_of_eq sameTicks⟩
        unfold Ahead
        rw [front']
        rcases ahead with isFirst | isFront | sleeps
        · exact .inr (.inl (isFirst ▸ List.mem_cons_self))
        · have isFront : x ∈ inFront c (rest ++ tail) := isFront
          rw [front] at isFront
          exact .inr (.inl (List.mem_cons_of_mem _ isFront))
        · by_cases isFirst : x = first
          · exact .inr (.inl (isFirst ▸ List.mem_cons_self))
          · exact .inr (.inr (sleeps.of_status ((Function.update_of_ne isFirst _ _).trans sameStatus)))

theorem schedule_notRunning (intrOff : s.intr = false) (notRunning : s.status s.cur ≠ some .running) :
    schedule s = scheduleNext s := by
  simp [schedule, intrOff, notRunning]

theorem schedule_running (intrOff : s.intr = false) (running : s.status s.cur = some .running)
    (notReady : s.cur ∉ s.readyList) :
    schedule s = scheduleNext (setStatus
      { s with
        readyList := s.readyList ++ [s.cur]
        ticks := Function.update s.ticks s.cur (s.priority s.cur) } s.cur .ready) := by
  simp [schedule, intrOff, running, notReady]

/-- A task that blocks is ahead as before. -/
theorem Closer.threadBlock {stat : TaskStatus} {resume : Bool → Resume} (nodup : s.readyList.Nodup)
    (notReady : s.cur ∉ s.readyList) (isReady : c ∈ s.readyList) (blocked : threadBlock s stat resume = .ok t)
    (still : c ∈ t.readyList) : Closer c s t := by
  unfold Thread.threadBlock at blocked
  split at blocked
  case isFalse => cases blocked
  case isTrue isStat =>
    have notRunning : stat ≠ .running := by
      rintro rfl
      simp at isStat
    rw [schedule_notRunning rfl (by simpa [setResume, setStatus] using notRunning)] at blocked
    refine (Closer.leave blocked nodup notReady isReady (List.append_nil _).symm (by simp) ?_ (.inl rfl) still).1
    exact fun x ne => ⟨Function.update_of_ne ne _ _, rfl⟩

theorem Closer.threadYield (nodup : s.readyList.Nodup) (isReady : c ∈ s.readyList)
    (yielded : Thread.threadYield s = .ok t) (still : c ∈ t.readyList) : Closer c s t := by
  unfold Thread.threadYield at yielded
  split at yielded
  case isTrue => cases yielded
  case isFalse notReady =>
    rw [schedule_notRunning rfl (by simp [setResume, setStatus])] at yielded
    refine (Closer.leave yielded nodup notReady isReady rfl (fun x => List.mem_singleton.mp) ?_ (.inl rfl) still).1
    exact fun x ne => ⟨Function.update_of_ne ne _ _, rfl⟩

/-- The slice of the current task is used up. -/
theorem Closer.schedule (nodup : s.readyList.Nodup) (notReady : s.cur ∉ s.readyList) (isReady : c ∈ s.readyList)
    (intrOff : s.intr = false) (running : s.status s.cur = some .running) (scheduled : Thread.schedule s = .ok t)
    (still : c ∈ t.readyList) : Closer c s t ∧ ¬ Ahead t c s.cur := by
  rw [schedule_running intrOff running notReady] at scheduled
  have isReadyNow : (setStatus { s with
      readyList := s.readyList ++ [s.cur]
      ticks := Function.update s.ticks s.cur (s.priority s.cur) } s.cur .ready).status s.cur = some .ready :=
    Function.update_self _ _ _
  obtain ⟨closer, notAhead⟩ := Closer.leave scheduled nodup notReady isReady rfl (fun x => List.mem_singleton.mp)
    (fun x ne => ⟨Function.update_of_ne ne _ _, Function.update_of_ne ne _ _⟩) (.inr isReadyNow) still
  exact ⟨closer, notAhead isReadyNow⟩

/-! ### Every event -/

theorem Closer.semaTest {sema : SemaId} {old : Bool} (nodup : s.readyList.Nodup) (notReady : s.cur ∉ s.readyList)
    (isReady : c ∈ s.readyList) (tested : Thread.semaTest s sema old = .ok t) (still : c ∈ t.readyList) :
    Closer c s t := by
  unfold Thread.semaTest at tested
  split at tested
  case isTrue =>
    split at tested
    case isTrue => cases tested
    case isFalse => 
      exact Closer.threadBlock (s := { s with waiters := Function.update s.waiters sema (s.waiters sema ++ [s.cur]) })
        nodup notReady isReady tested still
  case isFalse =>
    split at tested
    case isTrue =>
      have isState := Except.ok.inj tested
      subst isState
      exact .of_same rfl rfl rfl rfl
    case isFalse => cases tested

theorem Closer.semaUp {sema : SemaId} (isReady : c ∈ s.readyList) (raised : Thread.semaUp s sema = .ok t) :
    Closer c s t := by
  unfold Thread.semaUp at raised
  split at raised
  case isFalse => cases raised
  case isTrue =>
    cases isWoken : wakeWaiter s sema with
    | error panic =>
        rw [isWoken] at raised
        cases raised
    | ok u =>
        rw [isWoken] at raised
        have closer : Closer c s u := by
          unfold wakeWaiter at isWoken
          split at isWoken
          · cases isWoken
            exact .of_same rfl rfl rfl rfl
          · rename_i rest _
            exact (Closer.unblock (s := { s with waiters := Function.update s.waiters sema rest }) isReady isWoken).1
        simp only [bind, Except.bind] at raised
        split at raised
        case isTrue =>
          cases raised
          exact closer
        case isFalse => cases raised

theorem Closer.ioqWait {slot : SlotId} (nodup : s.readyList.Nodup) (notReady : s.cur ∉ s.readyList)
    (isReady : c ∈ s.readyList) (waited : Thread.ioqWait s slot = .ok t) (still : c ∈ t.readyList) :
    Closer c s t := by
  unfold Thread.ioqWait at waited
  split at waited
  case isTrue => cases waited
  case isFalse =>
    split at waited
    case isTrue => cases waited
    case isFalse => 
      exact Closer.threadBlock (s := { s with waiter := Function.update s.waiter slot (some s.cur) }) nodup notReady
        isReady waited still

theorem Closer.wakeup {slot : SlotId} (isReady : c ∈ s.readyList) (woken : Thread.wakeup s slot = .ok t) :
    Closer c s t := by
  unfold Thread.wakeup at woken
  split at woken
  case h_1 => cases woken
  case h_2 thread _ =>
    cases isWoken : threadUnblock s thread with
    | error panic =>
        rw [isWoken] at woken
        cases woken
    | ok u =>
        rw [isWoken] at woken
        cases woken
        exact (Closer.unblock isReady isWoken).1

/-- A new task is behind the ready ones. -/
theorem Closer.initThread (inv : Inv s) {thread : Tid} (prio : Nat) (fresh : s.status thread = none) :
    Closer c s (Thread.initThread s thread prio) := by
  intro x ahead
  by_cases isThread : x = thread
  · subst isThread
    refine absurd ahead ?_
    rintro (isCur | isFront | sleeps)
    · have running := (inv.running s.cur).mpr rfl
      have isCur : x = s.cur := isCur
      rw [← isCur, fresh] at running
      cases running
    · have ready := ((inv.readyMem x).mp (inFront_subset isFront)).1
      rw [fresh] at ready
      cases ready
    · refine not_sleeps_ready ?_ sleeps
      exact Function.update_self _ _ _
  · have sameStatus : (Thread.initThread s thread prio).status x = s.status x := Function.update_of_ne isThread _ _
    have sameTicks : (Thread.initThread s thread prio).ticks x = s.ticks x := Function.update_of_ne isThread _ _
    refine ⟨?_, Nat.le_of_eq sameTicks⟩
    rcases ahead with isCur | isFront | sleeps
    · exact .inl isCur
    · exact .inr (.inl isFront)
    · exact .inr (.inr (sleeps.of_status sameStatus))

theorem Closer.appendReady {thread : Tid} (isReady : c ∈ s.readyList)
    (appended : Thread.appendReady s thread = .ok t) : Closer c s t := by
  unfold Thread.appendReady at appended
  split at appended
  case isTrue => cases appended
  case isFalse =>
    cases appended
    refine fun x ahead => ⟨?_, Nat.le_refl _⟩
    rcases ahead with isCur | isFront | sleeps
    · exact .inl isCur
    · have isFront : x ∈ inFront c (s.readyList ++ [thread]) := isFront
      rw [inFront_append isReady] at isFront
      exact .inr (.inl isFront)
    · exact .inr (.inr sleeps)

/-- A tick is taken from the current task, or it goes behind. -/
theorem Closer.timer (inv : Inv s) (isReady : c ∈ s.readyList) (handled : intrTimerHandler s = .ok t)
    (still : c ∈ t.readyList) : Closer c s t ∧ (Ahead t c s.cur → t.ticks s.cur + 1 ≤ s.ticks s.cur) := by
  unfold intrTimerHandler at handled
  split at handled
  case isTrue =>
    obtain ⟨closer, notAhead⟩ := Closer.schedule (s := setResume { s with intr := false } s.cur .intrExit)
      inv.readyNodup inv.curNotReady isReady rfl ((inv.running s.cur).mpr rfl) handled still
    exact ⟨closer, fun ahead => absurd ahead notAhead⟩
  case isFalse left =>
    cases handled
    have own : Function.update s.ticks s.cur (s.ticks s.cur - 1) s.cur = s.ticks s.cur - 1 := Function.update_self _ _ _
    refine ⟨fun x ahead => ⟨ahead, ?_⟩, fun _ => ?_⟩
    · by_cases isCur : x = s.cur
      · subst isCur
        exact Nat.le_trans (Nat.le_of_eq own) (Nat.sub_le _ _)
      · exact Nat.le_of_eq (Function.update_of_ne isCur _ _)
    · dsimp only
      omega

theorem Closer.resumeCur (inv : Inv s) (isReady : c ∈ s.readyList) (resumed : Thread.resumeCur s = .ok t)
    (still : c ∈ t.readyList) : Closer c s t := by
  unfold Thread.resumeCur at resumed
  split at resumed
  case h_5 => exact Closer.semaTest inv.readyNodup inv.curNotReady isReady resumed still
  all_goals
    cases resumed
    exact .of_same rfl rfl rfl rfl

/-- What an event does to the tasks in front. -/
theorem Closer.exec (inv : Inv s) (enabled : Enabled s event) (executed : exec s event = .ok t)
    (isReady : c ∈ s.readyList) (still : c ∈ t.readyList) : Closer c s t := by
  have nodup := inv.readyNodup
  have notReady := inv.curNotReady
  cases event with
  | initThread thread prio =>
      cases executed
      exact .initThread inv prio enabled.2.2.2
  | appendReady thread => exact .appendReady isReady executed
  | appendAll thread =>
      unfold Thread.exec appendAll at executed
      dsimp only at executed
      split at executed
      · cases executed
      · cases executed
        exact .of_same rfl rfl rfl rfl
  | timer => exact (Closer.timer inv isReady executed still).1
  | yield => exact .threadYield nodup isReady executed still
  | semaDown sema => exact Closer.semaTest (s := { s with intr := false }) nodup notReady isReady executed still
  | semaUp sema => exact .semaUp isReady executed
  | ioqWait slot => exact .ioqWait nodup notReady isReady executed still
  | wakeup slot => exact .wakeup isReady executed
  | idleBlock => exact .threadBlock nodup notReady isReady executed still
  | setIntr status =>
      cases executed
      exact .of_same rfl rfl rfl rfl
  | resume => exact .resumeCur inv isReady executed still

/-! ### Runs in which a task waits -/

/-- The timer interrupts that a task can still take in front of `c`. -/
def share (s : State) (c x : Tid) : Nat := if Ahead s c x then s.ticks x + 1 else 0

theorem Closer.share_le (closer : Closer c s t) (x : Tid) : share t c x ≤ share s c x := by
  unfold share
  split
  case isTrue ahead =>
    obtain ⟨ahead', fewer⟩ := closer x ahead
    rw [if_pos ahead']
    omega
  case isFalse => exact Nat.zero_le _

/-- `c` stays on the ready list. -/
def waiting (c : Tid) : Machine State Event :=
  ⟨fun s event t => Enabled s event ∧ exec s event = .ok t ∧ c ∈ t.readyList⟩

/-- A timer interrupt takes one from the tasks in front. -/
theorem share_sum_step {tasks : Finset Tid} (inv : Inv s) (isReady : c ∈ s.readyList)
    (covers : ∀ x, Ahead s c x → x ∈ tasks) (step : (waiting c).Step s event t) :
    ∑ x ∈ tasks, share t c x + (if event == .timer then 1 else 0) ≤ ∑ x ∈ tasks, share s c x := by
  obtain ⟨enabled, executed, still⟩ := step
  have closer := Closer.exec inv enabled executed isReady still
  split
  case isFalse => exact Finset.sum_le_sum fun x _ => closer.share_le x
  case isTrue isTimer =>
    obtain rfl := eq_of_beq isTimer
    refine Nat.succ_le_of_lt (Finset.sum_lt_sum (fun x _ => closer.share_le x) ⟨s.cur, covers s.cur (.inl rfl), ?_⟩)
    have paid := (Closer.timer inv isReady executed still).2
    have isAhead : Ahead s c s.cur := .inl rfl
    unfold share
    rw [if_pos isAhead]
    split
    case isTrue ahead =>
      have paid := paid ahead
      omega
    case isFalse => exact Nat.succ_pos _

/-- A ready task has the processor before it has waited for more timer interrupts than the
tasks in front have left, whatever blocks, wakes up, yields or is created meanwhile. -/
theorem ready_waits_bounded {trace : List Event} {tasks : Finset Tid} (reachable : Reachable s)
    (isReady : c ∈ s.readyList) (covers : ∀ x, Ahead s c x → x ∈ tasks) (run : (waiting c).Run s trace t) :
    trace.count .timer ≤ ∑ x ∈ tasks, (s.ticks x + 1) := by
  have isStart : Inv s ∧ c ∈ s.readyList ∧ ∀ x, Ahead s c x → x ∈ tasks := ⟨reachable.inv, isReady, covers⟩
  have keeps : ∀ {s t : State} {event : Event}, (Inv s ∧ c ∈ s.readyList ∧ ∀ x, Ahead s c x → x ∈ tasks) →
      (waiting c).Step s event t → (Inv t ∧ c ∈ t.readyList ∧ ∀ x, Ahead t c x → x ∈ tasks) ∧
        ∑ x ∈ tasks, share t c x + (if event == .timer then 1 else 0) ≤ ∑ x ∈ tasks, share s c x := by
    rintro s t event ⟨inv, isReady, covers⟩ step
    have closer := Closer.exec inv step.1 step.2.1 isReady step.2.2
    refine ⟨⟨inv.step ⟨event, step.1, step.2.1⟩, step.2.2, fun x ahead => covers x (closer x ahead).1⟩, ?_⟩
    exact share_sum_step inv isReady covers step
  obtain ⟨_, paid⟩ := run.countP_le isStart keeps
  have few : ∑ x ∈ tasks, share s c x ≤ ∑ x ∈ tasks, (s.ticks x + 1) := by
    refine Finset.sum_le_sum fun x _ => ?_
    unfold share
    split
    · exact Nat.le_refl _
    · exact Nat.zero_le _
  exact Nat.le_trans (Nat.le_add_left _ _) (Nat.le_trans paid few)

theorem ready_waits_bounded_idle :
    ∃ t, (waiting 1).Run bootState ([] ++ [.setIntr true] ++ [.timer]) t ∧
      ([] ++ [Event.setIntr true] ++ [Event.timer]).count Event.timer ≤ ∑ x ∈ {0}, (bootState.ticks x + 1) := by
  have run : (waiting 1).Run bootState ([] ++ [Event.setIntr true] ++ [Event.timer]) _ :=
    .snoc (.snoc .nil ⟨by decide, rfl, by decide⟩) ⟨by decide, rfl, by decide⟩
  refine ⟨_, run, ready_waits_bounded ⟨bootState, bootState_initial, .refl⟩ (by decide) ?_ run⟩
  rintro x (isCur | isFront | sleeps)
  · exact Finset.mem_singleton.mpr isCur
  · cases isFront
  · unfold Sleeps bootState at sleeps
    dsimp only at sleeps
    split_ifs at sleeps <;> simp at sleeps

/-! ### Tasks that only compute -/

/-- `tasks` take turns, the first one runs. -/
def turn (s : State) (tasks : List Tid) : State :=
  { s with
    status := fun x =>
      if some x = tasks.head? then some .running else if x ∈ tasks then some .ready else s.status x
    resume := fun x => if some x = tasks.head? then .none else if x ∈ tasks then .intrExit else s.resume x
    ticks := fun x => if x ∈ tasks then s.priority x else s.ticks x
    cur := tasks.headD s.cur
    readyList := tasks.tail
    intr := true }

/-- The timer interrupts of a slice, and the way back through `intr_exit` of the next task. -/
def slice (s : State) (x : Tid) : List Event := List.replicate (s.priority x + 1) .timer ++ [.resume]

/-- The scheduler. -/
def scheduler : Machine State Event := ⟨fun s event t => Enabled s event ∧ exec s event = .ok t⟩

/-- The interrupts that only count. -/
theorem scheduler_counts {n : Nat} (intr : s.intr = true) (free : s.resume s.cur = .none) (left : n ≤ s.ticks s.cur) :
    scheduler.Run s (List.replicate n .timer)
      { s with ticks := Function.update s.ticks s.cur (s.ticks s.cur - n) } := by
  induction n with
  | zero =>
      rw [Nat.sub_zero, Function.update_eq_self]
      exact .nil
  | succ n inductionHypothesis =>
      rw [List.replicate_succ']
      refine .snoc (inductionHypothesis (by omega)) ⟨⟨free, intr⟩, ?_⟩
      have more : s.ticks s.cur - n ≠ 0 := by omega
      simp [exec, intrTimerHandler, more, Nat.sub_sub]

/-- The interrupt that ends a slice. -/
theorem intrTimerHandler_spent {next : Tid} {behind : List Tid} (spent : s.ticks s.cur = 0)
    (running : s.status s.cur = some .running) (notReady : s.cur ∉ s.readyList)
    (isNext : s.readyList ++ [s.cur] = next :: behind) :
    intrTimerHandler s = .ok
      { s with
        status := Function.update (Function.update s.status s.cur (some .ready)) next (some .running)
        resume := Function.update s.resume s.cur .intrExit
        ticks := Function.update s.ticks s.cur (s.priority s.cur)
        readyList := behind
        cur := next
        intr := false } := by
  unfold intrTimerHandler
  rw [if_pos spent]
  exact (schedule_running (s := setResume { s with intr := false } s.cur .intrExit) rfl running notReady).trans
    (scheduleNext_ready isNext)

theorem resumeCur_intrExit (isExit : s.resume s.cur = .intrExit) :
    resumeCur s = .ok (setResume { s with intr := true } s.cur .none) := by
  simp [resumeCur, isExit]

/-- What the end of a slice makes of a turn. -/
theorem turn_next (s : State) {first next : Tid} {rest behind : List Tid}
    (sameTasks : ∀ x, x ∈ next :: behind ↔ x ∈ first :: rest) :
    { turn s (first :: rest) with
      status := Function.update (Function.update (turn s (first :: rest)).status first (some .ready)) next (some .running)
      resume := Function.update (Function.update (turn s (first :: rest)).resume first .intrExit) next .none
      ticks := Function.update (Function.update (turn s (first :: rest)).ticks first 0) first (s.priority first)
      readyList := behind
      cur := next } = turn s (next :: behind) := by
  unfold turn
  rw [State.mk.injEq]
  refine ⟨funext fun x => ?_, funext fun x => ?_, rfl, funext fun x => ?_, rfl, rfl, rfl, rfl, rfl, rfl, rfl, rfl, rfl⟩
  all_goals
    have same := sameTasks x
    simp only [Function.update_apply, List.head?_cons, Option.some.injEq, List.mem_cons] at same ⊢
    grind

/-- A slice of the first task; then the next one leaves through `intr_exit`. -/
theorem scheduler_slice (s : State) (first : Tid) (rest : List Tid) (nodup : (first :: rest).Nodup) :
    scheduler.Run (turn s (first :: rest)) (slice s first) (turn s (rest ++ [first])) := by
  have notRest : first ∉ rest := (List.nodup_cons.mp nodup).1
  obtain ⟨next, behind, isNext⟩ : ∃ next behind, rest ++ [first] = next :: behind :=
    List.exists_cons_of_ne_nil (by simp)
  have sameTasks : ∀ x, x ∈ next :: behind ↔ x ∈ first :: rest := by
    intro x
    rw [← isNext, List.mem_append, List.mem_singleton, List.mem_cons, or_comm]
  have nextTask : next ∈ first :: rest := (sameTasks next).mp List.mem_cons_self
  have isPriority : (turn s (first :: rest)).ticks first = s.priority first := by simp [turn]
  have counted := scheduler_counts (s := turn s (first :: rest)) (n := s.priority first) rfl (by simp [turn])
    (Nat.le_of_eq isPriority.symm)
  rw [show (turn s (first :: rest)).cur = first from rfl, isPriority, Nat.sub_self] at counted
  have expired := intrTimerHandler_spent
    (s := { turn s (first :: rest) with ticks := Function.update (turn s (first :: rest)).ticks first 0 })
    (Function.update_self _ _ _) (by simp [turn]) notRest isNext
  unfold slice
  rw [List.replicate_succ', isNext]
  refine .snoc (.snoc counted ⟨⟨by simp [turn], rfl⟩, expired⟩) ?_
  have isExit : Function.update (turn s (first :: rest)).resume first .intrExit next = .intrExit := by
    by_cases isFirst : next = first
    · rw [isFirst, Function.update_self]
    · rw [Function.update_of_ne isFirst]
      have inRest := (List.mem_cons.mp nextTask).resolve_left isFirst
      simp [turn, isFirst, inRest]
  refine ⟨fun isNone => ?_, ?_⟩
  · have isNone : Function.update (turn s (first :: rest)).resume first .intrExit next = .none := isNone
    rw [isExit] at isNone
    cases isNone
  · exact (resumeCur_intrExit isExit).trans (congrArg Except.ok (turn_next s sameTasks))

theorem scheduler_slices (s : State) (front back : List Tid) (nodup : (front ++ back).Nodup) :
    scheduler.Run (turn s (front ++ back)) (front.flatMap (slice s)) (turn s (back ++ front)) := by
  induction front generalizing back with
  | nil =>
      rw [List.nil_append, List.append_nil]
      exact .nil
  | cons first front inductionHypothesis =>
      have shifted : (front ++ back ++ [first]).Perm ([first] ++ (front ++ back)) := List.perm_append_comm
      have nodup' : (front ++ (back ++ [first])).Nodup := by
        rw [← List.append_assoc]
        exact shifted.nodup_iff.mpr nodup
      have others := inductionHypothesis (back ++ [first]) nodup'
      rw [← List.append_assoc, List.append_assoc back] at others
      exact (scheduler_slice s first (front ++ back) nodup).append others

/-- Tasks that only compute take turns: in each round each of them has the processor for
`priority + 1` timer interrupts, and the round ends where it began. -/
theorem rounds_repeat (s : State) (tasks : List Tid) (nodup : tasks.Nodup) (rounds : Nat) :
    scheduler.Run (turn s tasks) (List.replicate rounds (tasks.flatMap (slice s))).flatten (turn s tasks) := by
  induction rounds with
  | zero => exact .nil
  | succ rounds inductionHypothesis =>
      have once := scheduler_slices s tasks [] (by rwa [List.append_nil])
      rw [List.append_nil, List.nil_append] at once
      rw [List.replicate_succ, List.flatten_cons]
      exact once.append inductionHypothesis

theorem rounds_repeat_boot :
    scheduler.Run (turn bootState [0, 1]) (List.replicate 3 ([0, 1].flatMap (slice bootState))).flatten
      (turn bootState [0, 1]) :=
  rounds_repeat bootState [0, 1] (by decide) 3

end ZyOs.Thread.Fairness
