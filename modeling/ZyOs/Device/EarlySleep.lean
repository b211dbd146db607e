import ZyOs.Device.SleepTime

/-!
Contract: how early `mtime_sleep` returns.

Owns:
- one task that is alone: nobody else is ready, so it runs on through every interrupt;
- a run in which it sleeps and every tick comes as early as it can;
- when `mtime_sleep` takes the time that it is called with (`mtime_sleep_long_enough_iff`).
-/

namespace ZyOs.Device

open ZyOs.Thread

/-! ### One task alone -/

/-- `task` runs outside the scheduler, and nobody else is ready. -/
structure Alone (s : State) (task : Tid) : Prop where
  cur : s.cur = task
  resume : s.resume task = .none
  status : s.status task = some .running
  readyList : s.readyList = []
  intr : s.intr = true
  notIdle : task ≠ s.idleThread

section

variable {s : State} {task : Tid}

/-- A task that was switched out with interrupts on goes on with interrupts on. -/
theorem resume_eq (resume : s.resume s.cur = .intrExit ∨ s.resume s.cur = .threadYield true) :
    Enabled s .resume ∧ exec s .resume = .ok (setResume { s with intr := true } s.cur .none) := by
  unfold Enabled exec resumeCur
  rcases resume with isExit | isYield
  · rw [isExit]
    exact ⟨(fun same => nomatch same), rfl⟩
  · rw [isYield]
    exact ⟨(fun same => nomatch same), rfl⟩

/-- The only task in the ready list gets the processor back. -/
theorem scheduleNext_alone (readyList : s.readyList = [task])
    (resume : s.resume task = .intrExit ∨ s.resume task = .threadYield true) (notIdle : task ≠ s.idleThread) :
    ∃ t u, scheduleNext s = .ok t ∧ Enabled t .resume ∧ exec t .resume = .ok u ∧ Alone u task := by
  have isNext : scheduleNext s = .ok { setStatus { s with readyList := [] } task .running with cur := task } := by
    unfold scheduleNext wakeIdle
    rw [if_neg (by rw [readyList]; exact fun isNil => nomatch isNil)]
    simp only [bind, Except.bind, readyList]
  obtain ⟨enabled, isResume⟩ :=
    resume_eq (s := { setStatus { s with readyList := [] } task .running with cur := task }) resume
  exact ⟨_, _, isNext, enabled, isResume, rfl, Function.update_self .., Function.update_self .., rfl, rfl, notIdle⟩

theorem Alone.yield (alone : Alone s task) :
    ∃ t u, exec s .yield = .ok t ∧ Enabled t .resume ∧ exec t .resume = .ok u ∧ Alone u task := by
  obtain ⟨rfl, -, -, readyList, intr, notIdle⟩ := alone
  have isYield : exec s .yield = scheduleNext (setResume
      (setStatus { s with intr := false, readyList := s.readyList ++ [s.cur] } s.cur .ready)
      s.cur (.threadYield s.intr)) := by
    show threadYield s = _
    unfold threadYield schedule
    rw [if_neg (by rw [readyList]; exact List.not_mem_nil), if_neg (by exact Bool.false_ne_true), if_neg]
    rw [show State.status _ _ = some .ready from Function.update_self ..]
    exact fun same => nomatch same
  rw [isYield]
  refine scheduleNext_alone ?_ (.inr ?_) notIdle
  · show s.readyList ++ [s.cur] = [s.cur]
    rw [readyList]
    rfl
  · rw [intr]
    exact Function.update_self ..

theorem Alone.timer (alone : Alone s task) :
    ∃ t u, exec s .timer = .ok t ∧ (u = t ∨ Enabled t .resume ∧ exec t .resume = .ok u) ∧ Alone u task := by
  obtain ⟨rfl, resume, status, readyList, intr, notIdle⟩ := alone
  by_cases isOver : s.ticks s.cur = 0
  · have isSchedule : exec s .timer = scheduleNext (setStatus
        { setResume { s with intr := false } s.cur .intrExit with
          readyList := s.readyList ++ [s.cur]
          ticks := Function.update s.ticks s.cur (s.priority s.cur) } s.cur .ready) := by
      show Thread.intrTimerHandler s = _
      unfold Thread.intrTimerHandler schedule
      rw [if_pos isOver, if_neg (by exact Bool.false_ne_true), if_pos (by exact status),
        if_neg (by show s.cur ∉ s.readyList; rw [readyList]; exact List.not_mem_nil)]
      rfl
    rw [isSchedule]
    obtain ⟨t, u, isNext, enabled, isResume, alone⟩ := scheduleNext_alone (s := setStatus
        { setResume { s with intr := false } s.cur .intrExit with
          readyList := s.readyList ++ [s.cur]
          ticks := Function.update s.ticks s.cur (s.priority s.cur) } s.cur .ready)
      (by show s.readyList ++ [s.cur] = [s.cur]; rw [readyList]; rfl)
      (.inl (Function.update_self ..)) notIdle
    exact ⟨t, u, isNext, .inr ⟨enabled, isResume⟩, alone⟩
  · exact ⟨_, _, if_neg isOver, .inl rfl, rfl, resume, status, readyList, intr, notIdle⟩

end

/-! ### Ticks that come as early as they can -/

/-- The task is alone, and no interrupt waits. -/
structure Steady (s : TimerState) (task : Tid) : Prop where
  alone : Alone s.thread task
  stackMagic : s.stackMagic task = 0x19870916
  irq : s.irq = false
  count : 0 < s.count

/-- A run that takes `ticks` interrupts and `clocks` clocks. -/
structure Passed (s t : TimerState) (ticks clocks : Nat) : Prop where
  run : Relation.ReflTransGen TimerStep s t
  ticks : t.ticks = s.ticks + UInt32.ofNat ticks
  clock : t.clock = s.clock + clocks
  pit : t.pit = s.pit
  sleep : t.sleep = s.sleep

section

variable {s t u : TimerState} {task : Tid}

theorem Passed.trans {ticks clocks ticks' clocks' : Nat} (first : Passed s t ticks clocks)
    (rest : Passed t u ticks' clocks') : Passed s u (ticks + ticks') (clocks + clocks') where
  run := first.run.trans rest.run
  ticks := by rw [rest.ticks, first.ticks, UInt32.add_assoc, UInt32.ofNat_add]
  clock := by rw [rest.clock, first.clock, Nat.add_assoc]
  pit := rest.pit.trans first.pit
  sleep := rest.sleep.trans first.sleep

theorem Passed.of_step (step : TimerStep s t) (ticks : t.ticks = s.ticks) (clock : t.clock = s.clock)
    (pit : t.pit = s.pit) (sleep : t.sleep = s.sleep) : Passed s t 0 0 :=
  ⟨.single step, ticks.trans (UInt32.add_zero _).symm, clock, pit, sleep⟩

theorem divisor_pos (pit : Pit) : 0 < pit.divisor := by
  unfold Pit.divisor
  split
  · decide
  · rename_i notZero
    exact Nat.pos_of_ne_zero fun isZero => notZero (UInt16.toNat_inj.mp isZero)

/-- What the scheduler does with the current task is a step of the system. -/
theorem thread_step (event : Thread.Event) {thread : State} (enabled : Enabled s.thread event)
    (notTimer : event ≠ .timer) (isOwn : s.sleep s.thread.cur = none ∨ event.ofInterrupt = true)
    (isRun : exec s.thread event = .ok thread) (plain : s.initThread event = s) :
    TimerStep s { s with thread := thread } := by
  refine ⟨.thread event, ⟨enabled, notTimer, isOwn⟩, ?_⟩
  show (s.initThread event).onThread event = _
  rw [plain, TimerState.onThread, isRun]

theorem resume_step {thread : State} (enabled : Enabled s.thread .resume)
    (isRun : exec s.thread .resume = .ok thread) : TimerStep s { s with thread := thread } :=
  thread_step .resume enabled (fun same => nomatch same) (.inr rfl) isRun rfl

/-- Clocks before the next interrupt. -/
theorem clocks_run (s : TimerState) : ∀ clocks < s.count,
    Passed s { s with clock := s.clock + clocks, count := s.count - clocks } 0 clocks := by
  intro clocks
  induction clocks with
  | zero => exact fun _ => ⟨.refl, (UInt32.add_zero _).symm, rfl, rfl, rfl⟩
  | succ clocks inductionHypothesis =>
      intro before
      have first := inductionHypothesis (Nat.lt_of_succ_lt before)
      refine ⟨first.run.tail ⟨.clock, trivial, ?_⟩, (UInt32.add_zero _).symm, rfl, rfl, rfl⟩
      have more : ¬ s.count - clocks ≤ 1 := by omega
      exact congrArg Except.ok (if_neg more)

/-- The next interrupt comes and is taken at once. -/
theorem tick_run (steady : Steady s task) :
    ∃ t, Passed s t 1 s.count ∧ Steady t task ∧ t.count = s.pit.divisor := by
  obtain ⟨alone, stackMagic, irq, count⟩ := steady
  have isCur := alone.cur
  have clocks := clocks_run s (s.count - 1) (by omega)
  have isAsked : TimerStep { s with clock := s.clock + (s.count - 1), count := s.count - (s.count - 1) }
      { s with clock := s.clock + (s.count - 1) + 1, count := s.pit.divisor, irq := true } := by
    refine ⟨.clock, trivial, congrArg Except.ok (if_pos ?_)⟩
    show s.count - (s.count - 1) ≤ 1
    omega
  obtain ⟨thread, thread', isTimer, isResume, alone'⟩ := alone.timer
  have isTaken : TimerStep
      { s with clock := s.clock + (s.count - 1) + 1, count := s.pit.divisor, irq := true }
      { s with
        clock := s.clock + (s.count - 1) + 1
        count := s.pit.divisor
        irq := false
        ticks := s.ticks + 1
        elapsedTicks := Function.update s.elapsedTicks task (s.elapsedTicks task + 1)
        thread := thread } := by
    refine ⟨.timer, ⟨rfl, ?_, alone.intr⟩, ?_⟩
    · show s.thread.resume s.thread.cur = .none
      rw [isCur]
      exact alone.resume
    · show TimerState.intrTimerHandler _ = _
      unfold TimerState.intrTimerHandler TimerState.onThread
      dsimp only
      rw [isCur, if_pos stackMagic, isTimer]
  have isTick : Passed s { s with
      clock := s.clock + (s.count - 1) + 1
      count := s.pit.divisor
      irq := false
      ticks := s.ticks + 1
      elapsedTicks := Function.update s.elapsedTicks task (s.elapsedTicks task + 1)
      thread := thread } 1 s.count :=
    ⟨(clocks.run.tail isAsked).tail isTaken, rfl, by show s.clock + (s.count - 1) + 1 = _; omega, rfl, rfl⟩
  rcases isResume with rfl | ⟨enabled, isResume⟩
  · exact ⟨_, isTick, ⟨alone', stackMagic, rfl, divisor_pos s.pit⟩, rfl⟩
  · refine ⟨_, isTick.trans (.of_step (resume_step enabled isResume) rfl rfl rfl rfl),
      ⟨alone', stackMagic, rfl, divisor_pos s.pit⟩, rfl⟩

/-- A task that sleeps looks at `ticks`, yields, and is the next to run. -/
theorem yield_run (steady : Steady s task)
    (early : ∀ sleep, s.sleep task = some sleep → s.ticks - sleep.startTick < sleep.sleepTicks) :
    ∃ t, Passed s t 0 0 ∧ Steady t task ∧ t.count = s.count := by
  obtain ⟨alone, stackMagic, irq, count⟩ := steady
  cases sleeps : s.sleep task with
  | none => exact ⟨s, ⟨.refl, (UInt32.add_zero _).symm, rfl, rfl, rfl⟩, ⟨alone, stackMagic, irq, count⟩, rfl⟩
  | some sleep =>
      obtain ⟨thread, thread', isYield, enabled, isResume, alone'⟩ := alone.yield
      have isTest : TimerStep s { s with thread := thread } := by
        refine ⟨.ticksToSleep sleep, ?_, ?_⟩
        · unfold TimerEnabled
          rw [alone.cur]
          exact ⟨alone.resume, alone.notIdle, sleeps⟩
        · show s.ticksToSleep sleep = _
          rw [TimerState.ticksToSleep, if_pos (early sleep sleeps), TimerState.onThread, isYield]
      have both := Passed.trans (.of_step isTest rfl rfl rfl rfl)
        (.of_step (resume_step (s := { s with thread := thread }) enabled isResume) rfl rfl rfl rfl)
      exact ⟨_, both, ⟨alone', stackMagic, irq, count⟩, rfl⟩

/-- Ticks one behind the other; a task that sleeps looks at `ticks` before each. -/
theorem ticks_run (more : Nat) : ∀ {s : TimerState}, Steady s task →
    (∀ sleep, s.sleep task = some sleep → ∀ earlier ≤ more,
      s.ticks + UInt32.ofNat earlier - sleep.startTick < sleep.sleepTicks) →
    ∃ t, Passed s t (more + 1) (s.count + more * s.pit.divisor) ∧ Steady t task ∧ t.count = s.pit.divisor := by
  induction more with
  | zero =>
      intro s steady early
      obtain ⟨t, isYield, steady, count⟩ := yield_run steady fun sleep sleeps => by
        simpa using early sleep sleeps 0 (Nat.le_refl 0)
      obtain ⟨u, isTick, steady, count'⟩ := tick_run steady
      have both := isYield.trans isTick
      rw [count] at both
      rw [isYield.pit] at count'
      exact ⟨u, by simpa using both, steady, count'⟩
  | succ more inductionHypothesis =>
      intro s steady early
      obtain ⟨t, isYield, steady, count⟩ := yield_run steady fun sleep sleeps => by
        simpa using early sleep sleeps 0 (Nat.zero_le _)
      obtain ⟨u, isTick, steady, count'⟩ := tick_run steady
      have first := isYield.trans isTick
      obtain ⟨w, rest, steady, count''⟩ := inductionHypothesis steady fun sleep sleeps earlier isMore => by
        rw [first.sleep] at sleeps
        have later := early sleep sleeps (earlier + 1) (Nat.succ_le_succ isMore)
        rw [first.ticks, UInt32.add_assoc, ← UInt32.ofNat_add]
        rwa [Nat.add_comm earlier 1, ← Nat.zero_add 1] at later
      have all := first.trans rest
      rw [first.pit] at count'' all
      rw [isYield.pit] at count'
      refine ⟨w, ?_, steady, count''⟩
      rw [count, count'] at all
      convert all using 1
      · omega
      · ring

end

/-! ### The earliest return -/

/-- After `thread_init` and `timer_init`. -/
def bootTimer : TimerState where
  thread := bootState
  pit := timerInit ⟨0, 0, none, 0⟩
  count := 155
  irq := false
  clock := 0
  ticks := 0
  stackMagic _ := 0x19870916
  elapsedTicks _ := 0
  sleep _ := none

theorem bootTimer_initial : TimerInitial bootTimer where
  thread := bootState_initial
  pit := ⟨_, rfl⟩
  count := (timerInit_divisor _).symm
  ticks := rfl
  stackMagic _ _ := rfl
  elapsedTicks _ _ := rfl
  sleep _ := rfl

/-- Interrupts go on, main yields, idle blocks, and main is alone. -/
theorem bootTimer_alone : ∃ s, Passed bootTimer s 0 0 ∧ Steady s 0 ∧ s.count = 155 := by
  obtain ⟨yielded, isYield⟩ : ∃ thread, exec { bootState with intr := true } .yield = .ok thread := ⟨_, rfl⟩
  obtain ⟨idle, isIdle⟩ : ∃ thread, exec yielded .resume = .ok thread := by
    cases isYield
    exact ⟨_, rfl⟩
  obtain ⟨blocked, isBlock⟩ : ∃ thread, exec idle .idleBlock = .ok thread := by
    cases isYield
    cases isIdle
    exact ⟨_, rfl⟩
  obtain ⟨main, isBack⟩ : ∃ thread, exec blocked .resume = .ok thread := by
    cases isYield
    cases isIdle
    cases isBlock
    exact ⟨_, rfl⟩
  have intr : TimerStep bootTimer { bootTimer with thread := { bootState with intr := true } } :=
    thread_step (.setIntr true) rfl (fun same => nomatch same) (.inl rfl) rfl rfl
  have yield : TimerStep { bootTimer with thread := { bootState with intr := true } }
      { bootTimer with thread := yielded } :=
    thread_step (s := { bootTimer with thread := { bootState with intr := true } }) .yield
      ⟨rfl, by decide⟩ (fun same => nomatch same) (.inl rfl) isYield rfl
  have resume : TimerStep { bootTimer with thread := yielded } { bootTimer with thread := idle } :=
    resume_step (s := { bootTimer with thread := yielded }) (by cases isYield; decide) isIdle
  have block : TimerStep { bootTimer with thread := idle } { bootTimer with thread := blocked } :=
    thread_step (s := { bootTimer with thread := idle }) .idleBlock
      (by cases isYield; cases isIdle; decide) (fun same => nomatch same) (.inl rfl) isBlock rfl
  have back : TimerStep { bootTimer with thread := blocked } { bootTimer with thread := main } :=
    resume_step (s := { bootTimer with thread := blocked })
      (by cases isYield; cases isIdle; cases isBlock; decide) isBack
  refine ⟨{ bootTimer with thread := main }, ⟨?_, rfl, rfl, rfl, rfl⟩, ⟨?_, rfl, rfl, show 0 < 155 by decide⟩, rfl⟩
  · exact ((((Relation.ReflTransGen.single intr).tail yield).tail resume).tail block).tail back
  · cases isYield
    cases isIdle
    cases isBlock
    cases isBack
    exact ⟨rfl, rfl, rfl, rfl, rfl, by decide⟩

/-- `ticks` reaches every value while the task is awake. -/
theorem ticks_reach (startTick : UInt32) :
    ∃ s clocks, Passed bootTimer s startTick.toNat clocks ∧ Steady s 0 ∧ s.count = 155 := by
  obtain ⟨s₀, boot, steady₀, count₀⟩ := bootTimer_alone
  cases isStart : startTick.toNat with
  | zero => exact ⟨s₀, 0, boot, steady₀, count₀⟩
  | succ more =>
      obtain ⟨s, isRun, steady, count⟩ := ticks_run more steady₀ fun sleep sleeps => by
        rw [boot.sleep] at sleeps
        cases sleeps
      rw [boot.pit] at count
      have all := boot.trans isRun
      rw [Nat.zero_add] at all
      exact ⟨s, _, all, steady, count.trans (timerInit_divisor _)⟩

/-- A sleep in which every tick comes as early as it can. -/
theorem sleep_run {s : TimerState} {task : Tid} (steady : Steady s task) (isAwake : s.sleep task = none)
    {mSeconds : UInt32} (pos : 0 < mSeconds.toNat) (small : mSeconds.toNat + 9 < 2 ^ 32) :
    ∃ t sleep, Relation.ReflTransGen TimerStep s t ∧ Returns t sleep ∧ sleep.mSeconds = mSeconds ∧
      sleep.startTick = s.ticks ∧ sleep.calledAt = s.clock ∧
      t.clock = s.clock + (s.count + (mSeconds.toNat - 1) / 10 * s.pit.divisor) := by
  have isTicks := toNat_sleepTicks small
  obtain ⟨sleep, isSleep⟩ : ∃ sleep, sleep = Sleep.mk s.ticks
      ((mSeconds + milSecondsPerIntr - 1) / milSecondsPerIntr) mSeconds s.clock := ⟨_, rfl⟩
  have isCall : TimerStep s { s with sleep := Function.update s.sleep task (some sleep) } := by
    have someTicks : (mSeconds + milSecondsPerIntr - 1) / milSecondsPerIntr > 0 := by
      rw [gt_iff_lt, UInt32.lt_iff_toNat_lt, isTicks]
      show 0 < _
      omega
    refine ⟨.mtimeSleep mSeconds, ?_, ?_⟩
    · unfold TimerEnabled
      rw [steady.alone.cur]
      exact ⟨steady.alone.resume, steady.alone.notIdle, isAwake⟩
    · show s.mtimeSleep mSeconds = _
      unfold TimerState.mtimeSleep
      dsimp only
      rw [if_pos someTicks, steady.alone.cur, isSleep]
  have asleep : Steady { s with sleep := Function.update s.sleep task (some sleep) } task :=
    ⟨steady.alone, steady.stackMagic, steady.irq, steady.count⟩
  obtain ⟨t, isRun, steady', -⟩ := ticks_run ((mSeconds.toNat - 1) / 10) asleep fun other sleeps earlier le => by
    simp only [Function.update_self] at sleeps
    obtain rfl := Option.some.inj sleeps
    rw [isSleep, add_sub_cancel_left, UInt32.lt_iff_toNat_lt, isTicks, UInt32.toNat_ofNat']
    have reduced := Nat.mod_le earlier (2 ^ 32)
    omega
  refine ⟨t, sleep, isRun.run.head isCall, ⟨?_, ?_⟩, ?_, ?_, ?_, isRun.clock⟩
  · unfold TimerEnabled
    rw [steady'.alone.cur, isRun.sleep]
    exact ⟨steady'.alone.resume, steady'.alone.notIdle, Function.update_self ..⟩
  · rw [isRun.ticks, isSleep]
    dsimp only
    rw [add_sub_cancel_left, UInt32.lt_iff_toNat_lt, isTicks, UInt32.toNat_ofNat']
    have whole : ((mSeconds.toNat - 1) / 10 + 1) % 2 ^ 32 = (mSeconds.toNat - 1) / 10 + 1 :=
      Nat.mod_eq_of_lt (by omega)
    omega
  · rw [isSleep]
  · rw [isSleep]
  · rw [isSleep]

/-- The earliest return: the first tick comes one clock after the call. -/
theorem earliest_return (mSeconds : UInt32) (pos : 0 < mSeconds.toNat) (small : mSeconds.toNat + 9 < 2 ^ 32)
    (startTick : UInt32) :
    ∃ s sleep, TimerReachable s ∧ Returns s sleep ∧ sleep.mSeconds = mSeconds ∧ sleep.startTick = startTick ∧
      s.clock = sleep.calledAt + 1 + 155 * ((mSeconds.toNat - 1) / 10) := by
  obtain ⟨s, clocks, toStart, steady, count⟩ := ticks_reach startTick
  have wait := clocks_run s 154 (by omega)
  have isAwake : s.sleep 0 = none := by
    rw [toStart.sleep]
    rfl
  have isStart : s.ticks = startTick := by
    rw [toStart.ticks, UInt32.ofNat_toNat]
    exact UInt32.zero_add _
  have divisor : s.pit.divisor = 155 := by
    rw [toStart.pit]
    exact timerInit_divisor _
  have atLast : Steady { s with clock := s.clock + 154, count := s.count - 154 } 0 :=
    ⟨steady.alone, steady.stackMagic, steady.irq, by show 0 < s.count - 154; omega⟩
  obtain ⟨t, sleep, isRun, returns, isSeconds, isTick, isCalled, isClock⟩ := sleep_run atLast isAwake pos small
  refine ⟨t, sleep, ⟨bootTimer, bootTimer_initial, (toStart.run.trans wait.run).trans isRun⟩, returns, isSeconds,
    isTick.trans isStart, ?_⟩
  rw [isClock, isCalled]
  dsimp only
  rw [divisor, count]
  omega

/-! ### The time of a sleep -/

/-- At least `m_seconds - 10` milliseconds of the 8253 have passed. -/
def LongEnough (s : TimerState) (sleep : Sleep) : Prop :=
  (sleep.mSeconds.toNat - 10) * inputFrequency ≤ (s.clock - sleep.calledAt) * 1000

/-- `mtime_sleep` takes the time that it is called with exactly when that is no time at all: ten
milliseconds at most. -/
theorem mtime_sleep_long_enough_iff (mSeconds : UInt32) (pos : 0 < mSeconds.toNat)
    (small : mSeconds.toNat + 9 < 2 ^ 32) (startTick : UInt32) :
    (∀ s sleep, TimerReachable s → Returns s sleep → sleep.mSeconds = mSeconds →
        sleep.startTick = startTick → LongEnough s sleep) ↔
      mSeconds.toNat ≤ 10 := by
  unfold LongEnough
  constructor
  · intro law
    by_contra isMore
    obtain ⟨s, sleep, reachable, returns, isSeconds, isStart, isClock⟩ := earliest_return mSeconds pos small startTick
    have enough := law s sleep reachable returns isSeconds isStart
    rw [isSeconds, isClock, show inputFrequency = 1193180 from rfl] at enough
    omega
  · intro short s sleep _ _ isSeconds _
    rw [isSeconds, Nat.sub_eq_zero_of_le short, Nat.zero_mul]
    exact Nat.zero_le _

/-- `mtime_sleep(10)` waits for one tick, and that is enough. -/
theorem mtime_sleep_long_enough_ten : ∃ s sleep, TimerReachable s ∧ Returns s sleep ∧ sleep.mSeconds = 10 ∧
    sleep.startTick = 0xffffffff ∧ LongEnough s sleep := by
  obtain ⟨s, sleep, reachable, returns, isSeconds, isStart, -⟩ :=
    earliest_return 10 (by decide) (by decide) 0xffffffff
  exact ⟨s, sleep, reachable, returns, isSeconds, isStart,
    (mtime_sleep_long_enough_iff 10 (by decide) (by decide) 0xffffffff).mpr (by decide)
      s sleep reachable returns isSeconds isStart⟩

/-- `mtime_sleep(1000)` as `ticks` is about to wrap around: it returns after 15346 clocks, which are
not 13 milliseconds. -/
theorem mtime_sleep_early : ∃ s sleep, TimerReachable s ∧ Returns s sleep ∧ sleep.mSeconds = 1000 ∧
    sleep.startTick = 0xffffffff ∧ s.clock = sleep.calledAt + 15346 ∧ ¬ LongEnough s sleep := by
  obtain ⟨s, sleep, reachable, returns, isSeconds, isStart, isClock⟩ :=
    earliest_return 1000 (by decide) (by decide) 0xffffffff
  have isThousand : (1000 : UInt32).toNat = 1000 := rfl
  rw [isThousand] at isClock
  have periods : 1 + 155 * ((1000 - 1) / 10) = 15346 := by decide
  rw [Nat.add_assoc, periods] at isClock
  refine ⟨s, sleep, reachable, returns, isSeconds, isStart, isClock, ?_⟩
  unfold LongEnough inputFrequency
  rw [isSeconds, isThousand]
  omega

end ZyOs.Device
