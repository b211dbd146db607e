import ZyOs.Lib.Outcomes
import ZyOs.Thread.Lock

/-!
Contract: mutual exclusion and no lost wake-up for one lock, over every
interleaving in which no task nests `2 ^ 32` calls.

The invariant `LockInv` follows the semaphore's value: it is 0 exactly while
one task is inside the lock, and that task's program counter fixes `holder` and
`holder_repeat_nr`. The scheduler's own invariant is kept beside it, so the
scheduler's `ASSERT`s come for free.
-/

namespace ZyOs.Thread

/-! ### What scheduler events leave alone -/

theorem threadUnblock_frame {s t : State} {thread : Tid} (ok : threadUnblock s thread = .ok t) :
    t.value = s.value ∧ t.waiters = s.waiters ∧ t.resume = s.resume ∧
      t.idleThread = s.idleThread := by
  unfold threadUnblock at ok
  split at ok
  · split at ok
    · cases ok
    · cases ok
      exact ⟨rfl, rfl, rfl, rfl⟩
  · cases ok

theorem scheduleNext_frame {s t : State} (ok : scheduleNext s = .ok t) :
    t.value = s.value ∧ t.waiters = s.waiters ∧ t.resume = s.resume ∧
      t.idleThread = s.idleThread := by
  unfold scheduleNext at ok
  obtain ⟨woken, unblocked, switched⟩ := Lib.ok_bind_iff.mp ok
  have frame : woken.value = s.value ∧ woken.waiters = s.waiters ∧ woken.resume = s.resume ∧
      woken.idleThread = s.idleThread := by
    unfold wakeIdle at unblocked
    split at unblocked
    · exact threadUnblock_frame unblocked
    · cases unblocked
      exact ⟨rfl, rfl, rfl, rfl⟩
  split at switched
  · cases switched
  · cases switched
    exact frame

theorem schedule_frame {s t : State} (ok : schedule s = .ok t) :
    t.value = s.value ∧ t.waiters = s.waiters ∧ t.resume = s.resume ∧
      t.idleThread = s.idleThread := by
  unfold schedule at ok
  split at ok
  · cases ok
  · split at ok
    · split at ok
      · cases ok
      · have frame := scheduleNext_frame ok
        exact frame
    · exact scheduleNext_frame ok

/-- What the rest of the system does to one semaphore: nothing. -/
structure SemaFrame (lock : SemaId) (s t : State) : Prop where
  value : t.value lock = s.value lock
  waiters : t.waiters lock = s.waiters lock
  resume : ∀ task old, t.resume task = .semaDown lock old ↔ s.resume task = .semaDown lock old
  idle : t.idleThread = s.idleThread

theorem schedule_semaFrame {lock : SemaId} {s q t : State} {task : Tid} (resume : Resume)
    (ok : schedule q = .ok t)
    (value : q.value lock = s.value lock) (waiters : q.waiters lock = s.waiters lock)
    (resumes : q.resume = Function.update s.resume task resume)
    (idle : q.idleThread = s.idleThread)
    (before : ∀ old, s.resume task ≠ .semaDown lock old)
    (after : ∀ old, resume ≠ .semaDown lock old) :
    SemaFrame lock s t := by
  obtain ⟨sameValue, sameWaiters, sameResume, sameIdle⟩ := schedule_frame ok
  refine ⟨by rw [sameValue, value], by rw [sameWaiters, waiters], ?_, by rw [sameIdle, idle]⟩
  intro other old
  rw [sameResume, resumes]
  by_cases same : other = task
  · subst same
    simp [before old, after old]
  · simp [Function.update_of_ne same]

theorem threadBlock_semaFrame {lock : SemaId} {s q t : State} {resume : Bool → Resume}
    (ok : threadBlock q .blocked resume = .ok t)
    (value : q.value lock = s.value lock) (waiters : q.waiters lock = s.waiters lock)
    (resumes : q.resume = s.resume) (idle : q.idleThread = s.idleThread)
    (before : ∀ old, s.resume q.cur ≠ .semaDown lock old)
    (after : ∀ old, resume q.intr ≠ .semaDown lock old) :
    SemaFrame lock s t := by
  simp only [threadBlock, true_or, if_true] at ok
  exact schedule_semaFrame (resume q.intr) ok value waiters (by simp [setResume, setStatus, resumes]) idle
    before after

/-- The test of another semaphore does not touch the lock's. -/
theorem semaTest_semaFrame {lock sema : SemaId} {s t : State} {old : Bool}
    (ok : semaTest s sema old = .ok t) (other : sema ≠ lock)
    (before : ∀ old, s.resume s.cur ≠ .semaDown lock old) :
    SemaFrame lock s t := by
  unfold semaTest at ok
  split at ok
  · split at ok
    · cases ok
    · refine threadBlock_semaFrame ok rfl ?_ rfl rfl before (by simp [other])
      simp [Function.update_of_ne other.symm]
  · split at ok
    · cases ok
      refine ⟨by simp [setResume, Function.update_of_ne other.symm], rfl, ?_, rfl⟩
      intro task old'
      by_cases same : task = s.cur
      · subst same
        simp [setResume, before old']
      · simp [setResume, Function.update_of_ne same]
    · cases ok

theorem semaUp_semaFrame {lock sema : SemaId} {s t : State}
    (ok : semaUp s sema = .ok t) (other : sema ≠ lock) : SemaFrame lock s t := by
  unfold semaUp at ok
  split at ok
  · obtain ⟨woken, unblocked, raised⟩ := Lib.ok_bind_iff.mp ok
    have frame : woken.value lock = s.value lock ∧ woken.waiters lock = s.waiters lock ∧
        woken.resume = s.resume ∧ woken.idleThread = s.idleThread := by
      unfold wakeWaiter at unblocked
      split at unblocked
      · cases unblocked
        exact ⟨rfl, rfl, rfl, rfl⟩
      · obtain ⟨value, waiters, resume, idle⟩ := threadUnblock_frame unblocked
        exact ⟨by rw [value], by rw [waiters]; simp [Function.update_of_ne other.symm], resume,
          idle⟩
    split at raised
    · cases raised
      refine ⟨?_, frame.2.1, ?_, frame.2.2.2⟩
      · simpa [Function.update_of_ne other.symm] using frame.1
      · intro task old
        simp [frame.2.2.1]
    · cases raised
  · cases ok

/-- Every scheduler event leaves the lock's semaphore alone, except the retest
of a task inside `sema_down` of the lock. -/
theorem exec_semaFrame {lock : SemaId} {s t : State} (inv : Inv s) {event : Event}
    (enabled : Enabled s event) (avoids : event.avoids lock)
    (elsewhere : event = .resume → ∀ old, s.resume s.cur ≠ .semaDown lock old)
    (ok : exec s event = .ok t) : SemaFrame lock s t := by
  have same : SemaFrame lock s s := ⟨rfl, rfl, fun _ _ => Iff.rfl, rfl⟩
  have outside (free : s.resume s.cur = .none) : ∀ old, s.resume s.cur ≠ .semaDown lock old := by
    intro old
    rw [free]
    simp
  cases event with
  | initThread thread prio =>
      cases ok
      refine ⟨rfl, rfl, ?_, rfl⟩
      intro task old
      by_cases isNew : task = thread
      · subst isNew
        have known : s.resume task ≠ .semaDown lock old := by
          intro resume
          rcases inv.semaStatus task lock old resume with status | status | status <;>
            rw [enabled.2.2.2] at status <;> cases status
        simp [initThread, setResume, known]
      · simp [initThread, setResume, setStatus, Function.update_of_ne isNew]
  | appendReady thread =>
      simp only [exec, appendReady] at ok
      split at ok <;> cases ok
      exact ⟨rfl, rfl, fun _ _ => Iff.rfl, rfl⟩
  | appendAll thread =>
      simp only [exec, appendAll] at ok
      split at ok <;> cases ok
      exact ⟨rfl, rfl, fun _ _ => Iff.rfl, rfl⟩
  | timer =>
      simp only [exec, intrTimerHandler] at ok
      split at ok
      · exact schedule_semaFrame .intrExit ok rfl rfl rfl rfl (outside enabled.1) (by simp)
      · cases ok
        exact ⟨rfl, rfl, fun _ _ => Iff.rfl, rfl⟩
  | yield =>
      simp only [exec, threadYield] at ok
      split at ok
      · cases ok
      · exact schedule_semaFrame (.threadYield s.intr) ok rfl rfl rfl rfl
          (outside enabled.1) (by simp)
  | semaDown sema =>
      have frame := semaTest_semaFrame ok avoids (outside enabled.1)
      exact ⟨frame.value, frame.waiters, frame.resume, frame.idle⟩
  | semaUp sema => exact semaUp_semaFrame ok avoids
  | ioqWait slot =>
      simp only [exec, ioqWait] at ok
      split at ok
      · cases ok
      · split at ok
        · cases ok
        · exact threadBlock_semaFrame ok rfl rfl rfl rfl (outside enabled.1) (by simp)
  | wakeup slot =>
      simp only [exec, wakeup] at ok
      split at ok
      · cases ok
      · obtain ⟨woken, unblocked, freed⟩ := Lib.ok_bind_iff.mp ok
        cases freed
        obtain ⟨value, waiters, resume, idle⟩ := threadUnblock_frame unblocked
        exact ⟨by simp [value], by simp [waiters], by simp [resume], idle⟩
  | idleBlock => exact threadBlock_semaFrame ok rfl rfl rfl rfl (outside enabled.1) (by simp)
  | setIntr status =>
      cases ok
      exact ⟨rfl, rfl, fun _ _ => Iff.rfl, rfl⟩
  | resume =>
      have notLock := elsewhere rfl
      have left (intr : Bool) : SemaFrame lock s (setResume { s with intr := intr } s.cur .none) := by
        refine ⟨rfl, rfl, ?_, rfl⟩
        intro task old
        by_cases isCur : task = s.cur
        · subst isCur
          simp [setResume, notLock old]
        · simp [setResume, Function.update_of_ne isCur]
      simp only [exec, resumeCur] at ok
      split at ok
      · cases ok
        exact same
      · cases ok
        exact left true
      · cases ok
        exact left true
      · cases ok
        exact left _
      · rename_i sema old resume
        refine semaTest_semaFrame ok ?_ notLock
        intro isLock
        rw [isLock] at resume
        exact notLock old resume
      · cases ok
        exact left _
      · cases ok
        exact left true

/-! ### The lock's own semaphore -/

/-- The two outcomes of the test of `sema_down` on the lock. -/
theorem semaTest_lock {lock : SemaId} {s t : State} {old : Bool} (valueLe : s.value lock ≤ 1)
    (ok : semaTest s lock old = .ok t) :
    t.idleThread = s.idleThread ∧
    ((s.value lock = 0 ∧ t.value lock = 0 ∧ t.waiters lock = s.waiters lock ++ [s.cur] ∧
      t.resume = Function.update s.resume s.cur (.semaDown lock old)) ∨
    (s.value lock = 1 ∧ t.value lock = 0 ∧ t.waiters lock = s.waiters lock ∧
      t.resume = Function.update s.resume s.cur .none)) := by
  unfold semaTest at ok
  split at ok
  · rename_i zero
    split at ok
    · cases ok
    · simp only [threadBlock, true_or, if_true] at ok
      obtain ⟨value, waiters, resume, idle⟩ := schedule_frame ok
      refine ⟨idle, .inl ⟨zero, ?_, ?_, ?_⟩⟩
      · rw [value]
        exact zero
      · rw [waiters]
        simp [setResume, setStatus]
      · rw [resume]
        simp [setResume, setStatus]
  · rename_i nonzero
    split at ok
    · cases ok
      refine ⟨rfl, .inr ⟨by omega, ?_, rfl, rfl⟩⟩
      simp only [setResume, Function.update_self]
      omega
    · cases ok

/-- `sema_up` on the lock frees it and pops the first waiter. -/
theorem semaUp_lock {lock : SemaId} {s t : State} (ok : semaUp s lock = .ok t) :
    s.value lock = 0 ∧ t.value lock = 1 ∧ t.waiters lock = (s.waiters lock).tail ∧
      t.resume = s.resume ∧ t.idleThread = s.idleThread := by
  unfold semaUp at ok
  split at ok
  · rename_i zero
    obtain ⟨woken, unblocked, raised⟩ := Lib.ok_bind_iff.mp ok
    have frame : woken.waiters lock = (s.waiters lock).tail ∧ woken.resume = s.resume ∧
        woken.idleThread = s.idleThread := by
      unfold wakeWaiter at unblocked
      split at unblocked
      · rename_i empty
        cases unblocked
        exact ⟨by simp [empty], rfl, rfl⟩
      · rename_i thread rest waiting
        obtain ⟨_, waiters, resume, idle⟩ := threadUnblock_frame unblocked
        refine ⟨?_, resume, idle⟩
        rw [waiters]
        simp [waiting]
    split at raised
    · rename_i one
      cases raised
      exact ⟨zero, by simp [one], frame.1, frame.2.1, frame.2.2⟩
    · cases raised
  · cases ok

/-! ### The invariant -/

/-- What `holder`, `holder_repeat_nr` and the depth are while a task is inside
the lock, by the statement it is at. -/
def OwnerFields (s : LockState) (task : Tid) : Prop :=
  match s.pc task with
  | .acquireHolder => s.holder = none ∧ s.holderRepeatNr = 0 ∧ s.depth task = 0
  | .acquireAssert | .acquireFirst =>
      s.holder = some task ∧ s.holderRepeatNr = 0 ∧ s.depth task = 0
  | .outside | .acquireNested | .releaseTest =>
      s.holder = some task ∧ s.holderRepeatNr = s.depth task ∧ 0 < s.depth task
  | .releaseNested =>
      s.holder = some task ∧ s.holderRepeatNr = s.depth task ∧ 1 < s.depth task
  | .releaseAssert | .releaseHolder =>
      s.holder = some task ∧ s.holderRepeatNr = 1 ∧ s.depth task = 1
  | .releaseNr => s.holder = none ∧ s.holderRepeatNr = 1 ∧ s.depth task = 1
  | .releaseUp => s.holder = none ∧ s.holderRepeatNr = 0 ∧ s.depth task = 1
  | .acquireDown | .acquireWait => False

structure LockInv (lock : SemaId) (s : LockState) : Prop where
  thread : Inv s.thread
  idle : s.pc s.thread.idleThread = .outside
  waiting : ∀ task, s.pc task = .acquireWait ↔ ∃ old, s.thread.resume task = .semaDown lock old
  unique : ∀ first second, InsideLock s first → InsideLock s second → first = second
  taken : s.thread.value lock = 0 ↔ ∃ task, InsideLock s task
  owner : ∀ task, InsideLock s task → OwnerFields s task
  nobody : (∀ task, ¬ InsideLock s task) → s.holder = none ∧ s.holderRepeatNr = 0
  others : ∀ task, ¬ InsideLock s task →
    s.pc task = .outside ∨ s.pc task = .acquireDown ∨ s.pc task = .acquireWait
  below : ∀ task, s.depth task < 2 ^ 32
  woken : s.thread.value lock = 1 → s.thread.waiters lock ≠ [] →
    ∃ task, s.pc task = .acquireWait ∧ task ∉ s.thread.waiters lock

theorem LockInitial.inv {lock : SemaId} {s : LockState} (initial : LockInitial lock s) :
    LockInv lock s := by
  have nobody : ∀ task, ¬ InsideLock s task := by
    intro task
    simp [InsideLock, initial.depth, initial.pc]
  refine
    { thread := initial.thread.inv
      idle := initial.pc _
      waiting := ?_
      unique := fun first _ inside => absurd inside (nobody first)
      taken := by simp [initial.value, nobody]
      owner := fun task inside => absurd inside (nobody task)
      nobody := fun _ => ⟨initial.holder, initial.holderRepeatNr⟩
      others := fun task _ => .inl (initial.pc task)
      below := by simp [initial.depth]
      woken := by simp [initial.thread.waiters] }
  intro task
  simp only [initial.pc, initial.thread.resume]
  grind

/-- A scheduler event that leaves the lock's semaphore alone keeps the invariant. -/
theorem LockInv.frame {lock : SemaId} {s : LockState} (inv : LockInv lock s) {thread : State}
    (threadInv : Inv thread) (frame : SemaFrame lock s.thread thread) :
    LockInv lock { s with thread := thread } where
  thread := threadInv
  idle := by
    simp only [frame.idle]
    exact inv.idle
  waiting task := by simp only [inv.waiting, frame.resume]
  unique := inv.unique
  taken := by
    simp only [frame.value]
    exact inv.taken
  owner := inv.owner
  nobody := inv.nobody
  others := inv.others
  below := inv.below
  woken := by
    simp only [frame.value, frame.waiters]
    exact inv.woken

/-- The test of `sema_down` on the lock by a task that waits for it. -/
theorem LockInv.down {lock : SemaId} {s : LockState} (inv : LockInv lock s) {thread : State}
    {old : Bool} (threadInv : Inv thread) (base : State)
    (baseValue : base.value = s.thread.value) (baseWaiters : base.waiters = s.thread.waiters)
    (baseResume : base.resume = s.thread.resume) (baseCur : base.cur = s.thread.cur)
    (baseIdle : base.idleThread = s.thread.idleThread)
    (entering : s.pc s.thread.cur = .acquireDown ∨ s.pc s.thread.cur = .acquireWait)
    (ok : semaTest base lock old = .ok thread) :
    LockInv lock (afterDown s s.thread.cur thread) := by
  have valueLe : base.value lock ≤ 1 := by
    rw [baseValue]
    exact inv.thread.value lock
  have outside : ¬ InsideLock s s.thread.cur := by
    intro inside
    have fields := inv.owner _ inside
    unfold OwnerFields at fields
    rcases entering with pc | pc <;> simp [pc] at fields
  have depthZero : s.depth s.thread.cur = 0 := by
    by_contra positive
    exact outside (.inl (Nat.pos_of_ne_zero positive))
  obtain ⟨_, idle, waiting, unique, taken, owner, nobody, others, below, woken⟩ := inv
  obtain ⟨sameIdle, ⟨zero, value, waiters, resume⟩ | ⟨one, value, waiters, resume⟩⟩ :=
    semaTest_lock valueLe ok
  · rw [baseResume, baseCur] at resume
    rw [baseWaiters, baseCur] at waiters
    rw [baseValue] at zero
    have blocks : thread.resume s.thread.cur = .semaDown lock old := by simp [resume]
    constructor <;>
      simp only [afterDown, LockState.setPc, blocks, InsideLock, OwnerFields, resume, waiters,
        value, Function.update_apply] at *
    case thread => exact threadInv
    case idle => grind
    case waiting =>
      intro task
      by_cases isCur : task = s.thread.cur
      · subst isCur
        simp
      · simp [isCur, waiting]
    all_goals grind
  · rw [baseResume, baseCur] at resume
    rw [baseWaiters] at waiters
    rw [baseValue] at one
    have takes : thread.resume s.thread.cur = .none := by simp [resume]
    have nobodyInside : ∀ task, ¬ InsideLock s task := by
      intro task inside
      have := taken.mpr ⟨task, inside⟩
      omega
    obtain ⟨noHolder, noNr⟩ := nobody nobodyInside
    constructor <;>
      simp only [afterDown, LockState.setPc, takes, InsideLock, OwnerFields, resume, waiters,
        value, Function.update_apply] at *
    case thread => exact threadInv
    case idle => grind
    case waiting =>
      intro task
      by_cases isCur : task = s.thread.cur
      · subst isCur
        simp
      · simp [isCur, waiting]
    all_goals grind

/-- A statement of the lock functions that stays off the semaphore: the
scheduler is untouched, only the current task's program counter and depth move,
and the task is inside the lock exactly if it was before. -/
theorem LockInv.statement {lock : SemaId} {s t : LockState} (inv : LockInv lock s)
    (thread : t.thread = s.thread)
    (pcOthers : ∀ task, task ≠ s.thread.cur → t.pc task = s.pc task)
    (depthOthers : ∀ task, task ≠ s.thread.cur → t.depth task = s.depth task)
    (notWaiting : s.pc s.thread.cur ≠ .acquireWait ∧ t.pc s.thread.cur ≠ .acquireWait)
    (insideSame : InsideLock t s.thread.cur ↔ InsideLock s s.thread.cur)
    (fields : InsideLock s s.thread.cur → OwnerFields t s.thread.cur)
    (fieldsOthers : ¬ InsideLock s s.thread.cur →
      t.holder = s.holder ∧ t.holderRepeatNr = s.holderRepeatNr)
    (pcOutside : ¬ InsideLock s s.thread.cur →
      t.pc s.thread.cur = .outside ∨ t.pc s.thread.cur = .acquireDown)
    (notIdle : s.thread.cur ≠ s.thread.idleThread)
    (below : ∀ task, t.depth task < 2 ^ 32) :
    LockInv lock t := by
  have inside : ∀ task, InsideLock t task ↔ InsideLock s task := by
    intro task
    by_cases isCur : task = s.thread.cur
    · rw [isCur]
      exact insideSame
    · unfold InsideLock
      rw [pcOthers task isCur, depthOthers task isCur]
  have pcWaiting : ∀ task, t.pc task = .acquireWait ↔ s.pc task = .acquireWait := by
    intro task
    by_cases isCur : task = s.thread.cur
    · rw [isCur]
      exact iff_of_false notWaiting.2 notWaiting.1
    · rw [pcOthers task isCur]
  refine
    { thread := by rw [thread]; exact inv.thread
      idle := ?_
      waiting := by simpa only [pcWaiting, thread] using inv.waiting
      unique := by simpa only [inside] using inv.unique
      taken := by simpa only [inside, thread] using inv.taken
      owner := ?_
      nobody := ?_
      others := ?_
      below := below
      woken := by simpa only [pcWaiting, thread] using inv.woken }
  · rw [thread, pcOthers _ notIdle.symm]
    exact inv.idle
  · intro task insideT
    by_cases isCur : task = s.thread.cur
    · rw [isCur]
      exact fields (isCur ▸ (inside task).mp insideT)
    · have insideS := (inside task).mp insideT
      have curOutside : ¬ InsideLock s s.thread.cur := by
        intro curInside
        exact isCur (inv.unique task s.thread.cur insideS curInside)
      have old := inv.owner task insideS
      obtain ⟨holder, nr⟩ := fieldsOthers curOutside
      unfold OwnerFields at old ⊢
      rw [pcOthers task isCur, depthOthers task isCur, holder, nr]
      exact old
  · intro empty
    have emptyS : ∀ task, ¬ InsideLock s task := by
      intro task insideS
      exact empty task ((inside task).mpr insideS)
    obtain ⟨holder, nr⟩ := fieldsOthers (emptyS _)
    rw [holder, nr]
    exact inv.nobody emptyS
  · intro task notInside
    have notInsideS : ¬ InsideLock s task := fun insideS => notInside ((inside task).mpr insideS)
    by_cases isCur : task = s.thread.cur
    · rw [isCur] at notInsideS ⊢
      rcases pcOutside notInsideS with pc | pc
      · exact .inl pc
      · exact .inr (.inl pc)
    · rw [pcOthers task isCur]
      exact inv.others task notInsideS

/-- The task leaves the lock: `sema_up` has freed the value. -/
theorem LockInv.up {lock : SemaId} {s : LockState} (inv : LockInv lock s) {thread : State}
    (threadInv : Inv thread) (pc : s.pc s.thread.cur = .releaseUp)
    (ok : semaUp s.thread lock = .ok thread) :
    LockInv lock (({ s with thread := thread }.setPc s.thread.cur .outside).setDepth s.thread.cur
      (s.depth s.thread.cur - 1)) := by
  obtain ⟨zero, value, waiters, resume, sameIdle⟩ := semaUp_lock ok
  have waitersNodup := inv.thread.waitersNodup lock
  have waitersMem := inv.thread.waitersMem lock
  have inside : InsideLock s s.thread.cur := by
    by_contra outside
    rcases inv.others _ outside with other | other | other <;> rw [pc] at other <;> cases other
  have fields := inv.owner _ inside
  simp only [OwnerFields, pc] at fields
  obtain ⟨_, idle, waiting, unique, taken, owner, nobody, others, below, woken⟩ := inv
  constructor <;>
    simp only [LockState.setPc, LockState.setDepth, InsideLock, OwnerFields, resume, waiters,
      value, Function.update_apply] at *
  case thread => exact threadInv
  case woken =>
    intro _ nonempty
    cases queue : s.thread.waiters lock with
    | nil => simp [queue] at nonempty
    | cons first rest =>
        obtain ⟨_, old, firstResume⟩ := (waitersMem first).mp (by simp [queue])
        have firstWaits := (waiting first).mpr ⟨old, firstResume⟩
        refine ⟨first, ?_, ?_⟩
        · rw [if_neg]
          · exact firstWaits
          · intro isCur
            rw [isCur, pc] at firstWaits
            cases firstWaits
        · rw [queue] at waitersNodup
          simpa [queue] using (List.nodup_cons.mp waitersNodup).1
  all_goals grind

/-! ### Every run -/

theorem LockInv.curInside {lock : SemaId} {s : LockState} (inv : LockInv lock s) {pc : LockPc}
    (atPc : s.pc s.thread.cur = pc)
    (notOutside : pc ≠ .outside ∧ pc ≠ .acquireDown ∧ pc ≠ .acquireWait) :
    InsideLock s s.thread.cur := by
  by_contra outside
  rcases inv.others _ outside with other | other | other
  · exact notOutside.1 (atPc.symm.trans other)
  · exact notOutside.2.1 (atPc.symm.trans other)
  · exact notOutside.2.2 (atPc.symm.trans other)

/-- A statement of a task that stays inside the lock. -/
theorem LockInv.move {lock : SemaId} {s t : LockState} (inv : LockInv lock s)
    (inside : InsideLock s s.thread.cur) (thread : t.thread = s.thread) {pc : LockPc}
    (pcMoved : t.pc = Function.update s.pc s.thread.cur pc)
    (depthOthers : ∀ task, task ≠ s.thread.cur → t.depth task = s.depth task)
    (notWaiting : pc ≠ .acquireWait) (insideAfter : InsideLock t s.thread.cur)
    (notIdle : s.thread.cur ≠ s.thread.idleThread)
    (fields : OwnerFields t s.thread.cur) (below : ∀ task, t.depth task < 2 ^ 32) :
    LockInv lock t := by
  refine inv.statement thread ?_ depthOthers ⟨?_, ?_⟩ (iff_of_true insideAfter inside)
    (fun _ => fields) (fun outside => absurd inside outside)
    (fun outside => absurd inside outside) notIdle below
  · intro task notCur
    rw [pcMoved, Function.update_of_ne notCur]
  · intro waits
    have fieldsBefore := inv.owner _ inside
    simp [OwnerFields, waits] at fieldsBefore
  · rw [pcMoved, Function.update_self]
    exact notWaiting

/-- A scheduler event inside the lock's system. -/
theorem LockInv.threadEvent {lock : SemaId} {s : LockState} (inv : LockInv lock s) {event : Event}
    (enabled : Enabled s.thread event) (avoids : event.avoids lock) :
    (∃ t, Thread.threadEvent s event = .ok t ∧ LockInv lock t) ∨
      ∃ panic, Thread.threadEvent s event = .error (.thread panic) ∧ panic.ofCaller = true ∧
        exec s.thread event = .error panic := by
  rcases inv.thread.exec enabled with ⟨thread, ok, threadInv⟩ | ⟨panic, failed, ofCaller⟩
  · left
    by_cases retest : event = .resume ∧ s.pc s.thread.cur = .acquireWait
    · refine ⟨afterDown s s.thread.cur thread, ?_, ?_⟩
      · simp only [Thread.threadEvent, ok, liftPanic, bind, Except.bind, if_pos retest]
      obtain ⟨isResume, pc⟩ := retest
      subst isResume
      obtain ⟨old, resume⟩ := (inv.waiting _).mp pc
      simp only [exec, resumeCur, resume] at ok
      exact inv.down threadInv s.thread rfl rfl rfl rfl rfl (.inr pc) ok
    · refine ⟨_, by simp [Thread.threadEvent, ok, liftPanic, retest, bind, Except.bind]; rfl, ?_⟩
      apply inv.frame threadInv
      apply exec_semaFrame inv.thread enabled avoids _ ok
      intro isResume old resume
      exact retest ⟨isResume, (inv.waiting _).mpr ⟨old, resume⟩⟩
  · right
    exact ⟨panic, by simp [Thread.threadEvent, failed, liftPanic, bind, Except.bind], ofCaller, failed⟩

/-- The start of `lock_acquire`: only the holder takes the nested path. -/
theorem LockInv.acquire {lock : SemaId} {s : LockState} (inv : LockInv lock s)
    (notIdle : s.thread.cur ≠ s.thread.idleThread) (pc : s.pc s.thread.cur = .outside) : LockInv lock (lockAcquire s) := by
  have depthInside : InsideLock s s.thread.cur ↔ 0 < s.depth s.thread.cur := by
    simp [InsideLock, pc]
  have owner := inv.owner s.thread.cur
  have holderInside : s.holder = some s.thread.cur → InsideLock s s.thread.cur := by
    intro holds
    by_contra outside
    by_cases empty : ∀ task, ¬ InsideLock s task
    · rw [(inv.nobody empty).1] at holds
      cases holds
    · push Not at empty
      obtain ⟨task, inside⟩ := empty
      have fields := inv.owner task inside
      have notCur : task ≠ s.thread.cur := fun isCur => outside (isCur ▸ inside)
      unfold OwnerFields at fields
      split at fields <;> simp_all
  simp only [OwnerFields, pc] at owner
  unfold lockAcquire
  split
  · rename_i notHolder
    have outside : ¬ InsideLock s s.thread.cur := fun inside => notHolder (owner inside).1
    have depthZero : s.depth s.thread.cur = 0 := by
      by_contra positive
      exact outside (depthInside.mpr (Nat.pos_of_ne_zero positive))
    refine inv.statement rfl ?_ ?_ ?_ ?_ ?_ ?_ ?_ notIdle inv.below
    · intro task notCur
      simp [LockState.setPc, Function.update_of_ne notCur]
    · exact fun _ _ => rfl
    · simp [LockState.setPc, pc]
    · simp [InsideLock, LockState.setPc, pc]
    · exact fun inside => absurd inside outside
    · exact fun _ => ⟨rfl, rfl⟩
    · simp [LockState.setPc]
  · rename_i isHolder
    have inside := holderInside (not_not.mp isHolder)
    refine inv.statement rfl ?_ ?_ ?_ ?_ ?_ ?_ ?_ notIdle inv.below
    · intro task notCur
      simp [LockState.setPc, Function.update_of_ne notCur]
    · exact fun _ _ => rfl
    · simp [LockState.setPc, pc]
    · simp [InsideLock, LockState.setPc, pc]
    · intro _
      simpa [OwnerFields, LockState.setPc] using owner inside
    · exact fun _ => ⟨rfl, rfl⟩
    · exact fun outside => absurd inside outside

theorem LockInv.release {lock : SemaId} {s : LockState} (inv : LockInv lock s)
    (notIdle : s.thread.cur ≠ s.thread.idleThread) (pc : s.pc s.thread.cur = .outside) (depth : 0 < s.depth s.thread.cur) :
    ∃ t, lockRelease s = .ok t ∧ LockInv lock t := by
  have inside : InsideLock s s.thread.cur := .inl depth
  have owner := inv.owner _ inside
  simp only [OwnerFields, pc] at owner
  refine ⟨_, by simp [lockRelease, owner.1]; rfl, ?_⟩
  refine inv.statement rfl ?_ ?_ ?_ ?_ ?_ ?_ ?_ notIdle inv.below
  · intro task notCur
    simp [LockState.setPc, Function.update_of_ne notCur]
  · exact fun _ _ => rfl
  · simp [LockState.setPc, pc]
  · simp [InsideLock, LockState.setPc, pc]
  · intro _
    simpa [OwnerFields, LockState.setPc] using owner
  · exact fun _ => ⟨rfl, rfl⟩
  · exact fun outside => absurd inside outside

/-- The next statement of the call the current task is in. -/
theorem LockInv.advance {lock : SemaId} {s : LockState} (inv : LockInv lock s)
    (free : s.thread.resume s.thread.cur = .none) (notOutside : s.pc s.thread.cur ≠ .outside) :
    ∃ t, lockAdvance lock s = .ok t ∧ ((∀ task, t.depth task < 2 ^ 32) → LockInv lock t) := by
  have notIdle : s.thread.cur ≠ s.thread.idleThread := by
    intro isIdle
    rw [isIdle] at notOutside
    exact notOutside inv.idle
  cases pc : s.pc s.thread.cur with
  | outside => exact absurd pc notOutside
  | acquireDown =>
      obtain ⟨thread, ok, threadInv⟩ := inv.thread.semaTest notIdle lock s.thread.intr
      refine ⟨_, by simp [lockAdvance, pc, semaDown, ok, liftPanic, bind, Except.bind]; rfl, ?_⟩
      intro _
      exact inv.down threadInv { s.thread with intr := false } rfl rfl rfl rfl rfl (.inl pc) ok
  | acquireWait =>
      obtain ⟨old, resume⟩ := (inv.waiting _).mp pc
      rw [free] at resume
      cases resume
  | releaseUp =>
      have inside := inv.curInside pc (by decide)
      have zero := inv.taken.mpr ⟨_, inside⟩
      obtain ⟨thread, ok, threadInv⟩ := inv.thread.semaUp zero
      refine ⟨_, by simp [lockAdvance, pc, ok, liftPanic, bind, Except.bind]; rfl, ?_⟩
      intro _
      exact inv.up threadInv pc ok
  | acquireHolder | acquireAssert | acquireFirst | acquireNested | releaseNested
  | releaseAssert | releaseHolder | releaseNr =>
      have inside := inv.curInside pc (by decide)
      have owner := inv.owner _ inside
      simp only [OwnerFields, pc] at owner
      refine ⟨_, by simp [lockAdvance, pc, owner]; rfl, fun below => ?_⟩
      refine inv.move inside rfl rfl ?_ (by decide) ?_ notIdle ?_ below
      · intro task notCur
        simp [LockState.setPc, LockState.setDepth, Function.update_of_ne notCur]
      · simp [InsideLock, LockState.setPc, LockState.setDepth]
        try omega
      · have curBelow := below s.thread.cur
        simp [OwnerFields, LockState.setPc, LockState.setDepth] at curBelow ⊢
        try omega
  | releaseTest =>
      have inside := inv.curInside pc (by decide)
      have owner := inv.owner _ inside
      simp only [OwnerFields, pc] at owner
      by_cases many : s.holderRepeatNr > 1
      · refine ⟨_, by simp only [lockAdvance, pc, if_pos many]; rfl, fun below => ?_⟩
        refine inv.move inside rfl rfl (fun _ _ => rfl) (by decide) ?_ notIdle ?_ below
        · exact .inl owner.2.2
        · simp [OwnerFields, LockState.setPc, owner]
          omega
      · refine ⟨_, by simp only [lockAdvance, pc, if_neg many]; rfl, fun below => ?_⟩
        refine inv.move inside rfl rfl (fun _ _ => rfl) (by decide) ?_ notIdle ?_ below
        · exact .inl owner.2.2
        · simp [OwnerFields, LockState.setPc, owner]
          omega

/-- What one event does: it keeps the invariant unless it nests too deep, or a
caller of another primitive tripped an `ASSERT` there. -/
theorem LockInv.exec {lock : SemaId} {s : LockState} (inv : LockInv lock s) {event : LockEvent}
    (enabled : LockEnabled lock s event) :
    (∃ t, lockExec lock s event = .ok t ∧ ((∀ task, t.depth task < 2 ^ 32) → LockInv lock t)) ∨
      ∃ inner panic, event = .thread inner ∧ Thread.exec s.thread inner = .error panic ∧
        panic.ofCaller = true := by
  cases event with
  | thread inner =>
      rcases inv.threadEvent enabled.1 enabled.2.1 with ⟨t, ok, tInv⟩ | ⟨panic, _, ofCaller, failed⟩
      · exact .inl ⟨t, ok, fun _ => tInv⟩
      · exact .inr ⟨inner, panic, rfl, failed, ofCaller⟩
  | acquire => exact .inl ⟨_, rfl, fun _ => inv.acquire enabled.2.1 enabled.2.2⟩
  | release =>
      obtain ⟨t, ok, tInv⟩ := inv.release enabled.2.1 enabled.2.2.1 enabled.2.2.2
      exact .inl ⟨t, ok, fun _ => tInv⟩
  | advance => exact .inl (inv.advance enabled.1 enabled.2)

theorem LockReachableBelow.inv {lock : SemaId} {s : LockState}
    (reachable : LockReachableBelow lock s) : LockInv lock s := by
  obtain ⟨start, initial, run⟩ := reachable
  induction run with
  | refl => exact initial.inv
  | tail _ step inductionHypothesis =>
      obtain ⟨⟨event, enabled, executed⟩, below⟩ := step
      rcases inductionHypothesis.exec enabled with ⟨t, ok, tInv⟩ | ⟨inner, panic, isThread, failed, _⟩
      · rw [executed] at ok
        obtain rfl := Except.ok.inj ok
        exact tInv below
      · subst isThread
        simp [lockExec, Thread.threadEvent, failed, liftPanic, bind, Except.bind] at executed

/-- Events that can still trip an `ASSERT`: a misuse of another semaphore, of
`ioq_wait` or of `wakeup`. -/
def OtherPrimitive (lock : SemaId) : LockEvent → Prop
  | .thread (.semaUp sema) => sema ≠ lock
  | .thread (.ioqWait _) => True
  | .thread (.wakeup _) => True
  | _ => False

/-- The failing events are those of other primitives. -/
theorem LockInv.otherPrimitive {lock : SemaId} {s : LockState} (inv : LockInv lock s)
    {event : LockEvent} {panic : LockPanic} (enabled : LockEnabled lock s event)
    (failed : lockExec lock s event = .error panic) : OtherPrimitive lock event := by
  rcases inv.exec enabled with ⟨t, ok, _⟩ | ⟨inner, innerPanic, isThread, innerFailed, ofCaller⟩
  · rw [failed] at ok
    cases ok
  · subst isThread
    obtain ⟨innerEnabled, avoids, _⟩ := enabled
    cases inner with
    | semaUp sema => exact avoids
    | ioqWait slot => trivial
    | wakeup slot => trivial
    | initThread thread prio => simp [Thread.exec] at innerFailed
    | setIntr status => simp [Thread.exec] at innerFailed
    | appendReady thread =>
        obtain ⟨t, ok, _⟩ := inv.thread.appendReady innerEnabled.2
        simp only [Thread.exec, ok] at innerFailed
        cases innerFailed
    | appendAll thread =>
        obtain ⟨t, ok, _⟩ := inv.thread.appendAll innerEnabled.2
        simp only [Thread.exec, ok] at innerFailed
        cases innerFailed
    | timer =>
        obtain ⟨t, ok, _⟩ := inv.thread.intrTimerHandler
        simp only [Thread.exec, ok] at innerFailed
        cases innerFailed
    | yield =>
        obtain ⟨t, ok, _⟩ := inv.thread.threadYield
        simp only [Thread.exec, ok] at innerFailed
        cases innerFailed
    | semaDown sema =>
        obtain ⟨t, ok, _⟩ := inv.thread.semaTest innerEnabled.2 sema s.thread.intr
        simp only [Thread.exec, semaDown, ok] at innerFailed
        cases innerFailed
    | idleBlock =>
        obtain ⟨t, ok, _⟩ := inv.thread.idleBlock innerEnabled.2
        simp only [Thread.exec, ok] at innerFailed
        cases innerFailed
    | resume =>
        obtain ⟨t, ok, _⟩ := inv.thread.resumeCur innerEnabled
        simp only [Thread.exec, ok] at innerFailed
        cases innerFailed

theorem LockInv.holderDepth {lock : SemaId} {s : LockState} (inv : LockInv lock s) {task : Tid}
    (holds : s.holder = some task) : s.holderRepeatNr = s.depth task := by
  by_cases empty : ∀ other, ¬ InsideLock s other
  · rw [(inv.nobody empty).1] at holds
    cases holds
  · push Not at empty
    obtain ⟨other, inside⟩ := empty
    have fields := inv.owner other inside
    unfold OwnerFields at fields
    split at fields <;> simp_all

/-- For every interleaving of bracketed acquires and releases nested less than
`2 ^ 32` deep: at most one task is inside the lock, `holder_repeat_nr` is the
holder's depth, the value is 0 or 1, only other primitives can fail an
`ASSERT`, and a free lock with waiters has a woken task that has yet to retest. -/
theorem lock_safe {lock : SemaId} {s : LockState} (reachable : LockReachableBelow lock s) :
    (∀ first second, InsideLock s first → InsideLock s second → first = second) ∧
    (∀ task, s.holder = some task → s.holderRepeatNr = s.depth task) ∧
    (s.thread.value lock = 0 ∨ s.thread.value lock = 1) ∧
    (∀ event panic, LockEnabled lock s event → lockExec lock s event = .error panic →
      OtherPrimitive lock event) ∧
    (s.thread.value lock = 1 → s.thread.waiters lock ≠ [] → ∃ task, YetToRetest lock s task) := by
  have inv := reachable.inv
  refine ⟨inv.unique, fun task => inv.holderDepth, ?_, fun _ _ => inv.otherPrimitive, ?_⟩
  · have := inv.thread.value lock
    omega
  · intro one nonempty
    obtain ⟨task, pc, popped⟩ := inv.woken one nonempty
    obtain ⟨old, resume⟩ := (inv.waiting task).mp pc
    refine ⟨task, ⟨old, resume⟩, popped, ?_⟩
    rcases inv.thread.semaStatus task lock old resume with status | status | status
    · exact .inr status
    · exact .inl status
    · exact absurd ((inv.thread.waitersMem lock task).mpr ⟨status, old, resume⟩) popped

/-- The boot state with a fresh lock. -/
def bootLock : LockState where
  thread := bootState
  holder := none
  holderRepeatNr := 0
  pc _ := .outside
  depth _ := 0

theorem bootLock_initial (lock : SemaId) : LockInitial lock bootLock where
  thread := bootState_initial
  value := rfl
  holder := rfl
  holderRepeatNr := rfl
  pc _ := rfl
  depth _ := rfl

/-- The main task is outside both functions and has nested `depth` acquires. -/
structure MainHolds (depth : Nat) (s : LockState) : Prop where
  cur : s.thread.cur = 0
  idle : s.thread.idleThread = 1
  resume : s.thread.resume 0 = .none
  pc : s.pc 0 = .outside
  holder : s.holder = some 0
  holderRepeatNr : s.holderRepeatNr = depth % 2 ^ 32
  depth : s.depth 0 = depth

/-- The outermost `lock_acquire` of the main task, statement by statement. -/
theorem bootLock_acquires (lock : SemaId) :
    ∃ s, Relation.ReflTransGen (LockStep lock) bootLock s ∧ MainHolds 1 s := by
  let entered := bootLock.setPc 0 .acquireDown
  let taken := setResume
    { bootState with value := Function.update bootState.value lock 0 } 0 .none
  let atHolder := afterDown entered 0 taken
  let atAssert := { atHolder with holder := some 0 }.setPc 0 .acquireAssert
  let atFirst := atAssert.setPc 0 .acquireFirst
  let acquired := ({ atFirst with holderRepeatNr := 1 }.setPc 0 .outside).setDepth 0 1
  have enter : LockStep lock bootLock entered :=
    ⟨.acquire, ⟨rfl, by decide, rfl⟩, rfl⟩
  have down : LockStep lock entered atHolder :=
    ⟨.advance, ⟨rfl, by simp [entered, LockState.setPc, bootLock, bootState]⟩, rfl⟩
  have setHolder : LockStep lock atHolder atAssert :=
    ⟨.advance, ⟨rfl, by simp [atHolder, afterDown, LockState.setPc, taken, setResume, entered,
      bootLock, bootState]⟩, rfl⟩
  have assertNr : LockStep lock atAssert atFirst :=
    ⟨.advance, ⟨rfl, by simp [atAssert, LockState.setPc, atHolder, afterDown, taken, setResume,
      bootState]⟩, rfl⟩
  have setNr : LockStep lock atFirst acquired :=
    ⟨.advance, ⟨rfl, by simp [atFirst, atAssert, LockState.setPc, atHolder, afterDown, taken,
      setResume, bootState]⟩, rfl⟩
  refine ⟨acquired, ?_, ⟨rfl, rfl, rfl, rfl, rfl, rfl, rfl⟩⟩
  exact ((((Relation.ReflTransGen.single enter).tail down).tail setHolder).tail assertNr).tail setNr

/-- One nested `lock_acquire`: the counter is a `uint32_t`. -/
theorem MainHolds.nest (lock : SemaId) {depth : Nat} {s : LockState} (holds : MainHolds depth s) :
    ∃ t, Relation.ReflTransGen (LockStep lock) s t ∧ MainHolds (depth + 1) t := by
  obtain ⟨cur, idle, resume, pc, holder, holderRepeatNr, depthEq⟩ := holds
  have enter : LockStep lock s (s.setPc 0 .acquireNested) := by
    refine ⟨.acquire, ?_, ?_⟩
    · simp [LockEnabled, cur, idle, resume, pc]
    · simp [lockExec, lockAcquire, cur, holder]
  have nested : LockStep lock (s.setPc 0 .acquireNested)
      (({ s.setPc 0 .acquireNested with
          holderRepeatNr := (s.holderRepeatNr + 1) % 2 ^ 32 }.setPc 0
        .outside).setDepth 0 (s.depth 0 + 1)) := by
    refine ⟨.advance, ?_, ?_⟩
    · simp [LockEnabled, LockState.setPc, cur, resume]
    · simp [lockExec, lockAdvance, LockState.setPc, cur]
  refine ⟨_, (Relation.ReflTransGen.single enter).tail nested, cur, idle, resume, ?_, holder, ?_, ?_⟩
  · simp [LockState.setPc, LockState.setDepth]
  · simp [LockState.setPc, LockState.setDepth, holderRepeatNr]
  · simp [LockState.setPc, LockState.setDepth, depthEq]

theorem mainHolds_reachable (lock : SemaId) (depth : Nat) :
    ∃ s, LockReachable lock s ∧ MainHolds (depth + 1) s := by
  induction depth with
  | zero =>
      obtain ⟨s, run, holds⟩ := bootLock_acquires lock
      exact ⟨s, ⟨bootLock, bootLock_initial lock, run⟩, holds⟩
  | succ depth inductionHypothesis =>
      obtain ⟨s, ⟨start, initial, run⟩, holds⟩ := inductionHypothesis
      obtain ⟨t, more, nested⟩ := holds.nest lock
      exact ⟨t, ⟨start, initial, run.trans more⟩, nested⟩

/-- Without the bound the counter wraps: at depth `2 ^ 32` it is 0 again. -/
theorem holderRepeatNr_wraps :
    ¬ ∀ s, LockReachable 5 s → ∀ task, s.holder = some task →
      s.holderRepeatNr = s.depth task := by
  intro always
  obtain ⟨s, reachable, holds⟩ := mainHolds_reachable 5 (2 ^ 32 - 1)
  have same := always s reachable 0 holds.holder
  rw [holds.holderRepeatNr, holds.depth] at same
  exact absurd same (by decide)

/-! ### Two tasks and a lock -/

theorem Event.avoids_iff {lock : SemaId} {event : Event} :
    event.avoids lock ↔ event ≠ .semaDown lock ∧ event ≠ .semaUp lock := by
  cases event <;> simp [Event.avoids]

instance (lock : SemaId) (event : Event) : Decidable (event.avoids lock) :=
  decidable_of_iff _ Event.avoids_iff.symm

instance (lock : SemaId) (s : LockState) (event : LockEvent) : Decidable (LockEnabled lock s event) := by
  cases event <;> unfold LockEnabled <;> infer_instance

/-- The events of a list, each where it can happen. -/
def lockEvents (lock : SemaId) : List LockEvent → LockState → Option LockState
  | [], s => some s
  | event :: rest, s =>
      if LockEnabled lock s event then
        match lockExec lock s event with
        | .ok t => lockEvents lock rest t
        | .error _ => none
      else
        none

theorem setDepth_le {s : LockState} {cur depth : Nat} (small : depth ≤ s.depth cur + 1) (task : Tid) :
    (s.setDepth cur depth).depth task ≤ s.depth task + 1 := by
  by_cases same : task = cur
  · simp [LockState.setDepth, same, small]
  · simp [LockState.setDepth, same]

/-- One event nests a call once at most. -/
theorem lockExec_depth {lock : SemaId} {s t : LockState} {event : LockEvent}
    (isRun : lockExec lock s event = .ok t) (task : Tid) : t.depth task ≤ s.depth task + 1 := by
  cases event with
  | thread event =>
      simp only [lockExec, threadEvent] at isRun
      cases result : exec s.thread event with
      | error panic =>
          rw [result] at isRun
          cases isRun
      | ok thread =>
          simp only [result, liftPanic, bind, Except.bind] at isRun
          split at isRun <;>
          · cases isRun
            exact Nat.le_succ _
  | acquire =>
      cases isRun
      unfold lockAcquire
      split <;> exact Nat.le_succ _
  | release =>
      simp only [lockExec, lockRelease] at isRun
      split at isRun
      · cases isRun
        exact Nat.le_succ _
      · cases isRun
  | advance =>
      simp only [lockExec, lockAdvance] at isRun
      cases pc : s.pc s.thread.cur with
      | outside | acquireWait | acquireHolder | releaseHolder | releaseNr =>
          simp only [pc] at isRun
          cases isRun
          exact Nat.le_succ _
      | acquireFirst | acquireNested =>
          simp only [pc] at isRun
          cases isRun
          exact setDepth_le (Nat.le_refl _) task
      | releaseNested =>
          simp only [pc] at isRun
          cases isRun
          exact setDepth_le ((Nat.sub_le _ 1).trans (Nat.le_succ _)) task
      | acquireAssert | releaseTest | releaseAssert =>
          simp only [pc] at isRun
          split at isRun <;> cases isRun <;> exact Nat.le_succ _
      | acquireDown =>
          simp only [pc] at isRun
          cases result : semaDown s.thread lock with
          | error panic =>
              rw [result] at isRun
              cases isRun
          | ok thread =>
              rw [result] at isRun
              cases isRun
              exact Nat.le_succ _
      | releaseUp =>
          simp only [pc] at isRun
          cases result : semaUp s.thread lock with
          | error panic =>
              rw [result] at isRun
              cases isRun
          | ok thread =>
              rw [result] at isRun
              cases isRun
              exact setDepth_le ((Nat.sub_le _ 1).trans (Nat.le_succ _)) task

/-- A list that is short enough nests no `2 ^ 32` calls. -/
theorem lockEvents_run (lock : SemaId) (list : List LockEvent) {s t : LockState} {depth : Nat}
    (isRun : lockEvents lock list s = some t) (bound : ∀ task, s.depth task ≤ depth)
    (short : depth + list.length < 2 ^ 32) :
    Relation.ReflTransGen (fun s t => LockStep lock s t ∧ ∀ task, t.depth task < 2 ^ 32) s t := by
  induction list generalizing s depth with
  | nil =>
      cases isRun
      exact .refl
  | cons event rest inductionHypothesis =>
      rw [List.length_cons] at short
      unfold lockEvents at isRun
      split at isRun
      · rename_i enabled
        cases result : lockExec lock s event with
        | ok next =>
            rw [result] at isRun
            have deeper : ∀ task, next.depth task ≤ depth + 1 := fun task =>
              (lockExec_depth result task).trans (Nat.add_le_add_right (bound task) 1)
            refine .head ⟨⟨event, enabled, result⟩, fun task => ?_⟩
              (inductionHypothesis isRun deeper (by omega))
            have := deeper task
            omega
        | error panic =>
            rw [result] at isRun
            cases isRun
      · cases isRun

/-- Main starts task 2, acquires the lock twice and yields; task 2 finds it held and waits. -/
def waitsForLock : List LockEvent :=
  [.thread (.initThread 2 31), .thread (.appendReady 2), .thread (.appendAll 2),
    .acquire, .advance, .advance, .advance, .advance, .acquire, .advance,
    .thread .yield, .thread .resume, .thread .idleBlock, .thread .resume,
    .acquire, .advance, .thread .resume]

/-- Main releases the lock twice and yields; task 2 takes it. -/
def takesLock : List LockEvent :=
  [.release, .advance, .advance, .release, .advance, .advance, .advance, .advance, .advance,
    .thread .yield, .thread .resume, .advance, .advance, .advance]

theorem waitsForLock_state : ((lockEvents 5 waitsForLock bootLock).map fun s =>
    (s.holder, s.holderRepeatNr, s.thread.waiters 5, s.depth 0)) = some (some 0, 2, [2], 2) := by
  decide +kernel

theorem takesLock_state : ((lockEvents 5 (waitsForLock ++ takesLock) bootLock).map fun s =>
    (s.holder, s.holderRepeatNr, s.thread.waiters 5, s.depth 2)) = some (some 2, 1, [], 1) := by
  decide +kernel

theorem lockEvents_reachable {list : List LockEvent} {s : LockState}
    (isRun : lockEvents 5 list bootLock = some s) (short : list.length < 2 ^ 32) : LockReachableBelow 5 s :=
  ⟨bootLock, bootLock_initial 5, lockEvents_run 5 list isRun (fun _ => Nat.le_refl 0) (by omega)⟩

/-- Main is inside the lock while task 2 waits for it, and task 2 is inside it once main has
released it. -/
theorem lock_safe_after_wait :
    ∃ s t, LockReachableBelow 5 s ∧ LockReachableBelow 5 t ∧
      (s.holder = some 0 ∧ s.holderRepeatNr = 2 ∧ s.thread.waiters 5 = [2] ∧
        ∀ task, InsideLock s task → task = 0) ∧
      t.holder = some 2 ∧ t.holderRepeatNr = 1 ∧ ∀ task, InsideLock t task → task = 2 := by
  obtain ⟨s, isRun, isState⟩ := Option.map_eq_some_iff.mp waitsForLock_state
  obtain ⟨t, isRun', isState'⟩ := Option.map_eq_some_iff.mp takesLock_state
  simp only [Prod.mk.injEq] at isState isState'
  obtain ⟨holder, repeatNr, waiters, depth⟩ := isState
  obtain ⟨holder', repeatNr', _, depth'⟩ := isState'
  have reachable := lockEvents_reachable isRun (by decide)
  have reachable' := lockEvents_reachable isRun' (by decide)
  refine ⟨s, t, reachable, reachable', ⟨holder, repeatNr, waiters, fun task inside => ?_⟩,
    holder', repeatNr', fun task inside => ?_⟩
  · exact (lock_safe reachable).1 task 0 inside (.inl (by omega))
  · exact (lock_safe reachable').1 task 2 inside (.inl (by omega))

end ZyOs.Thread
