import ZyOs.Device.IoQueue

/-!
Contract: what holds of the keyboard buffer in every run.

Owns:
- bytes come out in the order they went in, none is lost or overwritten, and no
  `ASSERT` fails (`ioqueue_fifo`);
- when a task sleeps as the consumer although the queue has bytes: exactly
  after a task that waited for the lock got it while the queue was not empty
  (`consumer_sleeps_iff`).

The lock is held from `lock_acquire` to the `lock_release` behind `ioq_wait`, so
its holder is the one task that stands in `ioq_wait`: asleep as the consumer, or
woken and not yet run.
-/

namespace ZyOs.Device

open ZyOs.Lib

variable {Task : Type} [DecidableEq Task] {s t : QueueState Task} {task : Task}

/-! ### The invariant -/

/-- Nobody holds the lock. -/
structure LockFree (s : QueueState Task) : Prop where
  value : s.value = 1
  holder : s.holder = none
  holderRepeatNr : s.holderRepeatNr = 0
  consumer : s.consumer = none
  pc : ∀ task, s.pc task ≠ .ioqWait

/-- `owner` holds the lock and stands in `ioq_wait`, asleep as the consumer or
woken. -/
structure LockHeld (s : QueueState Task) (owner : Task) : Prop where
  value : s.value = 0
  holder : s.holder = some owner
  holderRepeatNr : s.holderRepeatNr = 1
  ownerPc : s.pc owner = .ioqWait
  only : ∀ task, s.pc task = .ioqWait → task = owner
  sleeps : (s.consumer = some owner ∧ s.status owner = .blocked) ∨
    (s.consumer = none ∧ s.status owner = .ready)

structure QueueInv (s : QueueState Task) : Prop where
  fifo : ∃ queue, s.accepted = s.returned ++ queue ∧ RingHolds bufsize s.buf s.head s.tail queue
  producer : s.producer = none
  lock : LockFree s ∨ ∃ owner, LockHeld s owner
  waiters : ∀ task ∈ s.waiters, s.pc task = .semaDown ∧ s.status task = .blocked
  nodup : s.waiters.Nodup

omit [DecidableEq Task] in
theorem QueueInitial.inv (initial : QueueInitial s) : QueueInv s where
  fifo := by
    refine ⟨[], by rw [initial.accepted, initial.returned, List.append_nil], ?_⟩
    rw [initial.head, initial.tail]
    exact ringHolds_empty (by decide) s.buf
  producer := initial.producer
  lock := by
    refine .inl ⟨initial.value, initial.holder, initial.holderRepeatNr, initial.consumer, ?_⟩
    intro task
    rw [initial.pc]
    decide
  waiters := by
    intro task mem
    rw [initial.waiters] at mem
    cases mem
  nodup := by
    rw [initial.waiters]
    exact List.nodup_nil

omit [DecidableEq Task] in
/-- A ready task is in no waiting list. -/
theorem QueueInv.notWaiting (inv : QueueInv s) (ready : s.status task = .ready) :
    task ∉ s.waiters := by
  intro mem
  have blocked := (inv.waiters task mem).2
  rw [ready] at blocked
  cases blocked

omit [DecidableEq Task] in
/-- The holder of the lock is not in the waiting list. -/
theorem QueueInv.holder_notWaiting (inv : QueueInv s) (waits : s.pc task = .ioqWait) :
    task ∉ s.waiters := by
  intro mem
  have down := (inv.waiters task mem).1
  rw [waits] at down
  cases down

/-! ### Sleeping -/

theorem threadBlock_self (s : QueueState Task) (task : Task) (pc : QueuePc) :
    (s.threadBlock task pc).pc task = pc ∧ (s.threadBlock task pc).status task = .blocked :=
  ⟨Function.update_self .., Function.update_self ..⟩

theorem threadBlock_other (s : QueueState Task) {task other : Task} (ne : other ≠ task)
    (pc : QueuePc) :
    (s.threadBlock task pc).pc other = s.pc other ∧
      (s.threadBlock task pc).status other = s.status other :=
  ⟨Function.update_of_ne ne .., Function.update_of_ne ne ..⟩

/-- What a task outside `ioq_wait` does in `lock_acquire` and `ioq_wait`: it waits
for the lock, or takes it and sleeps as the consumer. -/
theorem downAndWait_spec (inv : QueueInv s) (notWaiting : task ∉ s.waiters)
    (pc : s.pc task ≠ .ioqWait) :
    ∃ t, s.downAndWait task = .ok t ∧ QueueInv t ∧ t.head = s.head ∧ t.tail = s.tail ∧
      t.consumer = if s.value = 0 then s.consumer else some task := by
  unfold QueueState.downAndWait
  rcases inv.lock with free | ⟨owner, held⟩
  · have notZero : ¬s.value = 0 := by rw [free.value]; decide
    rw [if_neg notZero, if_neg notZero, if_pos (by rw [free.value]), if_pos free.holderRepeatNr,
      QueueState.ioqWait, if_pos free.consumer]
    refine ⟨_, rfl, ?_, rfl, rfl, rfl⟩
    refine ⟨inv.fifo, inv.producer, .inr ⟨task, ?_⟩, ?_, inv.nodup⟩
    · refine ⟨?_, rfl, rfl, (threadBlock_self ..).1, ?_, .inl ⟨rfl, (threadBlock_self ..).2⟩⟩
      · simp only [QueueState.threadBlock, free.value]
      · intro other waits
        by_contra ne
        exact free.pc other ((threadBlock_other _ ne _).1.symm.trans waits)
    · intro other mem
      have ne : other ≠ task := fun eq => notWaiting (eq ▸ mem)
      rw [(threadBlock_other _ ne _).1, (threadBlock_other _ ne _).2]
      exact inv.waiters other mem
  · rw [if_pos held.value, if_pos held.value, if_neg notWaiting]
    have apart : owner ≠ task := fun eq => pc (eq ▸ held.ownerPc)
    refine ⟨_, rfl, ?_, rfl, rfl, rfl⟩
    refine ⟨inv.fifo, inv.producer, .inr ⟨owner, ?_⟩, ?_, ?_⟩
    · refine ⟨held.value, held.holder, held.holderRepeatNr, ?_, ?_, ?_⟩
      · rw [(threadBlock_other _ apart _).1]
        exact held.ownerPc
      · intro other waits
        by_cases same : other = task
        · rw [same, (threadBlock_self ..).1] at waits
          cases waits
        · exact held.only other ((threadBlock_other _ same _).1.symm.trans waits)
      · rw [(threadBlock_other _ apart _).2]
        exact held.sleeps
    · intro other mem
      by_cases same : other = task
      · rw [same]
        exact threadBlock_self ..
      · rw [(threadBlock_other _ same _).1, (threadBlock_other _ same _).2]
        apply inv.waiters
        simpa [same] using (List.mem_append.mp mem)
    · rw [show (QueueState.threadBlock _ task _).waiters = s.waiters ++ [task] from rfl,
        List.nodup_append]
      refine ⟨inv.nodup, by simp, ?_⟩
      intro other mem waiter last
      rw [List.mem_singleton.mp last]
      exact fun eq => notWaiting (eq ▸ mem)

/-! ### Releasing the lock -/

/-- A task that runs does not look at its own `pc`. -/
theorem ioqGetchar_setPc (s : QueueState Task) (task : Task) (pc : QueuePc) :
    QueueState.ioqGetchar { s with pc := Function.update s.pc task pc } task = s.ioqGetchar task := by
  unfold QueueState.ioqGetchar QueueState.acquireAndWait QueueState.downAndWait QueueState.ioqWait
    QueueState.threadBlock QueueState.ioqEmpty
  simp only [Function.update_idem]

theorem semaUp_nil (value : s.value = 0) (empty : s.waiters = []) :
    s.semaUp = .ok { s with value := 1 } := by
  unfold QueueState.semaUp
  rw [if_pos value]
  split
  · rw [value]
  · rename_i eq
    rw [empty] at eq
    cases eq

/-- `sema_up` wakes the first waiter. -/
theorem semaUp_cons {first : Task} {rest : List Task} (value : s.value = 0)
    (list : s.waiters = first :: rest) (blocked : s.status first = .blocked) :
    s.semaUp = .ok { s with
      value := 1, waiters := rest, status := Function.update s.status first .ready } := by
  unfold QueueState.semaUp
  rw [if_pos value]
  split
  · rename_i eq
    rw [list] at eq
    cases eq
  · rename_i eq
    rw [list] at eq
    obtain ⟨rfl, rfl⟩ := List.cons.inj eq
    rw [QueueState.threadUnblock, if_pos blocked]
    simp only [bind, Except.bind, value]

/-- The consumer has been woken and runs: it gives the lock back. -/
theorem lockRelease_spec (inv : QueueInv s) (waits : s.pc task = .ioqWait)
    (ready : s.status task = .ready) :
    s.consumer = none ∧
      ∃ t, s.lockRelease task = .ok t ∧ t.head = s.head ∧ t.tail = s.tail ∧ t.consumer = none ∧
        t.status task = .ready ∧ QueueInv { t with pc := Function.update t.pc task .outside } := by
  have held : LockHeld s task := by
    rcases inv.lock with free | ⟨owner, held⟩
    · exact absurd waits (free.pc task)
    · obtain rfl := held.only task waits
      exact held
  have awake : s.consumer = none := by
    rcases held.sleeps with ⟨_, blocked⟩ | ⟨none, _⟩
    · rw [ready] at blocked
      cases blocked
    · exact none
  refine ⟨awake, ?_⟩
  have notOne : ¬s.holderRepeatNr > 1 := by rw [held.holderRepeatNr]; decide
  unfold QueueState.lockRelease
  rw [if_pos held.holder, if_neg notOne, if_pos held.holderRepeatNr]
  have othersOutside : ∀ other, Function.update s.pc task QueuePc.outside other ≠ .ioqWait := by
    intro other
    by_cases same : other = task
    · rw [same, Function.update_self]
      decide
    · rw [Function.update_of_ne same]
      exact fun waits' => same (held.only other waits')
  obtain empty | ⟨first, rest, list⟩ : s.waiters = [] ∨ ∃ first rest, s.waiters = first :: rest := by
    cases s.waiters with
    | nil => exact .inl rfl
    | cons first rest => exact .inr ⟨first, rest, rfl⟩
  · refine ⟨_, semaUp_nil held.value empty, rfl, rfl, awake, ready, inv.fifo, inv.producer,
      .inl ⟨rfl, rfl, rfl, awake, othersOutside⟩, ?_, inv.nodup⟩
    intro other mem
    have none : other ∈ s.waiters := mem
    rw [empty] at none
    cases none
  · have nodup := inv.nodup
    rw [list, List.nodup_cons] at nodup
    have firstWaits := inv.waiters first (by rw [list]; exact List.mem_cons_self)
    have apart : task ≠ first := by
      intro eq
      rw [eq, firstWaits.2] at ready
      cases ready
    refine ⟨_, semaUp_cons held.value list firstWaits.2, rfl, rfl, awake, ?_, inv.fifo, inv.producer,
      .inl ⟨rfl, rfl, rfl, awake, othersOutside⟩, ?_, nodup.2⟩
    · simp only [Function.update_of_ne apart]
      exact ready
    · intro other mem
      have ne : other ≠ first := fun eq => nodup.1 (eq ▸ mem)
      have old : other ∈ s.waiters := by
        rw [list]
        exact List.mem_cons_of_mem _ mem
      have notTask : other ≠ task := fun eq => inv.holder_notWaiting waits (eq ▸ old)
      simp only [Function.update_of_ne ne, Function.update_of_ne notTask]
      exact inv.waiters other old

/-! ### The two ends of the queue -/

/-- A task outside leaves the lock as it is when it stays outside. -/
theorem QueueInv.outside (inv : QueueInv s) (pc : s.pc task ≠ .ioqWait) (notWaiting : task ∉ s.waiters)
    {returned : List UInt8} {tail : Nat}
    (fifo : ∃ queue, s.accepted = returned ++ queue ∧ RingHolds bufsize s.buf s.head tail queue) :
    QueueInv { s with
      returned := returned, tail := tail, pc := Function.update s.pc task .outside } := by
  have others : ∀ other, Function.update s.pc task QueuePc.outside other = .ioqWait →
      s.pc other = .ioqWait := by
    intro other waits
    by_cases same : other = task
    · rw [same, Function.update_self] at waits
      cases waits
    · rwa [Function.update_of_ne same] at waits
  refine ⟨fifo, inv.producer, ?_, ?_, inv.nodup⟩
  · rcases inv.lock with free | ⟨owner, held⟩
    · exact .inl ⟨free.value, free.holder, free.holderRepeatNr, free.consumer,
        fun other waits => free.pc other (others other waits)⟩
    · have apart : owner ≠ task := fun eq => pc (eq ▸ held.ownerPc)
      refine .inr ⟨owner, held.value, held.holder, held.holderRepeatNr, ?_, ?_, held.sleeps⟩
      · simp only [Function.update_of_ne apart]
        exact held.ownerPc
      · exact fun other waits => held.only other (others other waits)
  · intro other mem
    have ne : other ≠ task := fun eq => notWaiting (eq ▸ mem)
    simp only [Function.update_of_ne ne]
    exact inv.waiters other mem

theorem ioqGetchar_spec (inv : QueueInv s) (ready : s.status task = .ready)
    (pc : s.pc task ≠ .ioqWait) :
    ∃ t, s.ioqGetchar task = .ok t ∧ QueueInv t ∧
      ((t.head = s.head ∧ t.tail = s.tail ∧ s.ioqEmpty) ∨ (t.consumer = s.consumer ∧ ¬s.ioqEmpty)) := by
  have notWaiting := inv.notWaiting ready
  unfold QueueState.ioqGetchar
  by_cases empty : s.ioqEmpty
  · rw [if_pos empty]
    have notHolder : s.holder ≠ some task := by
      rcases inv.lock with free | ⟨owner, held⟩
      · rw [free.holder]
        exact fun eq => nomatch eq
      · rw [held.holder]
        exact fun eq => pc (Option.some.inj eq ▸ held.ownerPc)
    rw [QueueState.acquireAndWait, if_pos notHolder]
    obtain ⟨t, eq, invT, head, tail, _⟩ := downAndWait_spec inv notWaiting pc
    exact ⟨t, eq, invT, .inl ⟨head, tail, empty⟩⟩
  · rw [if_neg empty]
    obtain ⟨queue, accepted, holds⟩ := inv.fifo
    cases queue with
    | nil => exact absurd (holds.empty_iff.mpr rfl) empty
    | cons byte rest =>
        obtain ⟨read, popped⟩ := holds.pop
        have noProducer : ¬s.producer.isSome = true := by simp [inv.producer]
        refine ⟨_, if_neg noProducer, ?_, .inr ⟨rfl, empty⟩⟩
        apply inv.outside pc notWaiting
        refine ⟨rest, ?_, popped⟩
        rw [accepted, read, List.append_assoc]
        rfl

theorem intrKeyboardHandler_spec (inv : QueueInv s) (curChar : UInt8) :
    ∃ t, s.intrKeyboardHandler curChar = .ok t ∧ QueueInv t ∧ (t = s ∨ t.consumer = none) := by
  unfold QueueState.intrKeyboardHandler QueueState.ioqPutchar
  by_cases full : s.ioqFull
  · rw [if_neg (not_not_intro full)]
    exact ⟨s, rfl, inv, .inl rfl⟩
  · rw [if_pos full, if_neg full]
    obtain ⟨queue, accepted, holds⟩ := inv.fifo
    have room : queue.length + 1 < bufsize := by
      have notFull : queue.length + 1 ≠ bufsize := fun eq => full (holds.full_iff.mpr eq)
      have := holds.room
      omega
    have fifo : ∃ queue, s.accepted ++ [curChar] = s.returned ++ queue ∧
        RingHolds bufsize (Function.update s.buf s.head curChar) (nextPos s.head) s.tail queue := by
      refine ⟨queue ++ [curChar], ?_, holds.push room curChar⟩
      rw [accepted, List.append_assoc]
    rcases inv.lock with free | ⟨owner, held⟩
    · have noConsumer : ¬s.consumer.isSome = true := by simp [free.consumer]
      refine ⟨_, if_neg noConsumer, ?_, .inr free.consumer⟩
      exact ⟨fifo, inv.producer, .inl ⟨free.value, free.holder, free.holderRepeatNr, free.consumer,
        free.pc⟩, inv.waiters, inv.nodup⟩
    · rcases held.sleeps with ⟨consumer, blocked⟩ | ⟨consumer, ready⟩
      · -- the consumer is woken
        have notWaiting := inv.holder_notWaiting held.ownerPc
        have isConsumer : s.consumer.isSome = true := by simp [consumer]
        refine ⟨{ s with
          buf := Function.update s.buf s.head curChar
          head := nextPos s.head
          accepted := s.accepted ++ [curChar]
          consumer := none
          status := Function.update s.status owner .ready }, ?_, ?_, .inr rfl⟩
        · refine (if_pos isConsumer).trans ?_
          simp only [consumer, QueueState.wakeup, QueueState.threadUnblock, blocked, if_true, bind,
            Except.bind]
        refine ⟨fifo, inv.producer, .inr ⟨owner, held.value, held.holder, held.holderRepeatNr,
          held.ownerPc, held.only, .inr ⟨rfl, Function.update_self ..⟩⟩, ?_, inv.nodup⟩
        intro other mem
        have ne : other ≠ owner := fun eq => notWaiting (eq ▸ mem)
        simp only [Function.update_of_ne ne]
        exact inv.waiters other mem
      · have noConsumer : ¬s.consumer.isSome = true := by simp [consumer]
        refine ⟨_, if_neg noConsumer, ?_, .inr consumer⟩
        exact ⟨fifo, inv.producer, .inr ⟨owner, held.value, held.holder, held.holderRepeatNr,
          held.ownerPc, held.only, .inr ⟨consumer, ready⟩⟩, inv.waiters, inv.nodup⟩

/-! ### One step -/

/-- While a task sleeps as the consumer, the queue is empty. -/
def ConsumerWaits (s : QueueState Task) : Prop := s.consumer ≠ none → s.ioqEmpty

/-- A task that waited for the lock and now gets it finds the queue empty. -/
def LockFoundEmpty (s : QueueState Task) : QueueEvent Task → Prop
  | .run task => s.pc task = .semaDown → s.value ≠ 0 → s.ioqEmpty
  | _ => True

omit [DecidableEq Task] in
theorem ConsumerWaits.of_getchar (waits : ConsumerWaits s)
    (result : (t.head = s.head ∧ t.tail = s.tail ∧ s.ioqEmpty) ∨ (t.consumer = s.consumer ∧ ¬s.ioqEmpty)) :
    ConsumerWaits t := by
  intro sleeps
  rcases result with ⟨head, tail, empty⟩ | ⟨consumer, notEmpty⟩
  · unfold QueueState.ioqEmpty
    rw [head, tail]
    exact empty
  · exact absurd (waits (consumer ▸ sleeps)) notEmpty

/-- An event keeps the invariant; it makes the consumer sleep over bytes only when
it is the one that `LockFoundEmpty` excludes. -/
theorem QueueInv.exec (inv : QueueInv s) {event : QueueEvent Task} (enabled : QueueEnabled s event) :
    ∃ t, queueExec s event = .ok t ∧ QueueInv t ∧
      (ConsumerWaits s → (ConsumerWaits t ↔ LockFoundEmpty s event)) := by
  cases event with
  | key curChar =>
      obtain ⟨t, eq, invT, result⟩ := intrKeyboardHandler_spec inv curChar
      refine ⟨t, eq, invT, fun waits => iff_of_true ?_ trivial⟩
      rcases result with rfl | none
      · exact waits
      · exact fun sleeps => absurd none sleeps
  | getchar task =>
      obtain ⟨outside, ready⟩ := enabled
      obtain ⟨t, eq, invT, result⟩ := ioqGetchar_spec inv ready (by rw [outside]; decide)
      exact ⟨t, eq, invT, fun waits => iff_of_true (waits.of_getchar result) trivial⟩
  | run task =>
      obtain ⟨inside, ready⟩ := enabled
      cases pc : s.pc task with
      | outside => exact absurd pc inside
      | semaDown =>
          obtain ⟨t, eq, invT, head, tail, consumer⟩ :=
            downAndWait_spec inv (inv.notWaiting ready) (by rw [pc]; decide)
          refine ⟨t, ?_, invT, fun waits => ?_⟩
          · simp only [queueExec, QueueState.resume, pc]
            exact eq
          simp only [ConsumerWaits, LockFoundEmpty, QueueState.ioqEmpty, head, tail, consumer, pc,
            forall_const] at waits ⊢
          by_cases free : s.value = 0
          · simpa [free] using waits
          · simp [free]
      | ioqWait =>
          obtain ⟨awake, released, releaseEq, _, _, consumer, readyR, invR⟩ :=
            lockRelease_spec inv pc ready
          obtain ⟨t, eq, invT, result⟩ := @ioqGetchar_spec _ _ _ task invR readyR (by simp)
          rw [ioqGetchar_setPc] at eq
          refine ⟨t, ?_, invT, fun _ => ?_⟩
          · simp only [queueExec, QueueState.resume, pc, releaseEq, bind, Except.bind]
            exact eq
          refine iff_of_true ?_ (by simp [LockFoundEmpty, pc])
          apply ConsumerWaits.of_getchar _ result
          exact fun sleeps => absurd consumer sleeps

/-! ### Runs -/

theorem QueueRun.inv {trace : List (QueueState Task × QueueEvent Task)} (run : QueueRun trace s) :
    QueueInv s := by
  induction run with
  | start initial => exact initial.inv
  | step _ enabled eq inv =>
      obtain ⟨t, eq', invT, _⟩ := inv.exec enabled
      rw [eq] at eq'
      cases eq'
      exact invT

/-- In every run, what has been returned is a beginning of what has been accepted,
the rest is in the buffer, and no `ASSERT` fails. -/
theorem ioqueue_fifo {trace : List (QueueState Task × QueueEvent Task)} {s : QueueState Task}
    (run : QueueRun trace s) :
    s.returned <+: s.accepted ∧
      s.accepted.length - s.returned.length ≤ 63 ∧
      (∀ i, s.returned.length + i < s.accepted.length →
        s.accepted[s.returned.length + i]? = some (s.buf ((s.tail + i) % 64))) ∧
      s.head < 64 ∧ s.tail < 64 ∧
      ∀ event, QueueEnabled s event → ∃ t, queueExec s event = .ok t := by
  have inv := run.inv
  obtain ⟨queue, accepted, holds⟩ := inv.fifo
  have length : s.accepted.length = s.returned.length + queue.length := by
    rw [accepted, List.length_append]
  have room : queue.length < 64 := holds.room
  refine ⟨⟨queue, accepted.symm⟩, by omega, ?_, holds.head_lt, holds.tail_lt, ?_⟩
  · intro i inside
    rw [accepted, List.getElem?_append_right (by omega), Nat.add_sub_cancel_left]
    exact holds.slots i (by omega)
  · intro event enabled
    obtain ⟨t, eq, _⟩ := inv.exec enabled
    exact ⟨t, eq⟩

/-- The queue after `ioqueue_init`, with tasks named by numbers. -/
def bootQueue : QueueState Nat where
  value := 1
  waiters := []
  holder := none
  holderRepeatNr := 0
  producer := none
  consumer := none
  buf := fun _ => 0
  head := 0
  tail := 0
  status := fun _ => .ready
  pc := fun _ => .outside
  accepted := []
  returned := []

theorem bootQueue_initial : QueueInitial bootQueue :=
  ⟨rfl, rfl, rfl, rfl, rfl, rfl, rfl, rfl, fun _ => rfl, fun _ => rfl, rfl, rfl⟩

/-- Two keys are pressed and one byte is read. -/
theorem ioqueue_fifo_two_keys :
    ∃ (trace : List (QueueState Nat × QueueEvent Nat)) (s : QueueState Nat), QueueRun trace s ∧
      s.accepted = [97, 98] ∧ s.returned = [97] ∧ s.returned <+: s.accepted := by
  have run := @QueueRun.step _ _ _ _ _ (.key 97) (.start bootQueue_initial) trivial rfl
  have run := @QueueRun.step _ _ _ _ _ (.key 98) run trivial rfl
  have run := @QueueRun.step _ _ _ _ _ (.getchar 0) run ⟨rfl, rfl⟩ rfl
  exact ⟨_, _, run, rfl, rfl, (ioqueue_fifo run).1⟩

/-- In every run, no consumer sleeps while there are bytes, exactly as long as every
task that waited for the lock finds the queue empty when it gets it. -/
theorem consumer_sleeps_iff {trace : List (QueueState Task × QueueEvent Task)} {s : QueueState Task}
    (run : QueueRun trace s) :
    (∀ state ∈ trace.map Prod.fst ++ [s], ConsumerWaits state) ↔
      ∀ step ∈ trace, LockFoundEmpty step.1 step.2 := by
  induction run with
  | start initial =>
      simp only [List.map_nil, List.nil_append, List.mem_singleton, forall_eq, List.not_mem_nil,
        false_implies, implies_true, iff_true]
      exact fun sleeps => absurd initial.consumer sleeps
  | @step trace s t event run enabled eq inductionHypothesis =>
      obtain ⟨t', eq', _, waits⟩ := run.inv.exec enabled
      rw [eq] at eq'
      cases eq'
      simp only [List.map_append, List.map_cons, List.map_nil, List.mem_append, List.mem_singleton,
        or_imp, forall_and, forall_eq] at inductionHypothesis ⊢
      rw [← inductionHypothesis]
      constructor
      · rintro ⟨⟨before, last⟩, after⟩
        exact ⟨⟨before, last⟩, (waits last).mp after⟩
      · rintro ⟨⟨before, last⟩, found⟩
        exact ⟨⟨before, last⟩, (waits last).mpr found⟩

/-- A task sleeps, is woken by a key and reads it. -/
theorem consumer_sleeps_once :
    ∃ (trace : List (QueueState Nat × QueueEvent Nat)) (s : QueueState Nat), QueueRun trace s ∧
      trace.length = 3 ∧ ∀ state ∈ trace.map Prod.fst ++ [s], ConsumerWaits state := by
  have run := @QueueRun.step _ _ _ _ _ (.getchar 0) (.start bootQueue_initial) ⟨rfl, rfl⟩ rfl
  have run := @QueueRun.step _ _ _ _ _ (.key 97) run trivial rfl
  have run := @QueueRun.step _ _ _ _ _ (.run 0) run ⟨by decide, rfl⟩ rfl
  refine ⟨_, _, run, rfl, (consumer_sleeps_iff run).mpr ?_⟩
  intro step mem
  simp only [List.nil_append, List.cons_append, List.mem_cons, List.not_mem_nil, or_false] at mem
  rcases mem with rfl | rfl | rfl
  · trivial
  · trivial
  · exact fun down => nomatch down

/-- Task 0 sleeps as the consumer and task 1 waits for the lock. Two keys are pressed
before task 0 runs; it reads the first byte. Task 1 then gets the lock and goes to
sleep over the second. -/
theorem consumer_sleeps_over_byte :
    ∃ (trace : List (QueueState Nat × QueueEvent Nat)) (s : QueueState Nat), QueueRun trace s ∧
      s.consumer = some 1 ∧ s.accepted = [97, 98] ∧ s.returned = [97] ∧ ¬ConsumerWaits s := by
  have run := @QueueRun.step _ _ _ _ _ (.getchar 0) (.start bootQueue_initial) ⟨rfl, rfl⟩ rfl
  have run := @QueueRun.step _ _ _ _ _ (.getchar 1) run ⟨rfl, rfl⟩ rfl
  have run := @QueueRun.step _ _ _ _ _ (.key 97) run trivial rfl
  have run := @QueueRun.step _ _ _ _ _ (.key 98) run trivial rfl
  have run := @QueueRun.step _ _ _ _ _ (.run 0) run ⟨by decide, rfl⟩ rfl
  have run := @QueueRun.step _ _ _ _ _ (.run 1) run ⟨by decide, rfl⟩ rfl
  refine ⟨_, _, run, rfl, rfl, rfl, ?_⟩
  intro waits
  exact absurd (waits (fun none => nomatch none)) (by decide)

end ZyOs.Device
