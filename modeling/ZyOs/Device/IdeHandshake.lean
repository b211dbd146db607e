import ZyOs.Device.IdeChannel

/-!
Contract: the handshake of a disk command, in every run on a channel.

The lock lets one task at a time be between `cmd_out` and its `sema_down`. While
none is, no interrupt is expected and `disk_done` is 0, so interrupts are ignored;
once `expecting_intr` is set the first interrupt raises `disk_done` and the later
ones are ignored again, until the task has taken it.

`cmd_out` sets `expecting_intr` before it writes the command register. An
interrupt that comes in between is taken for the one of the command: the task's
`sema_down` returns, and the interrupt of the command is ignored.
-/

namespace ZyOs.Device

variable {Task : Type} {s t : ChannelState Task} {task : Task}

/-! ### The invariant -/

/-- How far the handshake is. -/
inductive Handshake (s : ChannelState Task) : Prop where
  | quiet (expecting : s.expectingIntr = false) (value : s.value = 0) (waiters : s.waiters = [])
      (awake : ∀ task, s.blocked task = false) (none : ∀ task, (s.pc task).awaits = false)
  /-- The interrupt is expected, and the task is not asleep yet. -/
  | sent (task : Task) (awaits : (s.pc task).awaits = true) (expecting : s.expectingIntr = true)
      (value : s.value = 0) (waiters : s.waiters = []) (awake : ∀ task, s.blocked task = false)
  /-- The task sleeps in `sema_down`. -/
  | asleep (task : Task) (call : IdeCall) (pc : s.pc task = .semaDown call)
      (expecting : s.expectingIntr = true) (value : s.value = 0) (waiters : s.waiters = [task])
      (asleep : s.blocked task = true) (awake : ∀ other, other ≠ task → s.blocked other = false)
  /-- The interrupt has come, after `expecting_intr` was set. -/
  | raised (task : Task) (awaits : (s.pc task).awaits = true) (expecting : s.expectingIntr = false)
      (value : s.value = 1) (waiters : s.waiters = []) (awake : ∀ task, s.blocked task = false)
      (after : s.flagAt task < s.upAt)

structure ChannelInv (s : ChannelState Task) : Prop where
  lock : ∀ task, (s.pc task).locked = true ↔ s.lock = some task
  flagAt_lt : ∀ task, (s.pc task).awaits = true → s.flagAt task < s.clock
  upAt_lt : s.value = 1 → s.upAt < s.clock
  handshake : Handshake s
  released : ∀ release ∈ s.released,
    release.flagAt < release.upAt ∧ release.upAt < release.downAt

theorem IdePc.locked_of_awaits {pc : IdePc} (awaits : pc.awaits = true) : pc.locked = true := by
  cases pc <;> first | rfl | cases awaits

theorem ChannelInitial.inv (initial : ChannelInitial s) : ChannelInv s where
  lock := by
    intro task
    rw [initial.pc, initial.lock]
    exact ⟨(fun locked => nomatch locked), (fun holder => nomatch holder)⟩
  flagAt_lt := by
    intro task awaits
    rw [initial.pc] at awaits
    cases awaits
  upAt_lt := by
    rw [initial.value]
    exact fun one => nomatch one
  handshake := by
    refine .quiet initial.expectingIntr initial.value initial.waiters initial.blocked ?_
    intro task
    rw [initial.pc]
    rfl
  released := by
    rw [initial.released]
    exact fun _ none => nomatch none

/-- At most one task has sent a command. -/
theorem ChannelInv.awaits_unique (inv : ChannelInv s) {other : Task}
    (awaits : (s.pc task).awaits = true) (otherAwaits : (s.pc other).awaits = true) : task = other := by
  have holder := (inv.lock task).mp (IdePc.locked_of_awaits awaits)
  have otherHolder := (inv.lock other).mp (IdePc.locked_of_awaits otherAwaits)
  rw [holder] at otherHolder
  exact Option.some.inj otherHolder

/-- Only a task that has sent a command is asleep. -/
theorem Handshake.awake (handshake : Handshake s) (pc : (s.pc task).awaits = false) :
    s.blocked task = false := by
  cases handshake with
  | quiet _ _ _ awake _ => exact awake task
  | sent _ _ _ _ _ awake => exact awake task
  | raised _ _ _ _ _ awake _ => exact awake task
  | asleep sleeper call at_ _ _ _ _ awake =>
      apply awake
      rintro rfl
      rw [at_] at pc
      cases pc

/-- The fields that the handshake is about. -/
theorem Handshake.congr (handshake : Handshake s) (expecting : t.expectingIntr = s.expectingIntr)
    (value : t.value = s.value) (waiters : t.waiters = s.waiters) (blocked : t.blocked = s.blocked)
    (pc : t.pc = s.pc) (flagAt : t.flagAt = s.flagAt) (upAt : t.upAt = s.upAt) : Handshake t := by
  cases handshake with
  | quiet e v w awake none =>
      exact .quiet (expecting.trans e) (value.trans v) (waiters.trans w) (blocked ▸ awake) (pc ▸ none)
  | sent task awaits e v w awake =>
      exact .sent task (pc ▸ awaits) (expecting.trans e) (value.trans v) (waiters.trans w)
        (blocked ▸ awake)
  | asleep task call at_ e v w asleep awake =>
      exact .asleep task call (pc ▸ at_) (expecting.trans e) (value.trans v) (waiters.trans w)
        (blocked ▸ asleep) (blocked ▸ awake)
  | raised task awaits e v w awake after =>
      exact .raised task (pc ▸ awaits) (expecting.trans e) (value.trans v) (waiters.trans w)
        (blocked ▸ awake) (flagAt ▸ upAt ▸ after)

section

variable [DecidableEq Task]

/-- A task that stays on its side of the lock. -/
theorem locked_update {pcs : Task → IdePc} {holder : Option Task}
    (lock : ∀ task, (pcs task).locked = true ↔ holder = some task) {pc : IdePc}
    (same : pc.locked = (pcs task).locked) (other : Task) :
    (Function.update pcs task pc other).locked = true ↔ holder = some other := by
  by_cases own : other = task
  · rw [own, Function.update_self, same]
    exact lock task
  · rw [Function.update_of_ne own]
    exact lock other

theorem setPc_self (s : ChannelState Task) (task : Task) (pc : IdePc) :
    (s.setPc task pc).pc task = pc := Function.update_self ..

theorem setPc_other (s : ChannelState Task) {task other : Task} (ne : other ≠ task) (pc : IdePc) :
    (s.setPc task pc).pc other = s.pc other := Function.update_of_ne ne ..

/-- A statement that neither sends a command nor ends a `sema_down`. -/
theorem Handshake.setPc (handshake : Handshake s) {pc : IdePc} (awake : s.blocked task = false)
    (same : pc.awaits = (s.pc task).awaits) : Handshake (s.setPc task pc) := by
  have awaits : ∀ other, ((s.setPc task pc).pc other).awaits = (s.pc other).awaits := by
    intro other
    by_cases own : other = task
    · rw [own, setPc_self, same]
    · rw [setPc_other s own]
  cases handshake with
  | quiet e v w awake none => exact .quiet e v w awake fun other => (awaits other).trans (none other)
  | sent sender isSender e v w awake => exact .sent sender ((awaits sender).trans isSender) e v w awake
  | asleep sleeper call at_ e v w asleep others =>
      have ne : sleeper ≠ task := by
        rintro rfl
        rw [awake] at asleep
        cases asleep
      exact .asleep sleeper call ((setPc_other s ne pc).trans at_) e v w asleep others
  | raised sender isSender e v w awake after =>
      exact .raised sender ((awaits sender).trans isSender) e v w awake after

/-- Such a statement, with what it does to the lock. -/
theorem ChannelInv.setLock (inv : ChannelInv s) {pc : IdePc} {holder : Option Task}
    (awake : s.blocked task = false) (same : pc.awaits = (s.pc task).awaits)
    (lock : ∀ other, (Function.update s.pc task pc other).locked = true ↔ holder = some other) :
    ChannelInv (ChannelState.setPc { s with lock := holder } task pc) where
  lock := lock
  flagAt_lt := by
    intro other awaits
    by_cases own : other = task
    · rw [own, setPc_self, same] at awaits
      rw [own]
      exact inv.flagAt_lt task awaits
    · rw [setPc_other _ own] at awaits
      exact inv.flagAt_lt other awaits
  upAt_lt := inv.upAt_lt
  handshake := (inv.handshake.setPc awake same).congr rfl rfl rfl rfl rfl rfl rfl
  released := inv.released

theorem ChannelInv.setPc (inv : ChannelInv s) {pc : IdePc} (awake : s.blocked task = false)
    (sameAwaits : pc.awaits = (s.pc task).awaits) (sameLocked : pc.locked = (s.pc task).locked) :
    ChannelInv (s.setPc task pc) :=
  inv.setLock awake sameAwaits (locked_update inv.lock sameLocked)

end

theorem ChannelInv.tick (inv : ChannelInv s) : ChannelInv s.tick where
  lock := inv.lock
  flagAt_lt := fun task awaits => Nat.lt_succ_of_lt (inv.flagAt_lt task awaits)
  upAt_lt := fun one => Nat.lt_succ_of_lt (inv.upAt_lt one)
  handshake := inv.handshake.congr rfl rfl rfl rfl rfl rfl rfl
  released := inv.released

/-- When the command was written plays no part in the handshake. -/
theorem ChannelInv.stampCmd (inv : ChannelInv s) (cmdAt : Task → Nat) :
    ChannelInv { s with cmdAt := cmdAt } where
  lock := inv.lock
  flagAt_lt := inv.flagAt_lt
  upAt_lt := inv.upAt_lt
  handshake := inv.handshake.congr rfl rfl rfl rfl rfl rfl rfl
  released := inv.released

/-! ### One step -/

variable [DecidableEq Task]

/-- An interrupt that is expected raises `disk_done`; the others do nothing. -/
theorem ChannelInv.interrupt (inv : ChannelInv s) :
    ∃ t, s.intrHdHandler = .ok t ∧ ChannelInv t.tick := by
  unfold ChannelState.intrHdHandler ChannelState.semaUp
  cases inv.handshake with
  | quiet expecting _ _ _ _ =>
      rw [expecting]
      exact ⟨s, rfl, inv.tick⟩
  | raised _ _ expecting _ _ _ _ =>
      rw [expecting]
      exact ⟨s, rfl, inv.tick⟩
  | sent sender awaits expecting value waiters awake =>
      refine ⟨{ s with expectingIntr := false, value := 1, upAt := s.clock }, ?_, ?_⟩
      · simp only [expecting, value, waiters, if_true]
      · refine ⟨inv.lock, fun task awaits => Nat.lt_succ_of_lt (inv.flagAt_lt task awaits),
          fun _ => Nat.lt_succ_self _, ?_, inv.released⟩
        exact .raised sender awaits rfl rfl waiters awake (inv.flagAt_lt sender awaits)
  | asleep sleeper call pc expecting value waiters asleep others =>
      have awaits : (s.pc sleeper).awaits = true := by rw [pc]; rfl
      refine ⟨{ s with
        expectingIntr := false, value := 1, upAt := s.clock, waiters := []
        blocked := Function.update s.blocked sleeper false }, ?_, ?_⟩
      · simp only [expecting, value, waiters, asleep, if_true]
      · refine ⟨inv.lock, fun task awaits => Nat.lt_succ_of_lt (inv.flagAt_lt task awaits),
          fun _ => Nat.lt_succ_self _, ?_, inv.released⟩
        refine .raised sleeper awaits rfl rfl rfl ?_ (inv.flagAt_lt sleeper awaits)
        intro other
        by_cases own : other = sleeper
        · rw [own]
          exact Function.update_self ..
        · exact (Function.update_of_ne own ..).trans (others other own)

omit [DecidableEq Task] in
/-- While a task is at a statement outside the handshake, the channel is quiet. -/
theorem ChannelInv.quiet (inv : ChannelInv s) (locked : (s.pc task).locked = true)
    (outside : (s.pc task).awaits = false) :
    s.expectingIntr = false ∧ s.value = 0 ∧ s.waiters = [] ∧ (∀ task, s.blocked task = false) ∧
      ∀ task, (s.pc task).awaits = false := by
  have notAwaits : ∀ other, (s.pc other).awaits = true → False := by
    intro other awaits
    have holder := (inv.lock task).mp locked
    have otherHolder := (inv.lock other).mp (IdePc.locked_of_awaits awaits)
    rw [holder] at otherHolder
    rw [Option.some.inj otherHolder, awaits] at outside
    cases outside
  cases inv.handshake with
  | quiet expecting value waiters awake none => exact ⟨expecting, value, waiters, awake, none⟩
  | sent sender awaits => exact (notAwaits sender awaits).elim
  | raised sender awaits => exact (notAwaits sender awaits).elim
  | asleep sleeper call pc => exact (notAwaits sleeper (by rw [pc]; rfl)).elim

/-- The first statement of `cmd_out` starts the handshake. -/
theorem ChannelInv.cmdFlag (inv : ChannelInv s) {call : IdeCall} (pc : s.pc task = .cmdFlag call) :
    ChannelInv (ChannelState.setPc { s with
      expectingIntr := true
      flagAt := Function.update s.flagAt task s.clock } task (.cmdPort call)).tick := by
  obtain ⟨_, value, waiters, awake, none⟩ :=
    @ChannelInv.quiet _ s task inv (by rw [pc]; rfl) (by rw [pc]; rfl)
  have started : Function.update s.flagAt task s.clock task < s.clock + 1 := by
    rw [Function.update_self]
    exact Nat.lt_succ_self _
  refine ⟨locked_update inv.lock (by rw [pc]; rfl), ?_, ?_, ?_, inv.released⟩
  · intro other awaits
    by_cases own : other = task
    · rw [own]
      exact started
    · have before : (s.pc other).awaits = true := by
        rwa [← setPc_other s own (.cmdPort call)]
      rw [none other] at before
      cases before
  · intro one
    have notZero : s.value = 1 := one
    rw [value] at notZero
    cases notZero
  · exact .sent task (congrArg IdePc.awaits (setPc_self s task (.cmdPort call))) rfl value waiters awake

/-- The end of `sema_down`: the handshake is over. -/
theorem ChannelInv.taken (inv : ChannelInv s) (awaits : (s.pc task).awaits = true)
    (expecting : s.expectingIntr = false) (value : s.value = 1) (waiters : s.waiters = [])
    (awake : ∀ task, s.blocked task = false) (after : s.flagAt task < s.upAt) {next : IdePc}
    (nextAwaits : next.awaits = false) (nextLocked : next.locked = true) :
    ChannelInv (ChannelState.setPc { s with
      value := s.value - 1
      released := s.released ++ [⟨task, s.flagAt task, s.cmdAt task, s.upAt, s.clock⟩] } task next).tick := by
  have othersQuiet : ∀ other, (Function.update s.pc task next other).awaits = false := by
    intro other
    by_cases own : other = task
    · rw [own, Function.update_self, nextAwaits]
    · rw [Function.update_of_ne own]
      by_contra notFalse
      exact own (inv.awaits_unique (by simpa using notFalse) awaits)
  have zero : s.value - 1 = 0 := by rw [value]
  refine ⟨locked_update inv.lock (nextLocked.trans (IdePc.locked_of_awaits awaits).symm), ?_, ?_, ?_, ?_⟩
  · intro other otherAwaits
    have never := (othersQuiet other).symm.trans otherAwaits
    cases never
  · intro one
    have never := zero.symm.trans one
    cases never
  · exact .quiet expecting zero waiters awake othersQuiet
  · intro release mem
    rcases List.mem_append.mp mem with old | new
    · exact inv.released release old
    · rw [List.mem_singleton.mp new]
      exact ⟨after, inv.upAt_lt value⟩

/-- `sema_down` of a task that is not asleep: it goes to sleep, or takes what the
interrupt has raised. -/
theorem ChannelInv.semaDown (inv : ChannelInv s) {call : IdeCall} (pc : s.pc task = .semaDown call)
    (awake : s.blocked task = false) : ∃ t, s.semaDown task call = .ok t ∧ ChannelInv t.tick := by
  have awaits : (s.pc task).awaits = true := by rw [pc]; rfl
  unfold ChannelState.semaDown
  cases inv.handshake with
  | quiet _ _ _ _ none =>
      rw [none task] at awaits
      cases awaits
  | asleep sleeper call' at_ _ _ _ asleep _ =>
      obtain rfl := inv.awaits_unique awaits (by rw [at_]; rfl)
      rw [awake] at asleep
      cases asleep
  | sent sender senderAwaits expecting value waiters allAwake =>
      obtain rfl := inv.awaits_unique awaits senderAwaits
      rw [if_pos value, waiters, if_neg List.not_mem_nil]
      refine ⟨_, rfl, inv.lock, fun other awaits => Nat.lt_succ_of_lt (inv.flagAt_lt other awaits),
        fun one => Nat.lt_succ_of_lt (inv.upAt_lt one), ?_, inv.released⟩
      refine .asleep task call pc expecting value rfl (Function.update_self ..) ?_
      intro other ne
      exact (Function.update_of_ne ne ..).trans (allAwake other)
  | raised sender senderAwaits expecting value waiters allAwake after =>
      obtain rfl := inv.awaits_unique awaits senderAwaits
      have notZero : ¬s.value = 0 := by rw [value]; decide
      rw [if_neg notZero, if_pos (by rw [value])]
      refine ⟨_, rfl, inv.taken awaits expecting value waiters allAwake after ?_ ?_⟩
      · cases op : call.op <;> simp [IdePc.awaits, op]
      · cases op : call.op <;> rfl

/-- Every statement keeps the invariant and fails no `ASSERT`. -/
theorem ChannelInv.statement (inv : ChannelInv s) (inside : s.pc task ≠ .outside)
    (awake : s.blocked task = false) : ∃ t, s.statement task = .ok t ∧ ChannelInv t.tick := by
  unfold ChannelState.statement
  cases pc : s.pc task with
  | outside => exact absurd pc inside
  | lockAcquire call =>
      by_cases free : s.lock = none
      · refine ⟨_, if_pos free, (inv.setLock awake (by rw [pc]; rfl) ?_).tick⟩
        intro other
        by_cases own : other = task
        · rw [own, Function.update_self]
          exact iff_of_true rfl rfl
        · rw [Function.update_of_ne own, inv.lock other, free]
          exact iff_of_false (fun eq => nomatch eq) (fun eq => own (Option.some.inj eq).symm)
      · exact ⟨s, if_neg free, inv.tick⟩
  | loop call =>
      by_cases more : call.secsDone < call.secCnt
      · exact ⟨_, if_pos more, (inv.setPc awake (by rw [pc]; rfl) (by rw [pc]; rfl)).tick⟩
      · exact ⟨_, if_neg more, (inv.setPc awake (by rw [pc]; rfl) (by rw [pc]; rfl)).tick⟩
  | cmdFlag call => exact ⟨_, rfl, inv.cmdFlag pc⟩
  | cmdPort call =>
      have sent := inv.stampCmd (Function.update s.cmdAt task s.clock)
      refine ⟨_, rfl, (sent.setPc awake ?_ ?_).tick⟩
      · show _ = (s.pc task).awaits
        rw [pc]
        cases op : call.op <;> simp [IdePc.awaits, op]
      · show _ = (s.pc task).locked
        rw [pc]
        cases op : call.op <;> rfl
  | busyWait call => exact ⟨_, rfl, (inv.setPc awake (by rw [pc]; rfl) (by rw [pc]; rfl)).tick⟩
  | transfer call =>
      refine ⟨_, rfl, (inv.setPc awake ?_ ?_).tick⟩
      · rw [pc]
        cases op : call.op <;> simp [IdePc.awaits, op]
      · rw [pc]
        cases op : call.op <;> rfl
  | semaDown call => exact inv.semaDown pc awake
  | advance call => exact ⟨_, rfl, (inv.setPc awake (by rw [pc]; rfl) (by rw [pc]; rfl)).tick⟩
  | lockRelease call =>
      have holder : s.lock = some task := (inv.lock task).mp (by rw [pc]; rfl)
      refine ⟨_, if_pos holder, (inv.setLock awake (by rw [pc]; rfl) ?_).tick⟩
      intro other
      by_cases own : other = task
      · rw [own, Function.update_self]
        exact iff_of_false (fun eq => nomatch eq) (fun eq => nomatch eq)
      · rw [Function.update_of_ne own, inv.lock other, holder]
        exact iff_of_false (fun eq => own (Option.some.inj eq).symm) (fun eq => nomatch eq)

theorem ChannelInv.exec (inv : ChannelInv s) {event : ChannelEvent Task}
    (enabled : ChannelEnabled s event) : ∃ t, channelExec s event = .ok t ∧ ChannelInv t := by
  cases event with
  | interrupt =>
      obtain ⟨t, eq, invT⟩ := inv.interrupt
      exact ⟨t.tick, by simp only [channelExec, eq]; rfl, invT⟩
  | call task op secCnt =>
      have awake : s.blocked task = false := inv.handshake.awake (by rw [enabled.1]; rfl)
      exact ⟨_, rfl, (inv.setPc awake (by rw [enabled.1]; rfl) (by rw [enabled.1]; rfl)).tick⟩
  | run task =>
      obtain ⟨t, eq, invT⟩ := inv.statement enabled.1 enabled.2
      exact ⟨t.tick, by simp only [channelExec, eq]; rfl, invT⟩

/-! ### Runs -/

theorem ChannelReachable.inv (reachable : ChannelReachable s) : ChannelInv s := by
  induction reachable with
  | start initial => exact initial.inv
  | step _ enabled eq inv =>
      obtain ⟨t, eq', invT⟩ := inv.exec enabled
      rw [eq] at eq'
      cases eq'
      exact invT

theorem ChannelCalm.reachable (calm : ChannelCalm s) : ChannelReachable s := by
  induction calm with
  | start initial => exact .start initial
  | step _ enabled _ eq inductionHypothesis => exact .step inductionHypothesis enabled eq

/-! ### The command -/

/-- The interrupt that has raised `disk_done` came after the command was written. -/
structure CommandInv (s : ChannelState Task) : Prop where
  sent : ∀ task, (s.pc task).commanded = true → s.cmdAt task < s.clock
  raised : s.value = 1 → ∀ task, (s.pc task).awaits = true →
    (s.pc task).commanded = true ∧ s.cmdAt task < s.upAt
  released : ∀ release ∈ s.released, release.cmdAt < release.upAt

omit [DecidableEq Task] in
theorem ChannelInitial.commandInv (initial : ChannelInitial s) : CommandInv s where
  sent := by
    intro task commanded
    rw [initial.pc] at commanded
    cases commanded
  raised := by
    rw [initial.value]
    exact fun one => nomatch one
  released := by
    rw [initial.released]
    exact fun _ none => nomatch none

theorem IdePc.commanded_of_awaits {pc : IdePc} (awaits : pc.awaits = true)
    (notPort : ∀ call, pc ≠ .cmdPort call) : pc.commanded = true := by
  cases pc with
  | cmdPort call => exact absurd rfl (notPort call)
  | _ => exact awaits

namespace CommandInv

omit [DecidableEq Task] in
theorem tick (inv : CommandInv s) : CommandInv s.tick where
  sent := fun task commanded => Nat.lt_succ_of_lt (inv.sent task commanded)
  raised := inv.raised
  released := inv.released

/-- A statement between two commands, or between a command and its `sema_down`. -/
theorem setPc (inv : CommandInv s) {pc : IdePc} (sameAwaits : pc.awaits = (s.pc task).awaits)
    (sameCommanded : pc.commanded = (s.pc task).commanded) (holder : Option Task) :
    CommandInv (ChannelState.setPc { s with lock := holder } task pc) where
  sent := by
    intro other commanded
    by_cases own : other = task
    · rw [own, setPc_self, sameCommanded] at commanded
      rw [own]
      exact inv.sent task commanded
    · rw [setPc_other _ own] at commanded
      exact inv.sent other commanded
  raised := by
    intro one other awaits
    by_cases own : other = task
    · rw [own, setPc_self] at awaits ⊢
      rw [sameCommanded]
      exact inv.raised one task (sameAwaits.symm.trans awaits)
    · rw [setPc_other _ own] at awaits ⊢
      exact inv.raised one other awaits
  released := inv.released

/-- An interrupt that finds no task inside `cmd_out`. -/
theorem interrupt (inv : CommandInv s) (channel : ChannelInv s)
    (apart : ¬ InCmdOut s (.interrupt : ChannelEvent Task)) (eq : s.intrHdHandler = .ok t) :
    CommandInv t := by
  -- the task whose interrupt is expected has written its command
  have raise : ∀ sender, (s.pc sender).awaits = true → ∀ task, (s.pc task).awaits = true →
      (s.pc task).commanded = true ∧ s.cmdAt task < s.clock := by
    intro sender awaits task taskAwaits
    have commanded := IdePc.commanded_of_awaits taskAwaits fun call port => apart ⟨task, call, port⟩
    exact ⟨commanded, inv.sent task commanded⟩
  unfold ChannelState.intrHdHandler ChannelState.semaUp at eq
  cases channel.handshake with
  | quiet expecting _ _ _ _ =>
      rw [expecting] at eq
      cases eq
      exact inv
  | raised _ _ expecting _ _ _ _ =>
      rw [expecting] at eq
      cases eq
      exact inv
  | sent sender awaits expecting value waiters _ =>
      simp only [expecting, value, waiters, if_true] at eq
      cases eq
      exact ⟨inv.sent, fun _ => raise sender awaits, inv.released⟩
  | asleep sleeper call pc expecting value waiters asleep _ =>
      simp only [expecting, value, waiters, asleep, if_true] at eq
      cases eq
      exact ⟨inv.sent, fun _ => raise sleeper (by rw [pc]; rfl), inv.released⟩

/-- The first statement of `cmd_out`: the interrupt is expected, and none has been taken. -/
theorem cmdFlag (inv : CommandInv s) (channel : ChannelInv s) {call : IdeCall} (pc : s.pc task = .cmdFlag call) :
    CommandInv (ChannelState.setPc { s with
      expectingIntr := true
      flagAt := Function.update s.flagAt task s.clock } task (.cmdPort call)).tick where
  sent := by
    intro other commanded
    by_cases own : other = task
    · rw [own] at commanded
      have never := (congrArg IdePc.commanded (setPc_self s task (.cmdPort call))).symm.trans commanded
      cases never
    · have before : (s.pc other).commanded = true := by
        rwa [← setPc_other s own (.cmdPort call)]
      exact Nat.lt_succ_of_lt (inv.sent other before)
  raised := by
    intro one
    obtain ⟨_, value, _, _, none⟩ :=
      @ChannelInv.quiet _ s task channel (by rw [pc]; rfl) (by rw [pc]; rfl)
    have never : s.value = 1 := one
    rw [value] at never
    cases never
  released := inv.released

/-- The second statement of `cmd_out`: no interrupt was taken for this command yet. -/
theorem cmdPort (inv : CommandInv s) {call : IdeCall} (pc : s.pc task = .cmdPort call) {next : IdePc} :
    CommandInv (ChannelState.setPc { s with cmdAt := Function.update s.cmdAt task s.clock } task next).tick where
  sent := by
    intro other commanded
    show Function.update s.cmdAt task s.clock other < s.clock + 1
    by_cases own : other = task
    · rw [own, Function.update_self]
      exact Nat.lt_succ_self _
    · rw [Function.update_of_ne own]
      have before : (s.pc other).commanded = true := by
        rwa [← setPc_other s own next]
      exact Nat.lt_succ_of_lt (inv.sent other before)
  raised := by
    intro one
    have never := (inv.raised one task (by rw [pc]; rfl)).1
    rw [pc] at never
    cases never
  released := inv.released

/-- A finished `sema_down`. -/
theorem semaDown (inv : CommandInv s) {call : IdeCall} (pc : s.pc task = .semaDown call)
    (eq : s.semaDown task call = .ok t) : CommandInv t := by
  unfold ChannelState.semaDown at eq
  split at eq
  · split at eq
    · cases eq
    · cases eq
      exact ⟨inv.sent, inv.raised, inv.released⟩
  · split at eq
    · rename_i notZero zero
      cases eq
      have one : s.value = 1 := by omega
      have taken := (inv.raised one task (by rw [pc]; rfl)).2
      refine ⟨?_, ?_, ?_⟩
      · intro other commanded
        by_cases own : other = task
        · rw [own, setPc_self] at commanded
          cases op : call.op <;> simp [IdePc.commanded, IdePc.awaits, op] at commanded
        · rw [setPc_other _ own] at commanded
          exact inv.sent other commanded
      · intro stillOne
        have never : s.value - 1 = 1 := stillOne
        omega
      · intro release mem
        rcases List.mem_append.mp mem with old | new
        · exact inv.released release old
        · rw [List.mem_singleton.mp new]
          exact taken
    · cases eq

theorem statement (inv : CommandInv s) (channel : ChannelInv s) (eq : s.statement task = .ok t) :
    CommandInv t.tick := by
  unfold ChannelState.statement at eq
  cases pc : s.pc task with
  | outside =>
      rw [pc] at eq
      cases eq
      exact inv.tick
  | lockAcquire call =>
      simp only [pc] at eq
      split at eq
      · cases eq
        exact (inv.setPc (by rw [pc]; rfl) (by rw [pc]; rfl) _).tick
      · cases eq
        exact inv.tick
  | loop call =>
      simp only [pc] at eq
      split at eq <;> cases eq <;> exact (inv.setPc (by rw [pc]; rfl) (by rw [pc]; rfl) _).tick
  | cmdFlag call =>
      simp only [pc] at eq
      cases eq
      exact inv.cmdFlag channel pc
  | cmdPort call =>
      simp only [pc] at eq
      cases eq
      exact inv.cmdPort pc
  | busyWait call =>
      simp only [pc] at eq
      cases eq
      exact (inv.setPc (by rw [pc]; rfl) (by rw [pc]; rfl) _).tick
  | transfer call =>
      simp only [pc] at eq
      cases eq
      refine (inv.setPc ?_ ?_ _).tick <;> rw [pc] <;>
        cases op : call.op <;> simp [IdePc.commanded, IdePc.awaits, op]
  | semaDown call =>
      simp only [pc] at eq
      exact (inv.semaDown pc eq).tick
  | advance call =>
      simp only [pc] at eq
      cases eq
      exact (inv.setPc (by rw [pc]; rfl) (by rw [pc]; rfl) _).tick
  | lockRelease call =>
      simp only [pc] at eq
      split at eq
      · cases eq
        exact (inv.setPc (by rw [pc]; rfl) (by rw [pc]; rfl) _).tick
      · cases eq

end CommandInv

theorem ChannelCalm.commandInv (calm : ChannelCalm s) : CommandInv s := by
  induction calm with
  | start initial => exact initial.commandInv
  | @step s t event before enabled apart eq inv =>
      have channel := before.reachable.inv
      cases event with
      | interrupt =>
          simp only [channelExec] at eq
          cases handled : s.intrHdHandler with
          | error panic =>
              rw [handled] at eq
              cases eq
          | ok t' =>
              rw [handled] at eq
              cases eq
              exact (inv.interrupt channel apart handled).tick
      | call task op secCnt =>
          cases eq
          exact (inv.setPc (by rw [enabled.1]; rfl) (by rw [enabled.1]; rfl) _).tick
      | run task =>
          simp only [channelExec] at eq
          cases ran : s.statement task with
          | error panic =>
              rw [ran] at eq
              cases eq
          | ok t' =>
              rw [ran] at eq
              cases eq
              exact inv.statement channel ran

/-- In every state that a run reaches: `disk_done` is 0 or 1, no `ASSERT` fails next,
one task at most is between `cmd_out` and its `sema_down`, and every `sema_down`
was released by an interrupt after the task's last `expecting_intr = true`. In a
run without interrupts inside `cmd_out` that interrupt came after the command. -/
theorem ide_handshake {s : ChannelState Task} (reachable : ChannelReachable s) :
    (s.value = 0 ∨ s.value = 1) ∧
      (∀ event, ChannelEnabled s event → ∃ t, channelExec s event = .ok t) ∧
      (∀ task other, (s.pc task).awaits = true → (s.pc other).awaits = true → task = other) ∧
      (∀ release ∈ s.released, release.flagAt < release.upAt ∧ release.upAt < release.downAt) ∧
      (ChannelCalm s → ∀ release ∈ s.released, release.cmdAt < release.upAt) := by
  have inv := reachable.inv
  refine ⟨?_, ?_, fun _ _ => inv.awaits_unique, inv.released, fun calm => calm.commandInv.released⟩
  · cases inv.handshake with
    | quiet _ value => exact .inl value
    | sent _ _ _ value => exact .inl value
    | asleep _ _ _ _ value => exact .inl value
    | raised _ _ _ value => exact .inr value
  · intro event enabled
    obtain ⟨t, eq, _⟩ := inv.exec enabled
    exact ⟨t, eq⟩

/-- The channel after `ide_init`, with tasks named by numbers. -/
def bootChannel : ChannelState Nat where
  lock := none
  expectingIntr := false
  value := 0
  waiters := []
  blocked := fun _ => false
  pc := fun _ => .outside
  clock := 0
  flagAt := fun _ => 0
  cmdAt := fun _ => 0
  upAt := 0
  released := []

theorem bootChannel_initial : ChannelInitial bootChannel :=
  ⟨rfl, rfl, rfl, rfl, fun _ => rfl, fun _ => rfl, rfl⟩

/-- Task 0 reads a sector and sleeps; a spurious interrupt comes before its command
and one after it. -/
theorem ide_handshake_read :
    ∃ s : ChannelState Nat, ChannelReachable s ∧ s.released.length = 1 ∧
      ∀ release ∈ s.released, release.cmdAt < release.upAt ∧ release.upAt < release.downAt := by
  have noPort : ∀ {s : ChannelState Nat}, (∀ call, s.pc 0 ≠ .cmdPort call) →
      (∀ task, task ≠ 0 → s.pc task = .outside) → ¬ InCmdOut s (.interrupt : ChannelEvent Nat) := by
    rintro s own others ⟨task, call, port⟩
    by_cases zero : task = 0
    · exact own call (zero ▸ port)
    · rw [others task zero] at port
      cases port
  have run := @ChannelCalm.step _ _ _ _ (.call 0 .read 1) (.start bootChannel_initial)
    ⟨rfl, by decide⟩ id rfl
  have run := @ChannelCalm.step _ _ _ _ (.run 0) run ⟨by decide, rfl⟩ id rfl
  have run := @ChannelCalm.step _ _ _ _ (.run 0) run ⟨by decide, rfl⟩ id rfl
  have run := @ChannelCalm.step _ _ _ _ .interrupt run trivial
    (noPort (fun call port => nomatch port) fun task ne => by
      simp [ChannelState.tick, ChannelState.setPc, ne]
      rfl) rfl
  have run := @ChannelCalm.step _ _ _ _ (.run 0) run ⟨by decide, rfl⟩ id rfl
  have run := @ChannelCalm.step _ _ _ _ (.run 0) run ⟨by decide, rfl⟩ id rfl
  have run := @ChannelCalm.step _ _ _ _ (.run 0) run ⟨by decide, rfl⟩ id rfl
  have run := @ChannelCalm.step _ _ _ _ .interrupt run trivial
    (noPort (fun call port => nomatch port) fun task ne => by
      simp [ChannelState.tick, ChannelState.setPc, ne]
      rfl) rfl
  have run := @ChannelCalm.step _ _ _ _ (.run 0) run ⟨by decide, rfl⟩ id rfl
  obtain ⟨_, _, _, after, command⟩ := ide_handshake run.reachable
  exact ⟨_, run.reachable, rfl, fun release mem => ⟨command run release mem, (after release mem).2⟩⟩

/-- An interrupt between the two statements of `cmd_out` ends the `sema_down` of a
command that it came before. -/
theorem ide_handshake_early : ¬ ∀ s : ChannelState Nat, ChannelReachable s →
    ∀ release ∈ s.released, release.cmdAt < release.upAt := by
  intro after
  have run := @ChannelReachable.step _ _ _ _ (.call 0 .read 1) (.start bootChannel_initial)
    ⟨rfl, by decide⟩ rfl
  have run := @ChannelReachable.step _ _ _ _ (.run 0) run ⟨by decide, rfl⟩ rfl
  have run := @ChannelReachable.step _ _ _ _ (.run 0) run ⟨by decide, rfl⟩ rfl
  have run := @ChannelReachable.step _ _ _ _ (.run 0) run ⟨by decide, rfl⟩ rfl
  have run := @ChannelReachable.step _ _ _ _ .interrupt run trivial rfl
  have run := @ChannelReachable.step _ _ _ _ (.run 0) run ⟨by decide, rfl⟩ rfl
  have run := @ChannelReachable.step _ _ _ _ (.run 0) run ⟨by decide, rfl⟩ rfl
  exact absurd (after _ run _ (List.mem_singleton.mpr rfl)) (by decide)

end ZyOs.Device
