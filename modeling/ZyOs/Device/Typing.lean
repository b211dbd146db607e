import ZyOs.Device.KeyboardKeys

/-!
Contract: what the flags and the letters of the keyboard are after any presses and releases.

Owns:
- runs: the bytes of key events in order, with readers of `kbd_buf` between them;
- that a flag is the state of its two keys after every interrupt exactly as long as no key of
  a pair is released while the other is down (`flags_follow_keys_iff`).

`caps_lock_status` and the case of the letters need no condition of their own: the letters go
wrong only with `shift_status`.
-/

namespace ZyOs.Device

open ZyOs.Lib

/-! ### Runs -/

/-- The keyboard with what has been typed on it. `pending` is the event whose prefix byte the
handler has taken and whose last byte it has not. -/
structure Typing (Task : Type) where
  history : List KeyEvent
  pending : Option KeyEvent
  kbd : Keyboard Task

inductive TypingEvent (Task : Type) where
  /-- The interrupt for the prefix byte of a key event. -/
  | first (event : KeyEvent)
  /-- The interrupt for the last byte of a key event. -/
  | last (event : KeyEvent)
  | getchar (task : Task)
  | run (task : Task)
deriving DecidableEq, Repr

variable {Task : Type} [DecidableEq Task]

/-- The bytes of a key event come one behind the other; readers run at any time. -/
def TypingEnabled (s : Typing Task) : TypingEvent Task → Prop
  | .first event => s.pending = none ∧ event.key.extended
  | .last event => s.pending = if event.key.extended then some event else none
  | .getchar task => QueueEnabled s.kbd.kbdBuf (.getchar task)
  | .run task => QueueEnabled s.kbd.kbdBuf (.run task)

def typingExec (s : Typing Task) : TypingEvent Task → Except QueuePanic (Typing Task)
  | .first event => do
      let kbd ← s.kbd.intrKeyboardHandler 0xe0
      .ok { s with pending := some event, kbd := kbd }
  | .last event => do
      let kbd ← s.kbd.intrKeyboardHandler event.byte
      .ok { history := s.history ++ [event], pending := none, kbd := kbd }
  | .getchar task => do
      let kbdBuf ← queueExec s.kbd.kbdBuf (.getchar task)
      .ok { s with kbd := { s.kbd with kbdBuf := kbdBuf } }
  | .run task => do
      let kbdBuf ← queueExec s.kbd.kbdBuf (.run task)
      .ok { s with kbd := { s.kbd with kbdBuf := kbdBuf } }

/-- After `keyboard_init`, with no key down. -/
structure TypingInitial (s : Typing Task) : Prop where
  history : s.history = []
  pending : s.pending = none
  flags : s.kbd.flags = ⟨false, false, false, false, false⟩
  kbdBuf : QueueInitial s.kbd.kbdBuf

/-- A run, with the states before and after each event. -/
inductive TypingRun : List (Typing Task × TypingEvent Task × Typing Task) → Typing Task → Prop where
  | start {s : Typing Task} (initial : TypingInitial s) : TypingRun [] s
  | step {trace : List (Typing Task × TypingEvent Task × Typing Task)} {s t : Typing Task}
      {event : TypingEvent Task} (run : TypingRun trace s) (enabled : TypingEnabled s event)
      (eq : typingExec s event = .ok t) : TypingRun (trace ++ [(s, event, t)]) t

/-! ### The law and its condition -/

/-- Each flag of a pair is true when one of the two keys is down. -/
def FlagsHeld (s : Typing Task) : Prop := ∀ m : Modifier, m.status s.kbd.flags = m.isHeld s.history

/-- The flags after an event, and the letter that it has put into `kbd_buf`. -/
structure FollowsKeys (before after : Typing Task) : Prop where
  held : FlagsHeld after
  capsLock : after.kbd.flags.capsLockStatus = capsOn after.history
  letter : LetterRight before.kbd.kbdBuf after.kbd.kbdBuf
    (Modifier.shift.isHeld before.history ^^ capsOn before.history)

namespace Modifier

/-- The other key of a pair. -/
def twin (m : Modifier) (key : Key) : Key := if key = m.left then m.right else m.left

end Modifier

/-- A key of a pair is released while the other key is up. -/
def ReleasedAlone (history : List KeyEvent) : KeyEvent → Prop
  | .press _ => True
  | .release key => ∀ m, Modifier.ofKey key = some m → isDown history (m.twin key) = false

/-- The condition on an event of a run. -/
def TypedAlone (s : Typing Task) : TypingEvent Task → Prop
  | .last event => ReleasedAlone s.history event
  | _ => True

/-! ### One key event -/

section

variable {history : List KeyEvent} {event : KeyEvent} {key : Key} {flags : KeyboardFlags} {m m' : Modifier}

theorem ofKey_eq_some_iff : Modifier.ofKey key = some m ↔ key = m.left ∨ key = m.right := by
  constructor
  · unfold Modifier.ofKey
    intro isPair
    split_ifs at isPair with isCtrl isShift isAlt
    · cases isPair
      exact isCtrl
    · cases isPair
      exact isShift
    · cases isPair
      exact isAlt
  · rintro (rfl | rfl)
    · cases m <;> rfl
    · cases m <;> rfl

theorem isHeld_other (noPair : Modifier.ofKey event.key ≠ some m) :
    m.isHeld (history ++ [event]) = m.isHeld history := by
  obtain ⟨notLeft, notRight⟩ := not_or.mp (mt ofKey_eq_some_iff.mpr noPair)
  unfold Modifier.isHeld
  rw [isDown_append, isDown_append, if_neg notLeft, if_neg notRight]

theorem isHeld_pair (isPair : Modifier.ofKey event.key = some m) :
    m.isHeld (history ++ [event]) = (event.isPress || isDown history (m.twin event.key)) := by
  have apart : m.left ≠ m.right := by cases m <;> decide
  unfold Modifier.isHeld Modifier.twin
  rw [isDown_append, isDown_append]
  rcases ofKey_eq_some_iff.mp isPair with isLeft | isRight
  · rw [isLeft, if_pos rfl, if_neg apart, if_pos rfl]
  · rw [isRight, if_neg apart.symm, if_pos rfl, if_neg apart.symm, Bool.or_comm]

theorem status_set (flags : KeyboardFlags) (value : Bool) :
    m'.status (m.set flags value) = if m = m' then value else m'.status flags := by
  cases m <;> cases m' <;> rfl

/-- A key event keeps the law of the pairs exactly when it is not the release of one key of a
pair under the other. -/
theorem typed_held_iff (held : ∀ m : Modifier, m.status flags = m.isHeld history) (event : KeyEvent) :
    (∀ m : Modifier, m.status (flags.typed event) = m.isHeld (history ++ [event])) ↔
      ReleasedAlone history event := by
  cases isPair : Modifier.ofKey event.key with
  | none =>
      have isAlone : ReleasedAlone history event := by
        cases event with
        | press key => trivial
        | release key => exact fun m isSome => nomatch isPair.symm.trans isSome
      refine iff_of_true (fun m => ?_) isAlone
      have same : m.status (flags.typed event) = m.status flags := by
        unfold KeyboardFlags.typed
        rw [isPair]
        dsimp only
        split
        · cases m <;> rfl
        · rfl
      rw [same, isHeld_other (by rw [isPair]; exact fun same => nomatch same)]
      exact held m
  | some pair =>
      rw [KeyboardFlags.typed_pair event isPair]
      have atPair : (∀ m : Modifier, m.status (pair.set flags event.isPress) = m.isHeld (history ++ [event])) ↔
          event.isPress = (event.isPress || isDown history (pair.twin event.key)) := by
        constructor
        · intro law
          have atSelf := law pair
          rwa [status_set, if_pos rfl, isHeld_pair isPair] at atSelf
        · intro isSame m
          rw [status_set]
          by_cases self : pair = m
          · rw [if_pos self, ← self, isHeld_pair isPair]
            exact isSame
          · rw [if_neg self, isHeld_other (by rw [isPair]; exact fun same => self (Option.some.inj same))]
            exact held m
      rw [atPair]
      cases event with
      | press key => exact iff_of_true rfl trivial
      | release key =>
          show false = (false || isDown history (pair.twin key)) ↔ _
          rw [Bool.false_or]
          constructor
          · intro isUp m isSome
            obtain rfl : pair = m := Option.some.inj (isPair.symm.trans isSome)
            exact isUp.symm
          · exact fun alone => (alone pair isPair).symm

theorem typed_capsLock (flags : KeyboardFlags) (isCaps : flags.capsLockStatus = capsOn history) (event : KeyEvent) :
    (flags.typed event).capsLockStatus = capsOn (history ++ [event]) := by
  rw [capsOn_append, ← isCaps]
  cases isPair : Modifier.ofKey event.key with
  | some pair =>
      have notCaps : event ≠ .press .capsLock := by
        rintro rfl
        cases isPair
      rw [KeyboardFlags.typed_pair event isPair, if_neg notCaps]
      cases pair <;> rfl
  | none =>
      unfold KeyboardFlags.typed
      rw [isPair]
      dsimp only
      split <;> rfl

theorem typed_extScancode (flags : KeyboardFlags) (event : KeyEvent) :
    (flags.typed event).extScancode = flags.extScancode := by
  unfold KeyboardFlags.typed
  split
  · rename_i m _
    cases m <;> rfl
  · split <;> rfl

end

/-! ### Readers -/

section

variable {s t : QueueState Task} {task : Task}

theorem threadUnblock_accepted (isRun : s.threadUnblock task = .ok t) : t.accepted = s.accepted := by
  unfold QueueState.threadUnblock at isRun
  split at isRun
  · cases isRun
    rfl
  · cases isRun

theorem ioqWait_accepted (isRun : s.ioqWait task = .ok t) : t.accepted = s.accepted := by
  unfold QueueState.ioqWait at isRun
  split at isRun
  · cases isRun
    rfl
  · cases isRun

theorem downAndWait_accepted (isRun : s.downAndWait task = .ok t) : t.accepted = s.accepted := by
  unfold QueueState.downAndWait at isRun
  split_ifs at isRun
  · cases isRun
    rfl
  · have same := ioqWait_accepted isRun
    exact same

theorem lockRelease_accepted (isRun : s.lockRelease task = .ok t) : t.accepted = s.accepted := by
  unfold QueueState.lockRelease QueueState.semaUp at isRun
  split_ifs at isRun
  · cases isRun
    rfl
  · split at isRun
    · cases isRun
      rfl
    · obtain ⟨woken, isWoken, isEnd⟩ := ok_bind_iff.mp isRun
      cases isEnd
      have same := threadUnblock_accepted isWoken
      exact same

theorem ioqGetchar_accepted (isRun : s.ioqGetchar task = .ok t) : t.accepted = s.accepted := by
  unfold QueueState.ioqGetchar at isRun
  split at isRun
  · unfold QueueState.acquireAndWait at isRun
    split at isRun
    · exact downAndWait_accepted isRun
    · have same := ioqWait_accepted isRun
      exact same
  dsimp only at isRun
  split at isRun
  · obtain ⟨woken, isWoken, isEnd⟩ := ok_bind_iff.mp isRun
    cases isEnd
    unfold QueueState.wakeup at isWoken
    split at isWoken
    · cases isWoken
    · have same := threadUnblock_accepted isWoken
      exact same
  · cases isRun
    rfl

theorem resume_accepted (isRun : s.resume task = .ok t) : t.accepted = s.accepted := by
  unfold QueueState.resume at isRun
  split at isRun
  · cases isRun
    rfl
  · exact downAndWait_accepted isRun
  · obtain ⟨released, isReleased, isRead⟩ := ok_bind_iff.mp isRun
    exact (ioqGetchar_accepted isRead).trans (lockRelease_accepted isReleased)

end

/-! ### One step -/

section

variable {s t : Typing Task} {event : TypingEvent Task}

structure TypingInv (s : Typing Task) : Prop where
  queue : QueueInv s.kbd.kbdBuf
  ext : s.kbd.flags.extScancode = s.pending.isSome
  capsLock : s.kbd.flags.capsLockStatus = capsOn s.history

omit [DecidableEq Task] in
theorem TypingInitial.inv (initial : TypingInitial s) : TypingInv s where
  queue := initial.kbdBuf.inv
  ext := by rw [initial.flags, initial.pending]; rfl
  capsLock := by rw [initial.flags, initial.history]; rfl

omit [DecidableEq Task] in
theorem TypingInitial.held (initial : TypingInitial s) : FlagsHeld s := by
  intro m
  rw [initial.flags, initial.history]
  cases m <;> rfl

omit [DecidableEq Task] in
/-- A reader changes neither the flags nor the bytes accepted. -/
theorem TypingInv.reader (inv : TypingInv s) {kbdBuf : QueueState Task}
    (queue : QueueInv kbdBuf) (same : kbdBuf.accepted = s.kbd.kbdBuf.accepted) :
    TypingInv { s with kbd := { s.kbd with kbdBuf := kbdBuf } } ∧
      (FlagsHeld s → FollowsKeys s { s with kbd := { s.kbd with kbdBuf := kbdBuf } }) :=
  ⟨⟨queue, inv.ext, inv.capsLock⟩, fun held => ⟨held, inv.capsLock, letterRight_of_accepted same _⟩⟩

/-- An enabled event fails no `ASSERT` and keeps the invariant; it keeps the law exactly when
it is alone. -/
theorem TypingInv.exec (inv : TypingInv s) (enabled : TypingEnabled s event) :
    ∃ t, typingExec s event = .ok t ∧ TypingInv t ∧
      (FlagsHeld s → (FollowsKeys s t ↔ TypedAlone s event)) := by
  cases event with
  | first event =>
      refine ⟨{ s with pending := some event, kbd := { s.kbd with flags := { s.kbd.flags with extScancode := true } } },
        rfl, ⟨inv.queue, rfl, inv.capsLock⟩, fun held => iff_of_true ⟨?_, inv.capsLock, ?_⟩ trivial⟩
      · intro m
        rw [← held m]
        cases m <;> rfl
      · exact letterRight_of_accepted rfl _
  | last event =>
      have isExt : s.kbd.flags.extScancode = event.key.extended := by
        rw [inv.ext, show s.pending = _ from enabled]
        cases event.key.extended <;> rfl
      obtain ⟨kbd, isRun, queue, isTyped, letter⟩ := s.kbd.handler_last event inv.queue isExt
      have capsLock : kbd.flags.capsLockStatus = capsOn (s.history ++ [event]) := by
        rw [isTyped]
        exact typed_capsLock { s.kbd.flags with extScancode := false } inv.capsLock event
      refine ⟨{ history := s.history ++ [event], pending := none, kbd := kbd }, ?_,
        ⟨queue, ?_, capsLock⟩, fun held => ?_⟩
      · rw [typingExec, isRun]
        rfl
      · show kbd.flags.extScancode = false
        rw [isTyped, typed_extScancode]
      · have held' : ∀ m : Modifier, m.status { s.kbd.flags with extScancode := false } = m.isHeld s.history := by
          intro m
          rw [← held m]
          cases m <;> rfl
        have law := typed_held_iff held' event
        rw [← isTyped] at law
        refine Iff.trans ⟨fun follows => follows.held, fun held => ⟨held, capsLock, ?_⟩⟩ law
        rw [← held' .shift, ← inv.capsLock]
        exact letter
  | getchar task =>
      obtain ⟨kbdBuf, isRun, queue, -⟩ := inv.queue.exec (show QueueEnabled _ (.getchar task) from enabled)
      obtain ⟨inv', follows⟩ := inv.reader queue (ioqGetchar_accepted isRun)
      refine ⟨{ s with kbd := { s.kbd with kbdBuf := kbdBuf } }, ?_, inv', fun held => iff_of_true (follows held) trivial⟩
      rw [typingExec, isRun]
      rfl
  | run task =>
      obtain ⟨kbdBuf, isRun, queue, -⟩ := inv.queue.exec (show QueueEnabled _ (.run task) from enabled)
      obtain ⟨inv', follows⟩ := inv.reader queue (resume_accepted isRun)
      refine ⟨{ s with kbd := { s.kbd with kbdBuf := kbdBuf } }, ?_, inv', fun held => iff_of_true (follows held) trivial⟩
      rw [typingExec, isRun]
      rfl

end

/-! ### Runs -/

section

variable {trace : List (Typing Task × TypingEvent Task × Typing Task)} {s : Typing Task}

theorem TypingRun.inv (run : TypingRun trace s) : TypingInv s := by
  induction run with
  | start initial => exact initial.inv
  | step _ enabled eq inv =>
      obtain ⟨t, eq', inv', -⟩ := inv.exec enabled
      rw [eq] at eq'
      cases eq'
      exact inv'

/-- After the last event the law holds when it has held after every event. -/
theorem TypingRun.held (run : TypingRun trace s) (follows : ∀ step ∈ trace, FollowsKeys step.1 step.2.2) :
    FlagsHeld s := by
  cases run with
  | start initial => exact initial.held
  | step run enabled eq => exact (follows _ (List.mem_append_right _ List.mem_cons_self)).held

/-- In every run, the flags are the state of the keys and the letters have the right case after
every event exactly as long as no key of a pair is released under the other. -/
theorem flags_follow_keys_iff (run : TypingRun trace s) :
    (∀ step ∈ trace, FollowsKeys step.1 step.2.2) ↔ ∀ step ∈ trace, TypedAlone step.1 step.2.1 := by
  induction run with
  | start initial =>
      simp only [List.not_mem_nil, false_implies, implies_true]
  | @step trace s t event run enabled eq inductionHypothesis =>
      obtain ⟨t', eq', -, law⟩ := run.inv.exec enabled
      rw [eq] at eq'
      cases eq'
      simp only [List.mem_append, List.mem_singleton, or_imp, forall_and, forall_eq]
      constructor
      · rintro ⟨before, last⟩
        exact ⟨inductionHypothesis.mp before, (law (run.held before)).mp last⟩
      · rintro ⟨before, alone⟩
        have follows := inductionHypothesis.mpr before
        exact ⟨follows, (law (run.held follows)).mpr alone⟩

end

/-! ### Two keys -/

/-- After `keyboard_init`, with tasks named by numbers. -/
def bootTyping : Typing Nat where
  history := []
  pending := none
  kbd := ⟨⟨false, false, false, false, false⟩, bootQueue⟩

theorem bootTyping_initial : TypingInitial bootTyping := ⟨rfl, rfl, rfl, bootQueue_initial⟩

/-- Right ctrl goes down, and with left shift down an `a` is typed; then the two go up. -/
theorem flags_follow_keys_upper :
    ∃ (trace : List (Typing Nat × TypingEvent Nat × Typing Nat)) (s : Typing Nat), TypingRun trace s ∧
      s.kbd.kbdBuf.accepted = [65] ∧ ∀ step ∈ trace, FollowsKeys step.1 step.2.2 := by
  have run := @TypingRun.step _ _ _ _ _ (.first (.press .ctrlR)) (.start bootTyping_initial) ⟨rfl, rfl⟩ rfl
  have run := @TypingRun.step _ _ _ _ _ (.last (.press .ctrlR)) run rfl rfl
  have run := @TypingRun.step _ _ _ _ _ (.last (.press .shiftL)) run rfl rfl
  have run := @TypingRun.step _ _ _ _ _ (.last (.press .a)) run rfl rfl
  have run := @TypingRun.step _ _ _ _ _ (.last (.release .shiftL)) run rfl rfl
  refine ⟨_, _, run, by decide, (flags_follow_keys_iff run).mpr ?_⟩
  intro step mem
  simp only [List.nil_append, List.cons_append, List.mem_cons, List.not_mem_nil, or_false] at mem
  rcases mem with rfl | rfl | rfl | rfl | rfl
  · trivial
  · trivial
  · trivial
  · trivial
  · intro m _
    cases m <;> rfl

/-- Both shift keys go down and the left one goes up: `shift_status` is false, and the `a`
typed then is a small letter. -/
theorem flags_follow_keys_twins :
    ∃ (trace : List (Typing Nat × TypingEvent Nat × Typing Nat)) (s : Typing Nat), TypingRun trace s ∧
      s.history = [.press .shiftL, .press .shiftR, .release .shiftL, .press .a] ∧
      isDown s.history .shiftR ∧ s.kbd.flags.shiftStatus = false ∧ s.kbd.kbdBuf.accepted = [97] ∧
      ¬ ∀ step ∈ trace, FollowsKeys step.1 step.2.2 := by
  have run := @TypingRun.step _ _ _ _ _ (.last (.press .shiftL)) (.start bootTyping_initial) rfl rfl
  have run := @TypingRun.step _ _ _ _ _ (.last (.press .shiftR)) run rfl rfl
  have run := @TypingRun.step _ _ _ _ _ (.last (.release .shiftL)) run rfl rfl
  have run := @TypingRun.step _ _ _ _ _ (.last (.press .a)) run rfl rfl
  refine ⟨_, _, run, rfl, by decide, rfl, by decide, fun follows => ?_⟩
  have law := (follows _ (List.mem_append_right _ List.mem_cons_self)).held .shift
  exact absurd law (by decide)

end ZyOs.Device
