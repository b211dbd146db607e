import ZyOs.Kernel.PrintText
import ZyOs.Lib.Numerals
import ZyOs.Thread.LockSafety

/-!
Contract: `device/console.c`: tasks that print under `console_lock`, on top of the lock and the
scheduler.

Owns:
- `put_str` and `put_int` of `print.S`, as the characters that they pass to `put_char`;
- runs of any number of tasks that call the functions of the console, with task switches
  between any two of their steps;
- that the text of each call is on the screen in one piece.

Does not own: `put_char`, which is one step here, and what prints without the lock: the texts
before `console_init`, those of interrupt handlers, and `cls_screen`.
-/

namespace ZyOs.Device.Console

open ZyOs.Kernel ZyOs.Lib ZyOs.Thread

/-! ### The texts -/

/-- The loop `.goon` of `put_str`. -/
def putStrText : List UInt8 → List UInt8
  | [] => []
  | cl :: rest => if cl = 0 then [] else cl :: putStrText rest

/-- The loop `.16based_4bits` of `put_int`, with `ecx` digits to go; the buffer is filled from its end. -/
def based16 : (ecx : Nat) → (eax : BitVec 32) → List UInt8 → List UInt8
  | 0, _, buffer => buffer
  | ecx + 1, eax, buffer =>
      let edx := eax &&& 0xf
      let dl := if 9 < edx.toNat then edx - 10 + 0x41 else edx + 0x30
      based16 ecx (eax >>> 4) (UInt8.ofNat dl.toNat :: buffer)

/-- `.skip_prefix_0` and `.full0`, from the digit at `edi` on. -/
def skipPrefix0 : List UInt8 → List UInt8
  | [] => [0x30]
  | cl :: rest => if cl = 0x30 then skipPrefix0 rest else cl :: rest

def putIntText (num : BitVec 32) : List UInt8 := skipPrefix0 (based16 8 num [])

/-- `console_put_str`, `console_put_char` and `console_put_int`. -/
inductive Call where
  | putStr (str : List UInt8)
  | putChar (charAsci : UInt8)
  | putInt (num : BitVec 32)
deriving DecidableEq, Repr

def Call.text : Call → List UInt8
  | .putStr str => putStrText str
  | .putChar charAsci => [charAsci]
  | .putInt num => putIntText num

/-! ### Runs -/

/-- Where a task is in a function of the console. -/
inductive ConsolePc where
  | outside
  | acquire (call : Call)
  | print (rest : List UInt8) (call : Call)
  | release
deriving DecidableEq, Repr

/-- `printed` are the calls that have printed their text, in this order. -/
structure ConsoleState where
  lock : LockState
  display : Display
  pc : Tid → ConsolePc
  printed : List Call

def ConsoleState.cur (s : ConsoleState) : Tid := s.lock.thread.cur

def ConsoleState.setPc (s : ConsoleState) (pc : ConsolePc) : ConsoleState :=
  { s with pc := Function.update s.pc s.cur pc }

/-- Steps of the lock and the scheduler that are not calls of the lock. A task is interrupted
wherever it is. -/
def OtherEvent (s : ConsoleState) : LockEvent → Prop
  | .thread event => s.pc s.cur = .outside ∨ event.ofInterrupt = true
  | .advance => True
  | .acquire | .release => False

inductive ConsoleStep (lock : SemaId) : ConsoleState → ConsoleState → Prop where
  | other {s : ConsoleState} {event : LockEvent} {t : LockState} (isOther : OtherEvent s event)
      (enabled : LockEnabled lock s.lock event) (ok : lockExec lock s.lock event = .ok t) :
      ConsoleStep lock s { s with lock := t }
  | call {s : ConsoleState} (call : Call) (isPc : s.pc s.cur = .outside) (enabled : LockEnabled lock s.lock .acquire) :
      ConsoleStep lock s { s.setPc (.acquire call) with lock := lockAcquire s.lock }
  | acquired {s : ConsoleState} {call : Call} (isPc : s.pc s.cur = .acquire call)
      (free : s.lock.thread.resume s.cur = .none) (returned : s.lock.pc s.cur = .outside) :
      ConsoleStep lock s (s.setPc (.print call.text call))
  | put {s : ConsoleState} {char : UInt8} {rest : List UInt8} {call : Call} {display : Display}
      (isPc : s.pc s.cur = .print (char :: rest) call) (free : s.lock.thread.resume s.cur = .none)
      (isPut : s.display.putChar char = some display) :
      ConsoleStep lock s { s.setPc (.print rest call) with display := display }
  | release {s : ConsoleState} {call : Call} {t : LockState} (isPc : s.pc s.cur = .print [] call)
      (enabled : LockEnabled lock s.lock .release) (ok : lockRelease s.lock = .ok t) :
      ConsoleStep lock s { s.setPc .release with lock := t, printed := s.printed ++ [call] }
  | released {s : ConsoleState} (isPc : s.pc s.cur = .release) (free : s.lock.thread.resume s.cur = .none)
      (returned : s.lock.pc s.cur = .outside) :
      ConsoleStep lock s (s.setPc .outside)

/-- The state after `console_init`. -/
structure ConsoleInitial (lock : SemaId) (s : ConsoleState) : Prop where
  lock : LockInitial lock s.lock
  pc : ∀ task, s.pc task = .outside
  printed : s.printed = []

/-! ### `put_int` prints a numeral -/

theorem digit_eq (eax : BitVec 32) :
    UInt8.ofNat (if 9 < (eax &&& 0xf).toNat then (eax &&& 0xf) - 10 + 0x41 else (eax &&& 0xf) + 0x30).toNat =
      digitChar (eax.toNat % 16) := by
  have isDigit : eax &&& 0xf = BitVec.ofNat 32 (eax.toNat % 16) := by
    apply BitVec.eq_of_toNat_eq
    rw [BitVec.toNat_and, BitVec.toNat_ofNat, Nat.mod_eq_of_lt (show eax.toNat % 16 < 2 ^ 32 by omega)]
    exact Nat.and_two_pow_sub_one_eq_mod eax.toNat 4
  have digits : ∀ digit < 16, UInt8.ofNat (if 9 < (BitVec.ofNat 32 digit).toNat then BitVec.ofNat 32 digit - 10 + 0x41
      else BitVec.ofNat 32 digit + 0x30).toNat = digitChar digit := by decide
  rw [isDigit]
  exact digits _ (Nat.mod_lt _ (by decide))

theorem skipPrefix0_based16 (ecx : Nat) (eax : BitVec 32) (buffer : List UInt8) (small : eax.toNat < 16 ^ ecx) :
    skipPrefix0 (based16 ecx eax buffer) =
      if eax.toNat = 0 then skipPrefix0 buffer else numeral 16 eax.toNat ++ buffer := by
  induction ecx generalizing eax buffer with
  | zero =>
      rw [if_pos (by omega)]
      rfl
  | succ ecx inductionHypothesis =>
      have isRest : (eax >>> 4).toNat = eax.toNat / 16 := by
        rw [BitVec.toNat_ushiftRight, Nat.shiftRight_eq_div_pow]
      rw [based16, digit_eq, inductionHypothesis _ _ (by rw [isRest]; omega), isRest]
      by_cases isLast : eax.toNat / 16 = 0
      · rw [if_pos isLast, Nat.mod_eq_of_lt (by omega)]
        by_cases isZero : eax.toNat = 0
        · rw [if_pos isZero, isZero, skipPrefix0]
          exact if_pos rfl
        · have notZero : digitChar eax.toNat ≠ 0x30 := by
            have digits : ∀ digit < 16, digitChar digit = 0x30 → digit = 0 := by decide
            exact fun isZeroChar => isZero (digits _ (by omega) isZeroChar)
          rw [if_neg isZero, skipPrefix0, if_neg notZero, numeral_of_lt (by omega)]
          rfl
      · rw [if_neg isLast, if_neg (by omega), numeral_of_ge (by decide) (show 16 ≤ eax.toNat by omega),
          List.append_assoc]
        rfl

/-- The hexadecimal numeral without leading zeros. -/
theorem put_int_prints_numeral (num : BitVec 32) : (Call.putInt num).text = numeral 16 num.toNat := by
  show putIntText num = _
  rw [putIntText, skipPrefix0_based16 8 num [] num.isLt]
  split
  · rename_i isZero
    rw [isZero]
    rfl
  · exact List.append_nil _

/-! ### Where a task is in the lock -/

/-- The statements of `lock_acquire` that a task comes to which does not hold the lock. -/
def Acquires (pc : LockPc) : Prop :=
  pc = .acquireDown ∨ pc = .acquireWait ∨ pc = .acquireHolder ∨ pc = .acquireAssert ∨ pc = .acquireFirst

/-- The statements of `lock_release` for the only acquire. -/
def Releases (pc : LockPc) : Prop :=
  pc = .releaseTest ∨ pc = .releaseAssert ∨ pc = .releaseHolder ∨ pc = .releaseNr ∨ pc = .releaseUp

/-- A task holds the lock once while it prints, and not at all outside. -/
def TaskAt (lockPc : LockPc) (depth : Nat) : ConsolePc → Prop
  | .outside => lockPc = .outside ∧ depth = 0
  | .acquire _ => (Acquires lockPc ∧ depth = 0) ∨ (lockPc = .outside ∧ depth = 1)
  | .print _ _ => lockPc = .outside ∧ depth = 1
  | .release => (Releases lockPc ∧ depth = 1) ∨ (lockPc = .outside ∧ depth = 0)

variable {lock : SemaId} {s t : LockState} {pc : ConsolePc} {task : Tid}

theorem holder_inside (inv : LockInv lock s) (holds : s.holder = some task) : InsideLock s task := by
  by_cases nobody : ∀ other, ¬ InsideLock s other
  · rw [(inv.nobody nobody).1] at holds
    cases holds
  · push Not at nobody
    obtain ⟨other, inside⟩ := nobody
    have fields := inv.owner other inside
    have isHolder : s.holder = none ∨ s.holder = some other := by
      unfold OwnerFields at fields
      split at fields <;> simp_all
    rw [holds] at isHolder
    rcases isHolder with isNone | isOther
    · cases isNone
    · rw [Option.some.inj isOther]
      exact inside

theorem TaskAt.depth_le {lockPc : LockPc} {depth : Nat} (taskAt : TaskAt lockPc depth pc) : depth ≤ 1 := by
  cases pc <;> unfold TaskAt at taskAt <;> omega

/-- What one step of the lock leaves of the place and the depth of the task that runs. -/
structure Moved (s t : LockState) (pc : ConsolePc) : Prop where
  cur : TaskAt (t.pc s.thread.cur) (t.depth s.thread.cur) pc
  pcOthers : ∀ task, task ≠ s.thread.cur → t.pc task = s.pc task
  depthOthers : ∀ task, task ≠ s.thread.cur → t.depth task = s.depth task

/-- The test of `sema_down`. -/
theorem afterDown_moved {thread : State} {call : Call} (depth : s.depth s.thread.cur = 0) :
    Moved s (afterDown s s.thread.cur thread) (.acquire call) where
  cur := by
    refine .inl ⟨?_, depth⟩
    rw [show (afterDown s s.thread.cur thread).pc s.thread.cur = _ from Function.update_self ..]
    split
    · exact .inr (.inr (.inl rfl))
    · exact .inr (.inl rfl)
  pcOthers _ ne := Function.update_of_ne ne ..
  depthOthers _ _ := rfl

theorem Moved.of_update {lockPc : LockPc} {depth : Nat} (isPc : t.pc = Function.update s.pc s.thread.cur lockPc)
    (isDepth : t.depth = Function.update s.depth s.thread.cur depth) (taskAt : TaskAt lockPc depth pc) :
    Moved s t pc where
  cur := by
    rw [isPc, isDepth, Function.update_self, Function.update_self]
    exact taskAt
  pcOthers _ ne := by
    rw [isPc, Function.update_of_ne ne]
  depthOthers _ ne := by
    rw [isDepth, Function.update_of_ne ne]

theorem Moved.of_pc {lockPc : LockPc} (isPc : t.pc = Function.update s.pc s.thread.cur lockPc)
    (isDepth : t.depth = s.depth) (taskAt : TaskAt lockPc (s.depth s.thread.cur) pc) : Moved s t pc :=
  .of_update isPc (isDepth.trans (Function.update_eq_self ..).symm) taskAt

/-- The statements of `lock_acquire`. -/
theorem lockAdvance_acquire {call : Call} (acquires : Acquires (s.pc s.thread.cur)) (depth : s.depth s.thread.cur = 0)
    (ok : lockAdvance lock s = .ok t) : Moved s t (.acquire call) := by
  unfold lockAdvance at ok
  rcases acquires with isPc | isPc | isPc | isPc | isPc <;> simp only [isPc] at ok
  · cases isDown : semaDown s.thread lock with
    | error panic =>
        rw [isDown] at ok
        cases ok
    | ok thread =>
        rw [isDown] at ok
        obtain rfl := Except.ok.inj ok
        exact afterDown_moved depth
  · obtain rfl := Except.ok.inj ok
    exact ⟨.inl ⟨.inr (.inl isPc), depth⟩, fun _ _ => rfl, fun _ _ => rfl⟩
  · obtain rfl := Except.ok.inj ok
    exact .of_pc rfl rfl (.inl ⟨.inr (.inr (.inr (.inl rfl))), depth⟩)
  · split at ok
    · obtain rfl := Except.ok.inj ok
      exact .of_pc rfl rfl (.inl ⟨.inr (.inr (.inr (.inr rfl))), depth⟩)
    · cases ok
  · obtain rfl := Except.ok.inj ok
    exact .of_update rfl rfl (.inr ⟨rfl, by rw [depth]⟩)

/-- The statements of `lock_release`: the lock is not held twice. -/
theorem lockAdvance_release (inv : LockInv lock s) (releases : Releases (s.pc s.thread.cur))
    (depth : s.depth s.thread.cur = 1) (ok : lockAdvance lock s = .ok t) : Moved s t .release := by
  have fields := inv.owner s.thread.cur (.inl (by omega))
  unfold lockAdvance at ok
  unfold OwnerFields at fields
  rcases releases with isPc | isPc | isPc | isPc | isPc <;> simp only [isPc] at ok fields
  · rw [if_neg (by omega)] at ok
    obtain rfl := Except.ok.inj ok
    exact .of_pc rfl rfl (.inl ⟨.inr (.inl rfl), depth⟩)
  · rw [if_pos fields.2.1] at ok
    obtain rfl := Except.ok.inj ok
    exact .of_pc rfl rfl (.inl ⟨.inr (.inr (.inl rfl)), depth⟩)
  · obtain rfl := Except.ok.inj ok
    exact .of_pc rfl rfl (.inl ⟨.inr (.inr (.inr (.inl rfl))), depth⟩)
  · obtain rfl := Except.ok.inj ok
    exact .of_pc rfl rfl (.inl ⟨.inr (.inr (.inr (.inr rfl))), depth⟩)
  · cases isUp : semaUp s.thread lock with
    | error panic =>
        rw [isUp] at ok
        cases ok
    | ok thread =>
        rw [isUp] at ok
        obtain rfl := Except.ok.inj ok
        exact .of_update rfl rfl (.inr ⟨rfl, by rw [depth]⟩)

theorem lockAdvance_moved (inv : LockInv lock s) (taskAt : TaskAt (s.pc s.thread.cur) (s.depth s.thread.cur) pc)
    (notOutside : s.pc s.thread.cur ≠ .outside) (ok : lockAdvance lock s = .ok t) : Moved s t pc := by
  cases pc with
  | outside => exact absurd taskAt.1 notOutside
  | print rest call => exact absurd taskAt.1 notOutside
  | acquire call =>
      rcases taskAt with ⟨acquires, depth⟩ | ⟨isOutside, _⟩
      · exact lockAdvance_acquire acquires depth ok
      · exact absurd isOutside notOutside
  | release =>
      rcases taskAt with ⟨releases, depth⟩ | ⟨isOutside, _⟩
      · exact lockAdvance_release inv releases depth ok
      · exact absurd isOutside notOutside

/-- A step of the scheduler. -/
theorem threadEvent_moved {event : Event} (taskAt : TaskAt (s.pc s.thread.cur) (s.depth s.thread.cur) pc)
    (ok : threadEvent s event = .ok t) : Moved s t pc := by
  unfold threadEvent at ok
  cases isThread : exec s.thread event with
  | error panic =>
      rw [isThread] at ok
      cases ok
  | ok thread =>
      rw [isThread] at ok
      simp only [liftPanic, bind, Except.bind] at ok
      split at ok
      · rename_i retest
        obtain rfl := Except.ok.inj ok
        have isWait := retest.2
        cases pc with
        | outside => rw [isWait] at taskAt; cases taskAt.1
        | print rest call => rw [isWait] at taskAt; cases taskAt.1
        | release =>
            rw [isWait] at taskAt
            unfold TaskAt Releases at taskAt
            simp at taskAt
        | acquire call =>
            rcases taskAt with ⟨_, depth⟩ | ⟨isOutside, _⟩
            · exact afterDown_moved depth
            · rw [isWait] at isOutside
              cases isOutside
      · obtain rfl := Except.ok.inj ok
        exact ⟨taskAt, fun _ _ => rfl, fun _ _ => rfl⟩

/-! ### What every step keeps -/

/-- The part of a text that is on the screen while its task prints. -/
def Partial (s : ConsoleState) (part : List UInt8) : Prop :=
  (part = [] ∧ ∀ task rest call, s.pc task ≠ .print rest call) ∨
    ∃ task rest call, s.pc task = .print rest call ∧ part ++ rest = call.text

structure ConsoleInv (lock : SemaId) (start : Display) (s : ConsoleState) : Prop where
  lockInv : LockInv lock s.lock
  tasks : ∀ task, TaskAt (s.lock.pc task) (s.lock.depth task) (s.pc task)
  screen : ∃ part, start.putChars (s.printed.flatMap Call.text ++ part) = some s.display ∧ Partial s part

namespace ConsoleInv

variable {s : ConsoleState} {start display : Display} {rest rest' : List UInt8} {call call' : Call} {pc : ConsolePc}

theorem ofInitial (initial : ConsoleInitial lock s) : ConsoleInv lock s.display s where
  lockInv := initial.lock.inv
  tasks task := by
    rw [initial.pc task]
    exact ⟨initial.lock.pc task, initial.lock.depth task⟩
  screen := by
    refine ⟨[], ?_, .inl ⟨rfl, fun task rest call isPrint => ?_⟩⟩
    · rw [initial.printed]
      rfl
    · rw [initial.pc task] at isPrint
      cases isPrint

theorem inside (inv : ConsoleInv lock start s) {task : Tid} (isPc : s.pc task = .print rest call) :
    InsideLock s.lock task := by
  have taskAt := inv.tasks task
  rw [isPc] at taskAt
  exact .inl (Nat.lt_of_lt_of_eq Nat.zero_lt_one taskAt.2.symm)

theorem prints_unique (inv : ConsoleInv lock start s) {first second : Tid} (isFirst : s.pc first = .print rest call)
    (isSecond : s.pc second = .print rest' call') : first = second :=
  inv.lockInv.unique first second (inv.inside isFirst) (inv.inside isSecond)

/-- What the printing task has printed so far. -/
theorem part_of_print (inv : ConsoleInv lock start s) (isPc : s.pc task = .print rest call) :
    ∃ part, start.putChars (s.printed.flatMap Call.text ++ part) = some s.display ∧ part ++ rest = call.text := by
  obtain ⟨part, isScreen, ⟨-, nobody⟩ | ⟨other, rest', call', isPrint, isText⟩⟩ := inv.screen
  · exact absurd isPc (nobody task rest call)
  · obtain rfl := inv.prints_unique isPc isPrint
    rw [isPc] at isPrint
    cases isPrint
    exact ⟨part, isScreen, isText⟩

/-- A step of the lock keeps what is known of the lock. -/
theorem lock_moved (inv : ConsoleInv lock start s) {t : LockState} (moved : Moved s.lock t pc)
    (task : Tid) : TaskAt (t.pc task) (t.depth task) ((s.setPc pc).pc task) := by
  by_cases isCur : task = s.cur
  · rw [isCur, show (s.setPc pc).pc s.cur = pc from Function.update_self ..]
    exact moved.cur
  · rw [show (s.setPc pc).pc task = s.pc task from Function.update_of_ne isCur .., moved.pcOthers task isCur,
      moved.depthOthers task isCur]
    exact inv.tasks task

/-- A move between places where nothing is printed. -/
theorem partial_setPc {part : List UInt8} (isPartial : Partial s part)
    (before : ∀ rest call, s.pc s.cur ≠ .print rest call) (after : ∀ rest call, pc ≠ .print rest call) : Partial (s.setPc pc) part := by
  rcases isPartial with ⟨isNil, nobody⟩ | ⟨task, rest, call, isPrint, isText⟩
  · refine .inl ⟨isNil, fun task rest call isPrint => ?_⟩
    by_cases isCur : task = s.cur
    · rw [isCur, show (s.setPc pc).pc s.cur = pc from Function.update_self ..] at isPrint
      exact after rest call isPrint
    · rw [show (s.setPc pc).pc task = s.pc task from Function.update_of_ne isCur ..] at isPrint
      exact nobody task rest call isPrint
  · refine .inr ⟨task, rest, call, ?_, isText⟩
    have notCur : task ≠ s.cur := fun isCur => before rest call (isCur ▸ isPrint)
    exact (Function.update_of_ne notCur ..).trans isPrint

theorem other {event : LockEvent} {t : LockState} (inv : ConsoleInv lock start s) (isOther : OtherEvent s event)
    (enabled : LockEnabled lock s.lock event) (ok : lockExec lock s.lock event = .ok t) :
    ConsoleInv lock start { s with lock := t } := by
  have curAt := inv.tasks s.lock.thread.cur
  have moved : Moved s.lock t (s.pc s.cur) := by
    cases event with
    | thread event => exact threadEvent_moved curAt ok
    | advance => exact lockAdvance_moved inv.lockInv curAt enabled.2 ok
    | acquire => exact isOther.elim
    | release => exact isOther.elim
  have tasks : ∀ task, TaskAt (t.pc task) (t.depth task) (s.pc task) := by
    intro task
    have taskAt := inv.lock_moved moved task
    rwa [ConsoleState.setPc, Function.update_eq_self] at taskAt
  refine ⟨?_, tasks, inv.screen⟩
  rcases inv.lockInv.exec enabled with ⟨t', ok', keeps⟩ | ⟨inner, panic, rfl, failed, -⟩
  · rw [ok] at ok'
    obtain rfl := Except.ok.inj ok'
    exact keeps fun task => Nat.lt_of_le_of_lt (tasks task).depth_le (by decide)
  · simp [lockExec, Thread.threadEvent, failed, liftPanic, bind, Except.bind] at ok

/-- `lock_acquire` is not called by the task that holds the lock. -/
theorem acquire (inv : ConsoleInv lock start s) (call : Call) (isPc : s.pc s.cur = .outside)
    (enabled : LockEnabled lock s.lock .acquire) :
    ConsoleInv lock start { s.setPc (.acquire call) with lock := lockAcquire s.lock } := by
  have curAt := inv.tasks s.cur
  rw [isPc] at curAt
  have notHolder : s.lock.holder ≠ some s.lock.thread.cur := by
    intro holds
    rcases holder_inside inv.lockInv holds with held | entering
    · exact absurd curAt.2 held.ne'
    · rw [show s.lock.pc s.lock.thread.cur = .outside from curAt.1] at entering
      simp at entering
  have moved : Moved s.lock (lockAcquire s.lock) (.acquire call) := by
    rw [lockAcquire, if_pos notHolder]
    exact .of_pc rfl rfl (.inl ⟨.inl rfl, curAt.2⟩)
  refine ⟨inv.lockInv.acquire enabled.2.1 enabled.2.2, inv.lock_moved moved, ?_⟩
  obtain ⟨part, isScreen, isPartial⟩ := inv.screen
  refine ⟨part, isScreen, partial_setPc isPartial (fun rest call isPrint => ?_) fun rest call isPrint => ?_⟩
  · rw [isPc] at isPrint
    cases isPrint
  · cases isPrint

theorem acquired (inv : ConsoleInv lock start s) (isPc : s.pc s.cur = .acquire call)
    (returned : s.lock.pc s.cur = .outside) : ConsoleInv lock start (s.setPc (.print call.text call)) := by
  have curAt := inv.tasks s.cur
  rw [isPc] at curAt
  have depth : s.lock.depth s.cur = 1 := by
    rcases curAt with ⟨acquires, _⟩ | ⟨_, depth⟩
    · rw [returned] at acquires
      unfold Acquires at acquires
      simp at acquires
    · exact depth
  have moved : Moved s.lock s.lock (.print call.text call) := ⟨⟨returned, depth⟩, fun _ _ => rfl, fun _ _ => rfl⟩
  refine ⟨inv.lockInv, inv.lock_moved moved, ?_⟩
  obtain ⟨part, isScreen, ⟨rfl, nobody⟩ | ⟨task, rest, call', isPrint, -⟩⟩ := inv.screen
  · exact ⟨[], isScreen, .inr ⟨s.cur, call.text, call, Function.update_self .., rfl⟩⟩
  · have isCur := inv.lockInv.unique s.cur task (.inl (by omega)) (inv.inside isPrint)
    rw [← isCur, isPc] at isPrint
    cases isPrint

theorem put {char : UInt8} (inv : ConsoleInv lock start s) (isPc : s.pc s.cur = .print (char :: rest) call)
    (isPut : s.display.putChar char = some display) :
    ConsoleInv lock start { s.setPc (.print rest call) with display := display } := by
  have curAt := inv.tasks s.cur
  rw [isPc] at curAt
  have moved : Moved s.lock s.lock (.print rest call) := ⟨curAt, fun _ _ => rfl, fun _ _ => rfl⟩
  refine ⟨inv.lockInv, inv.lock_moved moved, ?_⟩
  obtain ⟨part, isScreen, isText⟩ := inv.part_of_print isPc
  refine ⟨part ++ [char], ?_, .inr ⟨s.cur, rest, call, Function.update_self .., ?_⟩⟩
  · show start.putChars (s.printed.flatMap Call.text ++ (part ++ [char])) = some display
    rw [← List.append_assoc, putChars_append, isScreen, Option.bind_some, putChars_cons, isPut]
    rfl
  · rw [List.append_assoc]
    exact isText

theorem release {t : LockState} (inv : ConsoleInv lock start s) (isPc : s.pc s.cur = .print [] call)
    (enabled : LockEnabled lock s.lock .release) (ok : lockRelease s.lock = .ok t) :
    ConsoleInv lock start { s.setPc .release with lock := t, printed := s.printed ++ [call] } := by
  have curAt := inv.tasks s.cur
  rw [isPc] at curAt
  obtain ⟨t', ok', tInv⟩ := inv.lockInv.release enabled.2.1 enabled.2.2.1 enabled.2.2.2
  rw [ok] at ok'
  obtain rfl := Except.ok.inj ok'
  have moved : Moved s.lock t .release := by
    unfold lockRelease at ok
    split at ok
    · obtain rfl := Except.ok.inj ok
      exact .of_pc rfl rfl (.inl ⟨.inl rfl, curAt.2⟩)
    · cases ok
  refine ⟨tInv, inv.lock_moved moved, ?_⟩
  obtain ⟨part, isScreen, isText⟩ := inv.part_of_print isPc
  rw [List.append_nil] at isText
  refine ⟨[], ?_, .inl ⟨rfl, fun task rest call' isPrint => ?_⟩⟩
  · rw [List.append_nil, List.flatMap_append, List.flatMap_singleton, ← isText]
    exact isScreen
  · by_cases isCur : task = s.cur
    · rw [isCur, show (s.setPc .release).pc s.cur = .release from Function.update_self ..] at isPrint
      cases isPrint
    · rw [show (s.setPc .release).pc task = s.pc task from Function.update_of_ne isCur ..] at isPrint
      exact isCur (inv.prints_unique isPrint isPc)

theorem released (inv : ConsoleInv lock start s) (isPc : s.pc s.cur = .release)
    (returned : s.lock.pc s.cur = .outside) : ConsoleInv lock start (s.setPc .outside) := by
  have curAt := inv.tasks s.cur
  rw [isPc] at curAt
  have depth : s.lock.depth s.cur = 0 := by
    rcases curAt with ⟨releases, _⟩ | ⟨_, depth⟩
    · rw [returned] at releases
      unfold Releases at releases
      simp at releases
    · exact depth
  have moved : Moved s.lock s.lock .outside := ⟨⟨returned, depth⟩, fun _ _ => rfl, fun _ _ => rfl⟩
  refine ⟨inv.lockInv, inv.lock_moved moved, ?_⟩
  obtain ⟨part, isScreen, isPartial⟩ := inv.screen
  refine ⟨part, isScreen, partial_setPc isPartial (fun rest call isPrint => ?_) fun rest call isPrint => ?_⟩
  · rw [isPc] at isPrint
    cases isPrint
  · cases isPrint

theorem step {s' : ConsoleState} (inv : ConsoleInv lock start s) (step : ConsoleStep lock s s') :
    ConsoleInv lock start s' := by
  cases step with
  | other isOther enabled ok => exact inv.other isOther enabled ok
  | call call isPc enabled => exact inv.acquire call isPc enabled
  | acquired isPc _ returned => exact inv.acquired isPc returned
  | put isPc _ isPut => exact inv.put isPc isPut
  | release isPc enabled ok => exact inv.release isPc enabled ok
  | released isPc _ returned => exact inv.released isPc returned

end ConsoleInv

theorem console_inv {start s : ConsoleState} (initial : ConsoleInitial lock start)
    (run : Relation.ReflTransGen (ConsoleStep lock) start s) : ConsoleInv lock start.display s := by
  induction run with
  | refl => exact .ofInitial initial
  | tail _ step inductionHypothesis => exact inductionHypothesis.step step

/-- In every interleaving of tasks that print by the console: the screen is what the texts of
whole calls leave, one after the other, and then the beginning of the text of the one task that
is printing; and no `ASSERT` of the lock fails. -/
theorem console_texts_whole {start s : ConsoleState} (initial : ConsoleInitial lock start)
    (run : Relation.ReflTransGen (ConsoleStep lock) start s) :
    (∃ part, start.display.putChars (s.printed.flatMap Call.text ++ part) = some s.display ∧ Partial s part) ∧
    (∀ first second rest rest' call call', s.pc first = .print rest call → s.pc second = .print rest' call' →
      first = second) ∧
    ∀ event panic, LockEnabled lock s.lock event → lockExec lock s.lock event = .error panic →
      OtherPrimitive lock event := by
  have inv := console_inv initial run
  exact ⟨inv.screen, fun _ _ _ _ _ _ => inv.prints_unique, fun _ _ => inv.lockInv.otherPrimitive⟩

/-- The boot state with a dark display. -/
def bootConsole : ConsoleState := ⟨bootLock, ⟨⟨0, fun _ => 0⟩, fun _ => 0, [], 0⟩, fun _ => .outside, []⟩

theorem bootConsole_initial (lock : SemaId) : ConsoleInitial lock bootConsole :=
  ⟨bootLock_initial lock, fun _ => rfl, rfl⟩

/-- The main task calls `console_put_char`. -/
theorem console_texts_whole_called : ∃ s : ConsoleState, s.pc 0 = .acquire (.putChar 0x41) ∧
    (∃ part, bootConsole.display.putChars (s.printed.flatMap Call.text ++ part) = some s.display ∧ Partial s part) ∧
    (∀ first second rest rest' call call', s.pc first = .print rest call → s.pc second = .print rest' call' →
      first = second) ∧
    ∀ event panic, LockEnabled 5 s.lock event → lockExec 5 s.lock event = .error panic → OtherPrimitive 5 event := by
  have enabled : LockEnabled 5 bootConsole.lock .acquire := ⟨rfl, by decide, rfl⟩
  have step : ConsoleStep 5 bootConsole _ := .call (.putChar 0x41) rfl enabled
  exact ⟨_, rfl, console_texts_whole (bootConsole_initial 5) (.single step)⟩

end ZyOs.Device.Console
