import ZyOs.Fs.HeapNeutral

/-!
Contract: the blocks in use over the runs of the system.

Owns:
- `FsCall` and `Action`: what a step of a run is; a call runs to its end;
- `Tidy`: what a call must not meet so that it gives every block back;
- `HeapNeutral` for every tidy call, whatever came before it in the run.
-/

namespace ZyOs.Fs.Calls

open ZyOs.Kernel ZyOs.Memory ZyOs.Lib

variable {s₀ s s' : State} {blocks refs : List Ptr} {ptr : Ptr}

/-! ### Forking -/

/-- More openings are counted than there are references. -/
theorem Ledger.countUp (ledger : Ledger s₀ blocks refs s) (ptr : Ptr) :
    Ledger s₀ blocks refs { s with
      inode := Function.update s.inode ptr
        { s.inode ptr with iOpenCnts := (s.inode ptr).iOpenCnts + 1 } } := by
  apply ledger.recount (fun other _ => rfl)
  have counted := ledger.counted ptr
  unfold openings at counted
  split
  · rename_i mem
    rw [if_pos mem] at counted
    show _ ≤ (s.inode ptr).iOpenCnts + 1
    omega
  · rename_i notMem
    rw [if_neg notMem] at counted
    exact counted

theorem updateInodeOpenCnts_ensures (fds : List Nat) :
    Ensures (Ledger s₀ blocks refs) (updateInodeOpenCnts fds) fun _ => Ledger s₀ blocks refs := by
  induction fds with
  | nil => exact Ensures.pure fun s ledger => ledger
  | cons localFd rest inductionHypothesis =>
      unfold updateInodeOpenCnts
      apply Ensures.bind Ensures.get
      intro read
      cases read.fdTable read.cur localFd with
      | none => exact inductionHypothesis.strengthen fun s holds => holds.1
      | some globalFd =>
          constructor
          rintro s a s' ⟨ledger, rfl⟩ isRun
          obtain ⟨_, s₁, isChecked, isRest⟩ := bind_eq_some isRun
          obtain ⟨_, isSame⟩ := check_eq_some isChecked
          rw [isSame] at isRest
          obtain ⟨ptr, s₂, isPtr, isRest⟩ := bind_eq_some isRest
          obtain ⟨_, _, isPair⟩ := Option.map_eq_some_iff.mp isPtr
          cases isPair
          obtain ⟨_, s₃, isSet, isRest⟩ := bind_eq_some isRest
          cases isSet
          exact inductionHypothesis.returns (ledger.countUp ptr) isRest

theorem sysFork_ensures (child : Pid) :
    Ensures (Ledger s₀ blocks refs) (sysFork child) fun _ => Ledger s₀ blocks refs := by
  unfold sysFork
  apply Ensures.bind quiet_get.ensures
  intro read
  apply Ensures.bind (quiet_check _).ensures
  intro _
  apply Ensures.bind (updateInodeOpenCnts_ensures _)
  intro _
  constructor
  intro s a s' ledger isRun
  cases isRun
  exact ledger.congr ⟨rfl, rfl, rfl, rfl, fun _ => rfl, fun _ => rfl⟩

/-! ### Steps -/

/-- The calls that are to leave the heap as it was. -/
inductive FsCall where
  | sysOpen (junk : Junk) (pathname : List UInt8) (flags : Nat)
  | sysClose (fd : Int)
  | sysRead (fd : Int) (count : UInt32)
  | sysWrite (fd : Int) (buf : Buf) (count : UInt32)
  | sysMkdir (junk : Junk) (pathname : List UInt8)
  | sysRmdir (fuel : Nat) (junk : Junk) (pathname : List UInt8)
  | sysUnlink (fuel : Nat) (junk : Junk) (pathname : List UInt8)
  | sysStat (junk : Junk) (path : List UInt8)
  | sysChdir (junk : Junk) (path : List UInt8)
  | sysGetcwd (fuel size : Nat)

/-- The state after a function that returns. -/
def after {α : Type} (call : Call α) (s : State) : Option State := (call s).map Prod.snd

/-- The call by the running task. -/
def FsCall.run : FsCall → State → Option State
  | .sysOpen junk pathname flags => after (Calls.sysOpen junk pathname flags)
  | .sysClose fd => after (Calls.sysClose fd)
  | .sysRead fd count => after (Calls.sysRead fd count)
  | .sysWrite fd buf count => after (Calls.sysWrite fd buf count)
  | .sysMkdir junk pathname => after (Calls.sysMkdir junk pathname)
  | .sysRmdir fuel junk pathname => after (Calls.sysRmdir fuel junk pathname)
  | .sysUnlink fuel junk pathname => after (Calls.sysUnlink fuel junk pathname)
  | .sysStat junk path => after (Calls.sysStat junk path)
  | .sysChdir junk path => after (Calls.sysChdir junk path)
  | .sysGetcwd fuel size => after (Calls.sysGetcwd fuel size)

/-- What a call must not meet: the opening of an existing file that is not in the
root directory; the root as the working directory; memory for the first buffer but
not for the second. -/
def Tidy (s : State) : FsCall → Prop
  | .sysOpen junk pathname flags => ¬ OpensBelow junk pathname flags s
  | .sysRead fd count => ¬ (2 < fd ∧ ReadsShort fd count s)
  | .sysWrite fd _ count => ¬ (0 ≤ fd ∧ fd ≠ 1 ∧ WritesShort fd count s)
  | .sysGetcwd _ _ => ¬ AtRoot s
  | _ => True

/-- A step of a run: a call, or what else tasks do with descriptors, directories and
the heap. -/
inductive Action where
  | call (fsCall : FsCall)
  | sysLseek (fd : Int) (offset : Int32) (whence : Nat)
  | sysOpendir (junk : Junk) (name : List UInt8)
  | sysClosedir (dir : Dir)
  | sysMalloc (pgdirNull : Bool)
  | sysFree (pgdirNull : Bool) (ptr : Ptr)
  | sysFork (child : Pid)
  | schedule (pid : Pid)
  | keyboard (keys : List UInt8)

/-- A task frees no block of an inode or of an open directory. -/
def Action.run : Action → State → Option State
  | .call fsCall => fsCall.run
  | .sysLseek fd offset whence => after (Calls.sysLseek fd offset whence)
  | .sysOpendir junk name => after (Calls.sysOpendir junk name)
  | .sysClosedir dir => after (Calls.sysClosedir dir)
  | .sysMalloc pgdirNull => after (Calls.sysMalloc pgdirNull)
  | .sysFree pgdirNull ptr => after do
      let s ← get
      check (ptr ∉ dirBlocks s ++ s.openInodes)
      Calls.sysFree pgdirNull ptr
  | .sysFork child => after (Calls.sysFork child)
  | .schedule pid => fun s => some { s with cur := pid }
  | .keyboard keys => fun s => some { s with keys := s.keys ++ keys }

/-- The state once the file system is mounted: the root directory is open, and no
file is. -/
structure Booted (s : State) : Prop where
  openInodes : s.openInodes = [s.rootInode]
  rootLive : s.heap s.rootInode ≠ none
  rootCnts : (s.inode s.rootInode).iOpenCnts = 1
  noFiles : ∀ fdIdx, (s.fileTable fdIdx).fdInode = none
  noDirs : s.dirs = []

/-- The states of the runs of the system. -/
inductive Reachable : State → Prop where
  | boot {s : State} (booted : Booted s) : Reachable s
  | step {s s' : State} (reachable : Reachable s) (action : Action) (isRun : action.run s = some s') :
      Reachable s'

theorem after_eq_some {α : Type} {call : Call α} (isRun : after call s = some s') :
    ∃ a, call s = some (a, s') := by
  obtain ⟨⟨a, _⟩, isCall, rfl⟩ := Option.map_eq_some_iff.mp isRun
  exact ⟨a, isCall⟩

/-- What a call leaves over, whether it is tidy or not. -/
theorem FsCall.run_leftOver {call : FsCall} (ledger : Ledger s₀ [] [] s)
    (isRun : call.run s = some s') : LeftOver s₀ (Tidy s call) s' := by
  cases call <;> obtain ⟨_, isRun⟩ := after_eq_some isRun
  case sysOpen => exact sysOpen_leftOver ledger isRun
  case sysRead => exact sysRead_leftOver ledger isRun
  case sysWrite => exact sysWrite_leftOver ledger isRun
  case sysGetcwd => exact sysGetcwd_leftOver ledger isRun
  case sysClose => exact ((sysClose_ensures _).returns ledger isRun).nothingLeft _
  case sysMkdir => exact ((sysMkdir_ensures _ _).returns ledger isRun).nothingLeft _
  case sysRmdir => exact ((sysRmdir_ensures _ _ _).returns ledger isRun).nothingLeft _
  case sysUnlink => exact ((sysUnlink_ensures _ _ _).returns ledger isRun).nothingLeft _
  case sysStat => exact ((sysStat_ensures _ _).returns ledger isRun).nothingLeft _
  case sysChdir => exact ((sysChdir_ensures _ _).returns ledger isRun).nothingLeft _

theorem quiet_sysLseek (fd : Int) (offset : Int32) (whence : Nat) :
    Quiet (Calls.sysLseek fd offset whence) := by
  intro s a s' isRun
  unfold Calls.sysLseek at isRun
  split at isRun
  · exact quiet_pure none s a s' isRun
  · obtain ⟨_, s₁, isChecked, isRest⟩ := bind_eq_some isRun
    rw [(check_eq_some isChecked).2] at isRest
    obtain ⟨globalFd, s₂, isSlot, isRest⟩ := bind_eq_some isRest
    rw [(fdLocal2global_eq_some isSlot).2] at isRest
    obtain ⟨read, s₃, isRead, isRest⟩ := bind_eq_some isRest
    cases isRead
    obtain ⟨ptr, s₄, isPtr, isRest⟩ := bind_eq_some isRest
    obtain ⟨_, _, isPair⟩ := Option.map_eq_some_iff.mp isPtr
    cases isPair
    dsimp only at isRest
    split at isRest
    · exact quiet_pure none s a s' isRest
    · cases isRest
      exact sameTables_setFile rfl

/-- There is one reference, that of `root_dir`. -/
theorem Booted.ledger (booted : Booted s) : Ledger s [] [] s := by
  have noBlocks : [] ++ (dirBlocks s ++ s.openInodes) = [s.rootInode] := by
    rw [dirBlocks, booted.noDirs, booted.openInodes]
    rfl
  refine ⟨?_, ?_, fun _ mem _ => mem.resolve_left List.not_mem_nil, fun _ isLive => .inl isLive,
    fun _ isLive => .inl isLive, fun ptr => ?_⟩
  · rw [noBlocks]
    exact List.nodup_singleton _
  · intro ptr mem
    rw [noBlocks] at mem
    rw [List.mem_singleton.mp mem]
    exact booted.rootLive
  · have noFiles : fileRefs s ptr = 0 := by
      apply List.countP_eq_zero.mpr
      intro fdIdx _
      rw [booted.noFiles]
      simp
    have noDirs : dirRefs s ptr = 0 := by
      rw [dirRefs, booted.noDirs]
      rfl
    unfold references openings
    rw [noFiles, noDirs, booted.openInodes, List.count_nil]
    by_cases isRoot : ptr = s.rootInode
    · rw [if_pos isRoot, isRoot, if_pos List.mem_cons_self, booted.rootCnts]
    · rw [if_neg isRoot]
      exact Nat.zero_le _

theorem Action.run_ledger {action : Action} (ledger : Ledger s [] [] s)
    (isRun : action.run s = some s') : Ledger s' [] [] s' := by
  cases action with
  | call fsCall =>
      obtain ⟨left, leftRefs, held, _⟩ := FsCall.run_leftOver ledger isRun
      exact held.settled
  | sysLseek fd offset whence =>
      obtain ⟨_, isRun⟩ := after_eq_some isRun
      exact (ledger.congr (quiet_sysLseek _ _ _ _ _ _ isRun)).settled
  | sysOpendir junk name =>
      obtain ⟨_, isRun⟩ := after_eq_some isRun
      exact sysOpendir_settled ledger isRun
  | sysClosedir dir =>
      obtain ⟨_, isRun⟩ := after_eq_some isRun
      exact sysClosedir_settled ledger isRun
  | sysMalloc pgdirNull =>
      obtain ⟨_, isRun⟩ := after_eq_some isRun
      exact ((sysMalloc_ensures pgdirNull).returns ledger isRun).settled
  | sysFree pgdirNull ptr =>
      obtain ⟨_, isRun⟩ := after_eq_some isRun
      obtain ⟨read, s₁, isRead, isRest⟩ := bind_eq_some isRun
      cases isRead
      obtain ⟨_, s₂, isChecked, isRest⟩ := bind_eq_some isRest
      obtain ⟨notIn, isSame⟩ := check_eq_some isChecked
      rw [isSame] at isRest
      have isLive : s.heap ptr ≠ none := by
        rw [(sysFree_eq_some isRest).1.2]
        exact Option.some_ne_none _
      have live : ∀ other ∈ [ptr] ++ (dirBlocks s ++ s.openInodes), s.heap other ≠ none := by
        intro other mem
        rcases List.mem_cons.mp mem with rfl | mem
        · exact isLive
        · exact ledger.live other mem
      obtain ⟨before, held⟩ := exists_ledger (List.nodup_cons.mpr ⟨notIn, ledger.nodup⟩) live
        ledger.counted
      exact ((sysFree_ensures pgdirNull ptr).returns held isRest).settled
  | sysFork child =>
      obtain ⟨_, isRun⟩ := after_eq_some isRun
      exact ((sysFork_ensures child).returns ledger isRun).settled
  | schedule pid =>
      cases isRun
      have same : SameTables s { s with cur := pid } :=
        ⟨rfl, rfl, rfl, rfl, fun _ => rfl, fun _ => rfl⟩
      exact (ledger.congr same).settled
  | keyboard keys =>
      cases isRun
      have same : SameTables s { s with keys := s.keys ++ keys } :=
        ⟨rfl, rfl, rfl, rfl, fun _ => rfl, fun _ => rfl⟩
      exact (ledger.congr same).settled

theorem Reachable.ledger (reachable : Reachable s) : Ledger s [] [] s := by
  induction reachable with
  | boot booted => exact booted.ledger
  | step _ action isRun inductionHypothesis => exact action.run_ledger inductionHypothesis isRun

/-! ### Heap neutrality -/

/-- The blocks in use differ by inodes only that are, or were, on the list. -/
def HeapNeutral (s s' : State) : Prop :=
  ∀ ptr, (s.heap ptr ≠ none ↔ s'.heap ptr ≠ none) ∨ ptr ∈ s.openInodes ∨ ptr ∈ s'.openInodes

theorem Ledger.heapNeutral (ledger : Ledger s₀ [] refs s) : HeapNeutral s₀ s := by
  intro ptr
  by_cases wasLive : s₀.heap ptr ≠ none
  · rcases ledger.lost ptr wasLive with isLive | wasOpen
    · exact .inl (iff_of_true wasLive isLive)
    · exact .inr (.inl wasOpen)
  · by_cases isLive : s.heap ptr ≠ none
    · rcases ledger.gained ptr isLive with wasLive' | mem | isOpen
      · exact absurd wasLive' wasLive
      · cases mem
      · exact .inr (.inr isOpen)
    · exact .inl (iff_of_false wasLive isLive)

/-- In every run, a tidy call leaves the heap as it was, whatever it returns and
whichever calls came before. -/
theorem calls_heap_neutral (reachable : Reachable s) {call : FsCall} (tidy : Tidy s call)
    (isRun : call.run s = some s') : HeapNeutral s s' := by
  obtain ⟨left, leftRefs, held, nothing⟩ := FsCall.run_leftOver reachable.ledger isRun
  rw [nothing tidy] at held
  exact held.heapNeutral

/-! ### After booting -/

/-- A process with nothing open, in the root directory. -/
def bootState : State where
  part := blankVolume
  heap := fun ptr => if ptr = kHeapStart then some .kernel else none
  answers := fun asked => some (0x8049000 + 4096 * asked)
  asked := 0
  inode := fun _ => ⟨⟨0, 48, 0, 0, fun _ => 0, 0, 0⟩, 1, false⟩
  openInodes := [kHeapStart]
  rootInode := kHeapStart
  fileTable := fun _ => ⟨0, 0, none⟩
  cur := 1
  pgdirNull := fun _ => false
  fdTable := fun _ fd => if fd < 3 then some fd else none
  cwdInodeNr := fun _ => 0
  dirs := []
  keys := []

theorem bootState_booted : Booted bootState where
  openInodes := rfl
  rootLive := by decide
  rootCnts := rfl
  noFiles _ := rfl
  noDirs := rfl

/-- `mkdir /` finds the directory, and frees its buffer. -/
theorem mkdir_root_heap_neutral :
    ∃ s', (FsCall.sysMkdir ⟨⟨[], 0, .unknown⟩, 0⟩ [slash]).run bootState = some s' ∧
      HeapNeutral bootState s' := by
  have returns : ((FsCall.sysMkdir ⟨⟨[], 0, .unknown⟩, 0⟩ [slash]).run bootState).isSome = true := rfl
  obtain ⟨s', isRun⟩ := Option.isSome_iff_exists.mp returns
  have tidy : Tidy bootState (.sysMkdir ⟨⟨[], 0, .unknown⟩, 0⟩ [slash]) := trivial
  exact ⟨s', isRun, calls_heap_neutral (.boot bootState_booted) tidy isRun⟩

/-- `sys_getcwd` in the root directory keeps its buffer. -/
theorem getcwd_root_not_neutral :
    Reachable bootState ∧ ∃ s', (FsCall.sysGetcwd 1 16).run bootState = some s' ∧
      ¬ HeapNeutral bootState s' := by
  refine ⟨.boot bootState_booted, _, rfl, fun neutral => ?_⟩
  rcases neutral 0x8049000 with same | wasOpen | isOpen
  · exact absurd rfl (same.mpr (by decide))
  · revert wasOpen
    decide
  · revert isOpen
    decide

end ZyOs.Fs.Calls
