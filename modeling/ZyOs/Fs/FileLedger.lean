import ZyOs.Fs.HeapLedger
import ZyOs.Lib.OnePlace

/-!
Contract: the search for a path and the functions on open files in the ledger.

Owns:
- the entry of every function that takes or gives back a slot of `file_table`;
- what `file_write` and `file_read` leave over when there is memory for the first of
  their two buffers only.
-/

namespace ZyOs.Fs.Calls

open ZyOs.Kernel ZyOs.Memory ZyOs.Lib

variable {s₀ s s' : State} {blocks refs : List Ptr} {ptr : Ptr}

/-! ### The search -/

theorem quiet_parseName (size : Nat) (subPath : Option (List UInt8)) : Quiet (parseName size subPath) :=
  (quiet_check _).bind fun _ => quiet_pure _

theorem check_eq_some {condition : Prop} [Decidable condition] {a : Unit}
    (isRun : check condition s = some (a, s')) : condition ∧ s' = s := by
  unfold check at isRun
  split at isRun
  · rename_i holds
    cases isRun
    exact ⟨holds, rfl⟩
  · cases isRun

theorem check_ensures {pre : State → Prop} (condition : Prop) [Decidable condition] :
    Ensures pre (check condition) fun _ => pre :=
  Ensures.unchanged fun _ _ _ isRun => (check_eq_some isRun).2

theorem parseName_ensures {pre : State → Prop} (size : Nat) (subPath : Option (List UInt8)) :
    Ensures pre (parseName size subPath) fun _ => pre := by
  unfold parseName
  apply Ensures.bind (check_ensures _)
  intro _
  exact Ensures.pure fun s holds => holds

section Accounts

variable {held : List Ptr → List Ptr → State → Prop}

/-- The search holds a directory: the one in which it looks, and the one that it
returns. -/
theorem Accounts.searchLoop (accounts : Accounts held) (fuel : Nat) (parentDir : Dir)
    (parentInodeNo : Nat) (name : List UInt8) (subPath : Option (List UInt8))
    (searchedPath : List UInt8) (dirE : DirEntry) :
    Ensures (held (parentDir.ownBlock ++ blocks) (parentDir.ownRef ++ refs))
      (searchLoop fuel parentDir parentInodeNo name subPath searchedPath dirE) fun record =>
        held (record.parentDir.ownBlock ++ blocks) (record.parentDir.ownRef ++ refs) := by
  induction fuel generalizing parentDir parentInodeNo name subPath searchedPath dirE with
  | zero => exact Ensures.failure
  | succ fuel inductionHypothesis =>
      unfold Calls.searchLoop
      split
      · apply Ensures.bind (accounts.dirClose parentDir)
        intro _
        apply Ensures.bind (accounts.dirOpen parentInodeNo)
        intro dir
        exact Ensures.pure fun s holds => holds
      · apply Ensures.bind (check_ensures _)
        intro _
        apply Ensures.bind (accounts.searchDirEntry parentDir name)
        intro found
        cases found with
        | none => exact Ensures.pure fun s holds => holds
        | some dirE =>
            apply Ensures.bind (parseName_ensures _ _)
            intro parsed
            obtain ⟨name, subPath⟩ := parsed
            cases dirE.fType with
            | directory =>
                dsimp only
                apply Ensures.bind Ensures.read
                intro s
                apply Ensures.bind (accounts.dirClose parentDir)
                intro _
                apply Ensures.bind (accounts.dirOpen dirE.iNo)
                intro dir
                exact inductionHypothesis dir _ name subPath _ dirE
            | regular =>
                dsimp only
                exact Ensures.pure fun s holds => holds
            | unknown =>
                dsimp only
                exact inductionHypothesis parentDir _ name subPath _ dirE

theorem Accounts.searchFile (accounts : Accounts held) (junk : Junk) (pathname : List UInt8) :
    Ensures (held blocks refs) (searchFile junk pathname) fun record =>
      held (record.parentDir.ownBlock ++ blocks) (record.parentDir.ownRef ++ refs) := by
  unfold Calls.searchFile
  apply Ensures.bind Ensures.read
  intro s
  split
  · exact Ensures.pure fun s holds => holds
  · apply Ensures.bind (check_ensures _)
    intro _
    apply Ensures.bind (parseName_ensures _ _)
    intro parsed
    exact accounts.searchLoop _ (rootDir s) 0 parsed.1 parsed.2 [] junk.dirE

end Accounts

theorem searchFile_ensures (junk : Junk) (pathname : List UInt8) :
    Ensures (Ledger s₀ blocks refs) (searchFile junk pathname) fun record =>
      Ledger s₀ (record.parentDir.ownBlock ++ blocks) (record.parentDir.ownRef ++ refs) :=
  (ledger_accounts s₀).searchFile junk pathname

theorem quiet_depthLoop (fuel : Nat) (isName : Bool) (subPath : Option (List UInt8)) (depth : Nat) :
    Quiet (depthLoop fuel isName subPath depth) := by
  induction fuel generalizing isName subPath depth with
  | zero => exact quiet_failure
  | succ fuel inductionHypothesis =>
      cases isName with
      | false => exact quiet_pure depth
      | true => exact (quiet_parseName _ _).bind fun parsed => inductionHypothesis _ _ _

theorem quiet_pathDepthCnt (junk : Junk) (pathname : List UInt8) : Quiet (pathDepthCnt junk pathname) :=
  (quiet_parseName _ _).bind fun _ => quiet_depthLoop _ _ _ _

/-! ### Open files -/

theorem fileRefs_update (s : State) {fdIdx : Nat} (inTable : fdIdx < maxFileOpen) (file : File)
    (ptr : Ptr) :
    fileRefs { s with fileTable := Function.update s.fileTable fdIdx file } ptr +
        (if (s.fileTable fdIdx).fdInode = some ptr then 1 else 0) =
      fileRefs s ptr + if file.fdInode = some ptr then 1 else 0 := by
  have one := @countP_one_place _ _ List.nodup_range fdIdx (List.mem_range.mpr inTable)
    (fun idx => decide ((s.fileTable idx).fdInode = some ptr))
    (fun idx => decide ((Function.update s.fileTable fdIdx file idx).fdInode = some ptr))
    fun other _ ne => by rw [Function.update_of_ne ne]
  rw [Function.update_self] at one
  simp only [decide_eq_true_eq] at one
  exact one

/-- A free slot takes over a reference of the call. -/
theorem Ledger.takeSlot (ledger : Ledger s₀ blocks (ptr :: refs) s) {fdIdx : Nat}
    (inTable : fdIdx < maxFileOpen) (isFree : (s.fileTable fdIdx).fdInode = none) {file : File}
    (refers : file.fdInode = some ptr) :
    Ledger s₀ blocks refs { s with fileTable := Function.update s.fileTable fdIdx file } := by
  refine ⟨ledger.nodup, ledger.live, ledger.old, ledger.gained, ledger.lost, fun other => ?_⟩
  have counted := ledger.counted other
  have slots := fileRefs_update s inTable file other
  show refs.count other + (fileRefs _ other + dirRefs s other + if other = s.rootInode then 1 else 0) ≤
    openings s other
  unfold references at counted
  rw [isFree, refers, if_neg (Option.some_ne_none other).symm] at slots
  by_cases same : other = ptr
  · rw [same, List.count_cons_self] at counted
    rw [same, if_pos rfl] at slots
    rw [same]
    omega
  · rw [count_cons_other same] at counted
    rw [if_neg (fun isPtr => same (Option.some.inj isPtr).symm)] at slots
    omega

/-- A slot gives its reference to the call. -/
theorem Ledger.clearSlot (ledger : Ledger s₀ blocks refs s) {fdIdx : Nat}
    (inTable : fdIdx < maxFileOpen) (refers : (s.fileTable fdIdx).fdInode = some ptr) {file : File}
    (isFree : file.fdInode = none) :
    Ledger s₀ blocks (ptr :: refs) { s with fileTable := Function.update s.fileTable fdIdx file } := by
  refine ⟨ledger.nodup, ledger.live, ledger.old, ledger.gained, ledger.lost, fun other => ?_⟩
  have counted := ledger.counted other
  have slots := fileRefs_update s inTable file other
  show (ptr :: refs).count other +
    (fileRefs _ other + dirRefs s other + if other = s.rootInode then 1 else 0) ≤ openings s other
  unfold references at counted
  rw [isFree, refers, if_neg (Option.some_ne_none other).symm] at slots
  by_cases same : other = ptr
  · rw [same, if_pos rfl] at slots
    rw [same] at counted
    rw [same, List.count_cons_self]
    omega
  · rw [if_neg (fun isPtr => same (Option.some.inj isPtr).symm)] at slots
    rw [count_cons_other same]
    omega

/-- A function that does not write to `file_table`. -/
def KeepsFiles {α : Type} (call : Call α) : Prop :=
  ∀ s a s', call s = some (a, s') → s'.fileTable = s.fileTable

theorem KeepsFiles.bind {α β : Type} {call : Call α} {next : α → Call β} (first : KeepsFiles call)
    (rest : ∀ a, KeepsFiles (next a)) : KeepsFiles (call >>= next) := by
  intro s b s' isRun
  obtain ⟨a, s₁, isFirst, isNext⟩ := bind_eq_some isRun
  exact (rest a s₁ b s' isNext).trans (first s a s₁ isFirst)

theorem keepsFiles_get : KeepsFiles (get : Call State) := by
  intro s a s' isRun
  cases isRun
  rfl

theorem keepsFiles_sysMalloc (pgdirNull : Bool) : KeepsFiles (sysMalloc pgdirNull) := by
  intro s a s' isRun
  unfold sysMalloc at isRun
  split at isRun
  · cases isRun
    rfl
  · split at isRun
    · cases isRun
      rfl
    · cases isRun
      rfl

theorem keepsFiles_deref (ptr : Option Ptr) : KeepsFiles (deref ptr) := by
  intro s a s' isRun
  obtain ⟨_, _, isPair⟩ := Option.map_eq_some_iff.mp isRun
  cases isPair
  rfl

theorem keepsFiles_mallocUnchecked : KeepsFiles mallocUnchecked :=
  (keepsFiles_get.bind fun _ => keepsFiles_sysMalloc _).bind fun ptr => keepsFiles_deref ptr

theorem keepsFiles_sysFree (pgdirNull : Bool) (ptr : Ptr) : KeepsFiles (sysFree pgdirNull ptr) := by
  intro s _ s' isRun
  obtain ⟨_, rfl⟩ := sysFree_eq_some isRun
  rfl

theorem keepsFiles_free (ptr : Ptr) : KeepsFiles (free ptr) :=
  keepsFiles_get.bind fun _ => keepsFiles_sysFree _ ptr

theorem keepsFiles_inodeOpen (inodeNo : Nat) : KeepsFiles (inodeOpen inodeNo) := by
  apply keepsFiles_get.bind
  intro read
  cases read.openInodes.find? fun ptr => (read.inode ptr).iNo = inodeNo with
  | some ptr =>
      intro s a s' isRun
      cases isRun
      rfl
  | none =>
      apply KeepsFiles.bind
      · intro s a s' isRun
        obtain ⟨_, _, isPair⟩ := Option.map_eq_some_iff.mp isRun
        cases isPair
        rfl
      intro node
      apply (keepsFiles_sysMalloc true).bind
      intro inodeFound
      apply keepsFiles_mallocUnchecked.bind
      intro inodeBuf
      apply (keepsFiles_deref inodeFound).bind
      intro ptr
      apply KeepsFiles.bind
      · intro s a s' isRun
        cases isRun
        rfl
      intro _
      apply (keepsFiles_free inodeBuf).bind
      intro _ s a s' isRun
      cases isRun
      rfl

/-- What a function says about the ledger, with what it keeps of `file_table`. -/
theorem KeepsFiles.ensures {α : Type} {call : Call α} (keeps : KeepsFiles call) {pre : State → Prop}
    {post : α → State → Prop} (ensures : Ensures pre call post) (table : Nat → File) :
    Ensures (fun s => pre s ∧ s.fileTable = table) call fun a s => post a s ∧ s.fileTable = table :=
  ⟨fun holds isRun => ⟨ensures.returns holds.1 isRun, (keeps _ _ _ isRun).trans holds.2⟩⟩

/-- `get_free_slot_in_global` finds a free slot of the table. -/
theorem getFreeSlotInGlobal_ensures {pre : State → Prop} :
    Ensures pre getFreeSlotInGlobal fun found s => pre s ∧ ∀ fdIdx, found = some fdIdx →
      fdIdx < maxFileOpen ∧ (s.fileTable fdIdx).fdInode = none := by
  constructor
  intro s found s' holds isRun
  cases isRun
  refine ⟨holds, fun fdIdx isFound => ?_⟩
  have mem := List.mem_range'_1.mp (List.mem_of_find?_eq_some isFound)
  have isFree := List.find?_some isFound
  exact ⟨by simp only [maxFileOpen] at mem ⊢; omega, by simpa using isFree⟩

theorem quiet_pcbFdInstall (globalFdIdx : Nat) : Quiet (pcbFdInstall globalFdIdx) := by
  apply quiet_get.bind
  intro read
  cases (List.range' 3 (maxFilesOpenPerProc - 3)).find? fun fd => read.fdTable read.cur fd = none with
  | none => exact quiet_pure none
  | some fd => exact (quiet_setFd fd _).bind fun _ => quiet_pure _

theorem fileOpen_ensures (inodeNo flag : Nat) :
    Ensures (Ledger s₀ blocks refs) (fileOpen inodeNo flag) fun _ => Ledger s₀ blocks refs := by
  unfold fileOpen
  apply Ensures.bind getFreeSlotInGlobal_ensures
  intro found
  cases found with
  | none => exact Ensures.pure fun s holds => holds.1
  | some fdIdx =>
      apply Ensures.of_state
      rintro read ⟨ledger, isSlot⟩
      obtain ⟨inTable, isFree⟩ := isSlot fdIdx rfl
      have opened := (keepsFiles_inodeOpen inodeNo).ensures
        (@inodeOpen_ensures s₀ blocks refs inodeNo) read.fileTable
      apply Ensures.bind (opened.strengthen fun s isRead => by rw [isRead]; exact ⟨ledger, rfl⟩)
      intro ptr
      have taken : Ensures (fun s => Ledger s₀ blocks (ptr :: refs) s ∧ s.fileTable = read.fileTable)
          (setFile fdIdx ⟨0, flag, some ptr⟩) fun _ => Ledger s₀ blocks refs := by
        constructor
        rintro s _ s' ⟨ledger, isTable⟩ isRun
        cases isRun
        exact ledger.takeSlot inTable (by rw [isTable]; exact isFree) rfl
      apply Ensures.bind taken
      intro _
      split
      · apply Ensures.bind quiet_get.ensures
        intro s
        split
        · exact Ensures.pure fun s ledger => ledger
        · exact ((quiet_setWriteDeny ptr true).bind fun _ => quiet_pcbFdInstall fdIdx).ensures
      · exact (quiet_pcbFdInstall fdIdx).ensures

/-- The state without what is in this slot. -/
def clearSlot (s : State) (fdIdx : Nat) : State :=
  { s with fileTable := Function.update s.fileTable fdIdx ⟨0, 0, none⟩ }

/-- A slot refers to a new inode that is not on the list yet. -/
structure Pending (s₀ : State) (ptr : Ptr) (fdIdx : Nat) (blocks refs : List Ptr) (s : State) : Prop where
  cleared : Ledger s₀ (ptr :: blocks) refs (clearSlot s fdIdx)
  inTable : fdIdx < maxFileOpen
  refers : (s.fileTable fdIdx).fdInode = some ptr

/-- A free slot is set to a new inode. -/
theorem Ledger.pending (ledger : Ledger s₀ (ptr :: blocks) refs s) {fdIdx : Nat}
    (inTable : fdIdx < maxFileOpen) (isFree : (s.fileTable fdIdx).fdInode = none) {file : File}
    (refers : file.fdInode = some ptr) :
    Pending s₀ ptr fdIdx blocks refs
      { s with fileTable := Function.update s.fileTable fdIdx file } := by
  refine ⟨ledger.congr ⟨rfl, rfl, rfl, rfl, fun idx => ?_, fun _ => rfl⟩, inTable, ?_⟩
  · show (Function.update (Function.update s.fileTable fdIdx file) fdIdx ⟨0, 0, none⟩ idx).fdInode = _
    rw [Function.update_idem]
    by_cases isSlot : idx = fdIdx
    · rw [isSlot, Function.update_self, isFree]
    · rw [Function.update_of_ne isSlot]
  · show (Function.update s.fileTable fdIdx file fdIdx).fdInode = some ptr
    rw [Function.update_self, refers]

theorem Quiet.pending {α : Type} {call : Call α} (quiet : Quiet call) {fdIdx : Nat} :
    Ensures (Pending s₀ ptr fdIdx blocks refs) call fun _ => Pending s₀ ptr fdIdx blocks refs := by
  constructor
  intro s a s' pending isRun
  have same := quiet s a s' isRun
  refine ⟨pending.cleared.congr ⟨same.heap, same.openInodes, same.rootInode, same.dirs, fun idx => ?_,
    same.iOpenCnts⟩, pending.inTable, (same.fdInode fdIdx).trans pending.refers⟩
  show (Function.update s'.fileTable fdIdx ⟨0, 0, none⟩ idx).fdInode =
    (Function.update s.fileTable fdIdx ⟨0, 0, none⟩ idx).fdInode
  by_cases isSlot : idx = fdIdx
  · rw [isSlot, Function.update_self, Function.update_self]
  · rw [Function.update_of_ne isSlot, Function.update_of_ne isSlot, same.fdInode]

/-- The new inode comes onto the list, where the slot refers to it. -/
theorem pushInode_pending {fdIdx : Nat} (node : InodeTable.Inode) (writeDeny : Bool) :
    Ensures (Pending s₀ ptr fdIdx blocks refs) (pushInode ptr node writeDeny) fun _ =>
      Ledger s₀ blocks refs := by
  constructor
  intro s _ s' pending isRun
  have pushed := (pushInode_ensures ptr node writeDeny).returns pending.cleared rfl
  cases isRun
  have isFree : ((clearSlot s fdIdx).fileTable fdIdx).fdInode = none := by
    simp only [clearSlot, Function.update_self]
  have taken := pushed.takeSlot pending.inTable isFree pending.refers
  have isTable : Function.update (clearSlot s fdIdx).fileTable fdIdx (s.fileTable fdIdx) =
      s.fileTable := by
    simp only [clearSlot, Function.update_idem, Function.update_eq_self]
  dsimp only at taken
  rw [isTable] at taken
  exact taken

theorem createEntry_ensures (parentDir : Dir) (filename : List UInt8) (inodeNo fdIdx : Nat) :
    Ensures (Pending s₀ ptr fdIdx blocks refs) (createEntry parentDir filename inodeNo fdIdx ptr)
      fun done => Ledger s₀ (if done then blocks else ptr :: blocks) refs := by
  unfold createEntry
  apply Ensures.bind (quiet_onPart _).pending
  intro newDirEntry
  apply Ensures.bind (quiet_syncDirEntry _ _).pending
  intro synced
  cases synced with
  | true =>
      apply Ensures.bind quiet_get.pending
      intro s
      apply Ensures.bind (quiet_onPart _).pending
      intro _
      apply Ensures.bind (pushInode_pending _ _)
      intro _
      exact Ensures.pure fun s ledger => ledger
  | false =>
      constructor
      intro s done s' pending isRun
      cases isRun
      exact pending.cleared

theorem onPart_eq_some {α : Type} {step : Volume → Option (Volume × α)} {a : α}
    (isRun : onPart step s = some (a, s')) :
    ∃ part, step s.part = some (part, a) ∧ s' = { s with part := part } := by
  obtain ⟨⟨part, _⟩, isStep, isPair⟩ := Option.map_eq_some_iff.mp isRun
  cases isPair
  exact ⟨part, isStep, rfl⟩

theorem inodeBitmapAlloc_ensures :
    Ensures (Ledger s₀ blocks refs) (onPart fun part => part.inodeBitmapAlloc) fun allocated s =>
      Ledger s₀ blocks refs s ∧ allocated ≠ none := by
  constructor
  intro s allocated s' ledger isRun
  obtain ⟨part, isStep, _⟩ := onPart_eq_some isRun
  exact ⟨(quiet_onPart _).ensures.returns ledger isRun, Volume.inodeBitmapAlloc_isSome isStep⟩

theorem quiet_unset (inodeNo : Nat) :
    Quiet (onPart fun part => some (part.setInodeBit inodeNo false, ())) :=
  quiet_onPart _

theorem fileCreate_ensures (parentDir : Dir) (filename : List UInt8) (flag : Nat) :
    Ensures (Ledger s₀ blocks refs) (fileCreate parentDir filename flag) fun _ =>
      Ledger s₀ blocks refs := by
  unfold fileCreate
  apply Ensures.bind malloc_ensures
  intro answer
  cases answer with
  | none => exact Ensures.pure fun s ledger => ledger
  | some ioBuf =>
      apply Ensures.bind inodeBitmapAlloc_ensures
      intro allocated
      cases allocated with
      | none => exact Ensures.pure fun s holds => absurd rfl holds.2
      | some inodeNo =>
          apply Ensures.bind (malloc_ensures.strengthen fun s holds => holds.1)
          intro answer
          cases answer with
          | none =>
              apply Ensures.bind (quiet_unset inodeNo).ensures
              intro _
              apply Ensures.bind (free_ensures ioBuf)
              intro _
              exact Ensures.pure fun s ledger => ledger
          | some newFileInode =>
              apply Ensures.bind getFreeSlotInGlobal_ensures
              intro found
              cases found with
              | none =>
                  apply Ensures.bind ((free_ensures newFileInode).strengthen fun s holds => holds.1)
                  intro _
                  apply Ensures.bind (quiet_unset inodeNo).ensures
                  intro _
                  apply Ensures.bind (free_ensures ioBuf)
                  intro _
                  exact Ensures.pure fun s ledger => ledger
              | some fdIdx =>
                  have pends : Ensures (fun s => Ledger s₀ (newFileInode :: ioBuf :: blocks) refs s ∧
                      ∀ idx, some fdIdx = some idx →
                        idx < maxFileOpen ∧ (s.fileTable idx).fdInode = none)
                      (setFile fdIdx ⟨0, flag, some newFileInode⟩) fun _ =>
                        Pending s₀ newFileInode fdIdx (ioBuf :: blocks) refs := by
                    constructor
                    rintro s _ s' ⟨ledger, isSlot⟩ isRun
                    obtain ⟨inTable, isFree⟩ := isSlot fdIdx rfl
                    cases isRun
                    exact ledger.pending inTable isFree rfl
                  apply Ensures.bind pends
                  intro _
                  apply Ensures.bind (createEntry_ensures parentDir filename inodeNo fdIdx)
                  intro done
                  cases done with
                  | true =>
                      apply Ensures.bind (free_ensures ioBuf)
                      intro _
                      exact (quiet_pcbFdInstall fdIdx).ensures
                  | false =>
                      apply Ensures.bind (free_ensures newFileInode)
                      intro _
                      apply Ensures.bind (quiet_unset inodeNo).ensures
                      intro _
                      apply Ensures.bind (free_ensures ioBuf)
                      intro _
                      exact Ensures.pure fun s ledger => ledger

/-- `fd_local2global` finds a slot of the table. -/
theorem fdLocal2global_ensures (localFd : Nat) :
    Ensures (Ledger s₀ blocks refs) (fdLocal2global localFd) fun globalFd s =>
      Ledger s₀ blocks refs s ∧ globalFd < maxFileOpen := by
  unfold fdLocal2global
  apply Ensures.bind (quiet_check _).ensures
  intro _
  apply Ensures.bind quiet_get.ensures
  intro read
  apply Ensures.bind (quiet_deref _).ensures
  intro globalFd
  constructor
  intro s found s' ledger isRun
  unfold check at isRun
  by_cases inTable : globalFd < maxFileOpen
  · simp only [inTable, if_true] at isRun
    cases isRun
    exact ⟨ledger, inTable⟩
  · simp only [inTable, if_false] at isRun
    cases isRun

/-- `inode_close` does not look at `file_table`. -/
theorem inodeClose_withFiles {table : Nat → File} {a : Unit} (isRun : inodeClose ptr s = some (a, s')) :
    inodeClose ptr { s with fileTable := table } = some (a, { s' with fileTable := table }) ∧
      s'.fileTable = s.fileTable := by
  rw [inodeClose_eq] at isRun ⊢
  by_cases isZero : OpenFiles.countDown (s.inode ptr).iOpenCnts = 0
  · rw [if_pos isZero] at isRun
    obtain ⟨may, rfl⟩ := sysFree_eq_some isRun
    refine ⟨(if_pos isZero).trans (sysFree_eq may), rfl⟩
  · rw [if_neg isZero] at isRun
    cases isRun
    exact ⟨if_neg isZero, rfl⟩

/-- The slot refers to its inode until the inode is closed. -/
theorem fileClose_ensures {fdIdx : Nat} (inTable : fdIdx < maxFileOpen) :
    Ensures (Ledger s₀ blocks refs) (fileClose fdIdx) fun _ => Ledger s₀ blocks refs := by
  unfold fileClose
  apply Ensures.bind Ensures.get
  intro read
  apply Ensures.bind (deref_ensures _)
  intro ptr
  apply Ensures.of_state
  rintro s ⟨⟨ledger, isRead⟩, refers⟩
  rw [isRead] at refers
  have denied : Ensures (· = s) (setWriteDeny ptr false) fun _ s =>
      Ledger s₀ blocks refs s ∧ (s.fileTable fdIdx).fdInode = some ptr := by
    constructor
    intro s₁ _ s' isState isRun
    rw [isState] at isRun
    have same := quiet_setWriteDeny ptr false s _ s' isRun
    exact ⟨ledger.congr same, (same.fdInode fdIdx).trans refers⟩
  apply Ensures.bind denied
  intro _
  constructor
  rintro s _ s' ⟨ledger, refers⟩ isRun
  obtain ⟨_, s₁, isClosed, isRest⟩ := bind_eq_some isRun
  have cleared := @Ledger.clearSlot s₀ s blocks refs ptr ledger fdIdx inTable refers
    { s.fileTable fdIdx with fdInode := none } rfl
  obtain ⟨isRun₁, isTable⟩ := inodeClose_withFiles isClosed
  have closed := (inodeClose_ensures ptr).returns cleared isRun₁
  cases isRest
  rw [isTable]
  exact closed

/-- The slot keeps its inode. -/
theorem sameTables_setFile {fdIdx : Nat} {file : File} (same : file.fdInode = (s.fileTable fdIdx).fdInode) :
    SameTables s { s with fileTable := Function.update s.fileTable fdIdx file } := by
  refine ⟨rfl, rfl, rfl, rfl, fun idx => ?_, fun _ => rfl⟩
  show (Function.update s.fileTable fdIdx file idx).fdInode = _
  by_cases isSlot : idx = fdIdx
  · rw [isSlot, Function.update_self, same]
  · rw [Function.update_of_ne isSlot]

theorem quiet_setOpenFile (fdIdx : Nat) (ptr : Ptr) (file : OpenFile) :
    Quiet (setOpenFile fdIdx ptr file) := by
  intro s a s' isRun
  obtain ⟨read, s₁, isRead, isRest⟩ := bind_eq_some isRun
  cases isRead
  obtain ⟨_, s₂, isSet, isNode⟩ := bind_eq_some isRest
  have same : SameTables s s₂ := by
    cases isSet
    exact sameTables_setFile rfl
  exact same.trans (quiet_setNode ptr file.inode s₂ a s' isNode)

/-- There is memory for a buffer, but not for a second one. -/
def RunsShort (s : State) : Prop :=
  ∃ ptr s₁ s₂, malloc s = some (some ptr, s₁) ∧ malloc s₁ = some (none, s₂)

/-- What a call leaves over is nothing, if it is tidy. -/
def LeftOver (s₀ : State) (tidy : Prop) (s' : State) : Prop :=
  ∃ left refs, Ledger s₀ left refs s' ∧ (tidy → left = [])

theorem Ledger.nothingLeft (ledger : Ledger s₀ [] refs s) (tidy : Prop) : LeftOver s₀ tidy s :=
  ⟨[], refs, ledger, fun _ => rfl⟩

theorem writeData_ensures (file : OpenFile) (buf : Buf) (count : UInt32) :
    Ensures (Ledger s₀ blocks refs)
      (onPart fun part => (writeData part file buf count).map fun result =>
        (result.1, result.2.1, result.2.2))
      fun result s => Ledger s₀ blocks refs s ∧ result.2 = some count := by
  constructor
  intro s result s' ledger isRun
  obtain ⟨part, isStep, _⟩ := onPart_eq_some isRun
  obtain ⟨⟨part₁, file₁, written⟩, isWrite, isPair⟩ := Option.map_eq_some_iff.mp isStep
  cases isPair
  exact ⟨(quiet_onPart _).ensures.returns ledger isRun, writeData_written isWrite⟩

theorem fileWrite_leftOver {fdIdx : Nat} {buf : Buf} {count : UInt32} {written : Option UInt32}
    (ledger : Ledger s₀ [] [] s) (isRun : fileWrite fdIdx buf count s = some (written, s')) :
    LeftOver s₀ (¬ ((∃ ptr, (s.fileTable fdIdx).fdInode = some ptr ∧
      ¬ (s.inode ptr).node.iSize + count > maxFileSize) ∧ RunsShort s)) s' := by
  unfold fileWrite at isRun
  obtain ⟨read, s₁, isRead, isRest⟩ := bind_eq_some isRun
  cases isRead
  obtain ⟨ptr, s₁, isPtr, isRest⟩ := bind_eq_some isRest
  obtain ⟨_, refers, isPair⟩ := Option.map_eq_some_iff.mp isPtr
  cases isPair
  dsimp only at isRest
  split at isRest
  · cases isRest
    exact ledger.nothingLeft _
  · rename_i fits
    obtain ⟨first, s₁, isFirst, isRest⟩ := bind_eq_some isRest
    have held := malloc_ensures.returns ledger isFirst
    cases first with
    | none =>
        cases isRest
        exact held.nothingLeft _
    | some ioBuf =>
        obtain ⟨second, s₂, isSecond, isRest⟩ := bind_eq_some isRest
        have held := malloc_ensures.returns held isSecond
        cases second with
        | none =>
            cases isRest
            exact ⟨[ioBuf], [], held, fun tidy =>
              absurd ⟨⟨ptr, refers, fits⟩, ioBuf, s₁, _, isFirst, isSecond⟩ tidy⟩
        | some allBlocks =>
            obtain ⟨⟨file, done⟩, s₃, isWrite, isRest⟩ := bind_eq_some isRest
            obtain ⟨held, isDone⟩ := (writeData_ensures _ buf count).returns held isWrite
            dsimp only at isDone isRest
            rw [isDone] at isRest
            obtain ⟨_, s₄, isSet, isRest⟩ := bind_eq_some isRest
            have held := (quiet_setOpenFile fdIdx ptr file).ensures.returns held isSet
            obtain ⟨_, s₅, isFree, isRest⟩ := bind_eq_some isRest
            have held := (free_ensures allBlocks).returns held isFree
            obtain ⟨_, s₆, isFree, isRest⟩ := bind_eq_some isRest
            have held := (free_ensures ioBuf).returns held isFree
            cases isRest
            exact held.nothingLeft _

theorem fileRead_leftOver {fdIdx : Nat} {count : UInt32} {bytes : Option (List UInt8)}
    (ledger : Ledger s₀ [] [] s) (isRun : fileRead fdIdx count s = some (bytes, s')) :
    LeftOver s₀ (¬ ((∃ ptr, (s.fileTable fdIdx).fdInode = some ptr ∧
      ¬ atEnd ⟨(s.fileTable fdIdx).fdPos, (s.inode ptr).node⟩ count) ∧ RunsShort s)) s' := by
  unfold fileRead at isRun
  obtain ⟨read, s₁, isRead, isRest⟩ := bind_eq_some isRun
  cases isRead
  obtain ⟨ptr, s₁, isPtr, isRest⟩ := bind_eq_some isRest
  obtain ⟨_, refers, isPair⟩ := Option.map_eq_some_iff.mp isPtr
  cases isPair
  dsimp only at isRest
  split at isRest
  · cases isRest
    exact ledger.nothingLeft _
  · rename_i notEnd
    obtain ⟨first, s₁, isFirst, isRest⟩ := bind_eq_some isRest
    have held := malloc_ensures.returns ledger isFirst
    obtain ⟨second, s₂, isSecond, isRest⟩ := bind_eq_some isRest
    have held := malloc_ensures.returns held isSecond
    cases second with
    | none =>
        cases isRest
        refine ⟨first.toList, [], by simpa using held, fun tidy => ?_⟩
        cases first with
        | none => rfl
        | some ioBuf => exact absurd ⟨⟨ptr, refers, notEnd⟩, ioBuf, s₁, _, isFirst, isSecond⟩ tidy
    | some allBlocks =>
        obtain ⟨ioBuf, s₃, isPtr, isRest⟩ := bind_eq_some isRest
        obtain ⟨_, rfl, isPair⟩ := Option.map_eq_some_iff.mp isPtr
        cases isPair
        obtain ⟨⟨file, data⟩, s₄, isRead, isRest⟩ := bind_eq_some isRest
        have held := (quiet_onPart _).ensures.returns held isRead
        obtain ⟨_, s₅, isSet, isRest⟩ := bind_eq_some isRest
        have held := (quiet_setOpenFile fdIdx ptr file).ensures.returns held isSet
        obtain ⟨_, s₆, isFree, isRest⟩ := bind_eq_some isRest
        have held := (free_ensures allBlocks).returns held isFree
        obtain ⟨_, s₇, isFree, isRest⟩ := bind_eq_some isRest
        have held := (free_ensures ioBuf).returns held isFree
        cases isRest
        exact held.nothingLeft _

end ZyOs.Fs.Calls
