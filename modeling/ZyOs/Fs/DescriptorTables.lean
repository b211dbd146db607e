import ZyOs.Fs.HeapRuns
import ZyOs.Fs.SearchEffects

/-!
Contract: the two tables that a descriptor goes through, over the runs of the system.

Owns:
- `KeepsTables`, for every call that leaves `file_table` and `fd_table` alone;
- `Reserved`: 0 to 2 are reserved in both tables, and a descriptor from 3 on leads to
  a slot from 3 on;
- that every step of a run keeps `Reserved`.

Does not own: which slots are open. A slot that a descriptor leads to may be empty,
when another process closed it.
-/

namespace ZyOs.Fs.Calls

open ZyOs.Kernel ZyOs.Memory ZyOs.Lib

variable {s₀ s s' : State} {α β : Type} {ptr : Ptr}

/-! ### Calls that leave the tables alone -/

def KeepsTables (call : Call α) : Prop :=
  ∀ s a s', call s = some (a, s') → s'.fileTable = s.fileTable ∧ s'.fdTable = s.fdTable

theorem KeepsTables.bind {call : Call α} {next : α → Call β} (first : KeepsTables call)
    (rest : ∀ a, KeepsTables (next a)) : KeepsTables (call >>= next) := by
  intro s b s' isRun
  obtain ⟨a, s₁, isFirst, isNext⟩ := bind_eq_some isRun
  obtain ⟨firstFiles, firstFds⟩ := first s a s₁ isFirst
  obtain ⟨restFiles, restFds⟩ := rest a s₁ b s' isNext
  exact ⟨restFiles.trans firstFiles, restFds.trans firstFds⟩

theorem keepsTables_pure (a : α) : KeepsTables (pure a) := by
  intro s b s' isRun
  cases isRun
  exact ⟨rfl, rfl⟩

/-- A call, and then a value that is returned. -/
theorem KeepsTables.returns {call : Call α} (first : KeepsTables call) (b : β) :
    KeepsTables (call >>= fun _ => pure b) :=
  first.bind fun _ => keepsTables_pure b

theorem keepsTables_get : KeepsTables (get : Call State) := by
  intro s a s' isRun
  cases isRun
  exact ⟨rfl, rfl⟩

theorem keepsTables_failure : KeepsTables (failure : Call α) := by
  intro s a s' isRun
  cases isRun

theorem keepsTables_modify {step : State → State}
    (same : ∀ s, (step s).fileTable = s.fileTable ∧ (step s).fdTable = s.fdTable) :
    KeepsTables (modify step : Call PUnit) := by
  intro s a s' isRun
  cases isRun
  exact same s

theorem keepsTables_check (condition : Prop) [Decidable condition] : KeepsTables (check condition) := by
  intro s a s' isRun
  rw [(check_eq_some isRun).2]
  exact ⟨rfl, rfl⟩

theorem keepsTables_deref (ptr : Option Ptr) : KeepsTables (deref ptr) := by
  intro s a s' isRun
  rw [(deref_eq_some isRun).2]
  exact ⟨rfl, rfl⟩

theorem keepsTables_onPart (step : Volume → Option (Volume × α)) : KeepsTables (onPart step) := by
  intro s a s' isRun
  obtain ⟨part, _, isAfter⟩ := onPart_eq_some isRun
  rw [isAfter]
  exact ⟨rfl, rfl⟩

theorem keepsTables_sysMalloc (pgdirNull : Bool) : KeepsTables (sysMalloc pgdirNull) := by
  intro s a s' isRun
  obtain ⟨heap, isAfter, _⟩ := sysMalloc_eq_some isRun
  rw [isAfter]
  exact ⟨rfl, rfl⟩

theorem keepsTables_sysFree (pgdirNull : Bool) (ptr : Ptr) : KeepsTables (sysFree pgdirNull ptr) := by
  intro s a s' isRun
  rw [(sysFree_eq_some isRun).2]
  exact ⟨rfl, rfl⟩

theorem keepsTables_malloc : KeepsTables malloc :=
  keepsTables_get.bind fun _ => keepsTables_sysMalloc _

theorem keepsTables_mallocUnchecked : KeepsTables mallocUnchecked :=
  keepsTables_malloc.bind keepsTables_deref

theorem keepsTables_free (ptr : Ptr) : KeepsTables (free ptr) :=
  keepsTables_get.bind fun _ => keepsTables_sysFree _ ptr

theorem keepsTables_setInode (ptr : Ptr) (inode : MemInode) : KeepsTables (setInode ptr inode) := by
  intro s a s' isRun
  cases isRun
  exact ⟨rfl, rfl⟩

theorem keepsTables_setNode (ptr : Ptr) (node : InodeTable.Inode) : KeepsTables (setNode ptr node) :=
  keepsTables_get.bind fun _ => keepsTables_setInode ptr _

theorem keepsTables_setWriteDeny (ptr : Ptr) (value : Bool) : KeepsTables (setWriteDeny ptr value) :=
  keepsTables_get.bind fun _ => keepsTables_setInode ptr _

theorem keepsTables_pushInode (ptr : Ptr) (node : InodeTable.Inode) (writeDeny : Bool) :
    KeepsTables (pushInode ptr node writeDeny) := by
  intro s a s' isRun
  cases isRun
  exact ⟨rfl, rfl⟩

theorem keepsTables_inodeOpen (inodeNo : Nat) : KeepsTables (inodeOpen inodeNo) := by
  unfold inodeOpen
  refine keepsTables_get.bind fun s => ?_
  split
  · exact (keepsTables_setInode _ _).returns _
  · refine (keepsTables_onPart _).bind fun node => ?_
    refine (keepsTables_sysMalloc true).bind fun inodeFound => ?_
    refine keepsTables_mallocUnchecked.bind fun inodeBuf => ?_
    refine (keepsTables_deref inodeFound).bind fun inodeFound => ?_
    refine (keepsTables_pushInode _ _ _).bind fun _ => ?_
    exact (keepsTables_free inodeBuf).returns inodeFound

theorem keepsTables_inodeClose (ptr : Ptr) : KeepsTables (inodeClose ptr) := by
  have unlinked : KeepsTables (unlinkInode ptr) := by
    intro s a s' isRun
    cases isRun
    exact ⟨rfl, rfl⟩
  unfold inodeClose
  refine keepsTables_get.bind fun s => ?_
  refine (keepsTables_setInode ptr _).bind fun _ => ?_
  split
  · exact unlinked.bind fun _ => keepsTables_sysFree true ptr
  · exact keepsTables_pure ()

theorem keepsTables_inodeRelease (inodeNo : Nat) : KeepsTables (inodeRelease inodeNo) := by
  unfold inodeRelease
  refine (keepsTables_inodeOpen inodeNo).bind fun inodeToDel => ?_
  refine keepsTables_get.bind fun s => ?_
  refine (keepsTables_check _).bind fun _ => ?_
  refine (keepsTables_onPart _).bind fun _ => ?_
  refine keepsTables_mallocUnchecked.bind fun ioBuf => ?_
  refine (keepsTables_onPart _).bind fun _ => ?_
  exact (keepsTables_free ioBuf).bind fun _ => keepsTables_inodeClose inodeToDel

/-! ### Directories and paths -/

theorem keepsTables_dirOpen (inodeNo : Nat) : KeepsTables (dirOpen inodeNo) := by
  unfold dirOpen
  refine keepsTables_malloc.bind fun pdir => ?_
  refine (keepsTables_inodeOpen inodeNo).bind fun inode => ?_
  exact (keepsTables_deref pdir).bind fun _ => keepsTables_pure _

theorem keepsTables_dirClose (dir : Dir) : KeepsTables (dirClose dir) := by
  unfold dirClose
  split
  · exact keepsTables_pure ()
  · exact (keepsTables_inodeClose _).bind fun _ => keepsTables_free _

theorem keepsTables_searchDirEntry (pdir : Dir) (name : List UInt8) :
    KeepsTables (searchDirEntry pdir name) := by
  unfold searchDirEntry
  refine keepsTables_malloc.bind fun allBlocks => ?_
  split
  · exact keepsTables_pure none
  · refine keepsTables_mallocUnchecked.bind fun buf => ?_
    refine keepsTables_get.bind fun s => ?_
    refine (keepsTables_free buf).bind fun _ => ?_
    exact (keepsTables_free _).returns _

theorem keepsTables_syncDirEntry (parentDir : Dir) (pDe : DirEntry) :
    KeepsTables (syncDirEntry parentDir pDe) := by
  unfold syncDirEntry
  refine keepsTables_get.bind fun s => ?_
  refine (keepsTables_onPart _).bind fun result => ?_
  exact (keepsTables_setNode _ _).returns _

theorem keepsTables_deleteDirEntry (fuel : Nat) (pdir : Dir) (inodeNo : Nat) :
    KeepsTables (deleteDirEntry fuel pdir inodeNo) := by
  unfold deleteDirEntry
  refine keepsTables_get.bind fun s => ?_
  refine (keepsTables_onPart _).bind fun result => ?_
  exact (keepsTables_setNode _ _).returns _

theorem keepsTables_dirIsEmpty (dir : Dir) : KeepsTables (dirIsEmpty dir) :=
  keepsTables_get.bind fun _ => keepsTables_pure _

theorem keepsTables_dirRemove (fuel : Nat) (parentDir childDir : Dir) :
    KeepsTables (dirRemove fuel parentDir childDir) := by
  unfold dirRemove
  refine keepsTables_get.bind fun s => ?_
  refine (keepsTables_check _).bind fun _ => ?_
  refine keepsTables_malloc.bind fun ioBuf => ?_
  split
  · exact keepsTables_pure false
  · refine (keepsTables_deleteDirEntry fuel parentDir _).bind fun _ => ?_
    refine (keepsTables_inodeRelease _).bind fun _ => ?_
    exact (keepsTables_free _).returns true

theorem keepsTables_parseName (size : Nat) (subPath : Option (List UInt8)) :
    KeepsTables (parseName size subPath) :=
  (keepsTables_check _).returns _

theorem keepsTables_depthLoop (fuel : Nat) : ∀ (isName : Bool) (subPath : Option (List UInt8)) (depth : Nat),
    KeepsTables (depthLoop fuel isName subPath depth) := by
  induction fuel with
  | zero => exact fun _ _ _ => keepsTables_failure
  | succ fuel inductionHypothesis =>
      intro isName subPath depth
      cases isName with
      | false => exact keepsTables_pure depth
      | true => exact (keepsTables_parseName _ subPath).bind fun _ => inductionHypothesis _ _ _

theorem keepsTables_pathDepthCnt (junk : Junk) (pathname : List UInt8) :
    KeepsTables (pathDepthCnt junk pathname) :=
  (keepsTables_parseName _ _).bind fun _ => keepsTables_depthLoop _ _ _ _

theorem keepsTables_searchLoop (fuel : Nat) : ∀ (parentDir : Dir) (parentInodeNo : Nat) (name : List UInt8)
    (subPath : Option (List UInt8)) (searchedPath : List UInt8) (dirE : DirEntry),
    KeepsTables (searchLoop fuel parentDir parentInodeNo name subPath searchedPath dirE) := by
  induction fuel with
  | zero => exact fun _ _ _ _ _ _ => keepsTables_failure
  | succ fuel inductionHypothesis =>
      intro parentDir parentInodeNo name subPath searchedPath dirE
      unfold searchLoop
      split
      · refine (keepsTables_dirClose parentDir).bind fun _ => ?_
        exact (keepsTables_dirOpen parentInodeNo).bind fun _ => keepsTables_pure _
      · refine (keepsTables_check _).bind fun _ => ?_
        refine (keepsTables_searchDirEntry parentDir name).bind fun found => ?_
        cases found with
        | none => exact keepsTables_pure _
        | some dirE =>
            refine (keepsTables_parseName _ _).bind fun parsed => ?_
            obtain ⟨name, subPath⟩ := parsed
            dsimp only
            cases dirE.fType with
            | directory =>
                refine keepsTables_get.bind fun s => ?_
                refine (keepsTables_dirClose parentDir).bind fun _ => ?_
                exact (keepsTables_dirOpen _).bind fun _ => inductionHypothesis _ _ _ _ _ _
            | regular => exact keepsTables_pure _
            | unknown => exact inductionHypothesis _ _ _ _ _ _

theorem keepsTables_searchFile (junk : Junk) (pathname : List UInt8) :
    KeepsTables (searchFile junk pathname) := by
  unfold searchFile
  refine keepsTables_get.bind fun s => ?_
  split
  · exact keepsTables_pure _
  · refine (keepsTables_check _).bind fun _ => ?_
    exact (keepsTables_parseName _ _).bind fun _ => keepsTables_searchLoop _ _ _ _ _ _ _

/-! ### Calls on directories -/

theorem keepsTables_sysUnlink (fuel : Nat) (junk : Junk) (pathname : List UInt8) :
    KeepsTables (sysUnlink fuel junk pathname) := by
  unfold sysUnlink
  refine (keepsTables_check _).bind fun _ => ?_
  refine (keepsTables_searchFile junk pathname).bind fun searchedRecord => ?_
  refine (keepsTables_check _).bind fun _ => ?_
  have closes := keepsTables_dirClose searchedRecord.parentDir
  split
  · exact closes.returns false
  · split
    · exact closes.returns false
    · refine keepsTables_get.bind fun s => ?_
      dsimp only
      split
      · exact closes.returns false
      · refine keepsTables_malloc.bind fun ioBuf => ?_
        cases ioBuf with
        | none => exact closes.returns false
        | some ioBuf =>
            refine (keepsTables_deleteDirEntry fuel _ _).bind fun _ => ?_
            refine (keepsTables_inodeRelease _).bind fun _ => ?_
            exact (keepsTables_free ioBuf).bind fun _ => closes.returns true

theorem keepsTables_linkDirectory (parentDir : Dir) (dirname : List UInt8) (inodeNo : Nat) :
    KeepsTables (linkDirectory parentDir dirname inodeNo) := by
  unfold linkDirectory
  refine keepsTables_get.bind fun s => ?_
  refine (keepsTables_onPart _).bind fun blockLba => ?_
  cases blockLba with
  | none => exact keepsTables_pure false
  | some blockLba =>
      refine (keepsTables_onPart _).bind fun newDirInode => ?_
      refine (keepsTables_onPart _).bind fun newDirEntry => ?_
      refine (keepsTables_syncDirEntry parentDir newDirEntry).bind fun done => ?_
      cases done with
      | true => exact keepsTables_get.bind fun _ => (keepsTables_onPart _).returns true
      | false => exact keepsTables_pure false

theorem keepsTables_sysMkdir (junk : Junk) (pathname : List UInt8) : KeepsTables (sysMkdir junk pathname) := by
  unfold sysMkdir
  refine keepsTables_malloc.bind fun ioBuf => ?_
  cases ioBuf with
  | none => exact keepsTables_pure false
  | some ioBuf =>
      refine (keepsTables_searchFile junk pathname).bind fun searchedRecord => ?_
      have closes := keepsTables_dirClose searchedRecord.parentDir
      have fails := closes.bind fun _ => (keepsTables_free ioBuf).returns false
      split
      · exact fails
      · refine (keepsTables_pathDepthCnt junk pathname).bind fun pathnameDepth => ?_
        refine (keepsTables_pathDepthCnt junk _).bind fun pathSearchedDepth => ?_
        split
        · exact fails
        · refine (keepsTables_onPart _).bind fun inodeNo => ?_
          cases inodeNo with
          | none => exact fails
          | some inodeNo =>
              refine (keepsTables_linkDirectory _ _ inodeNo).bind fun linked => ?_
              cases linked with
              | true => exact (keepsTables_free ioBuf).bind fun _ => closes.returns true
              | false => exact (keepsTables_onPart _).bind fun _ => fails

theorem keepsTables_sysOpendir (junk : Junk) (name : List UInt8) : KeepsTables (sysOpendir junk name) := by
  unfold sysOpendir
  refine (keepsTables_check _).bind fun _ => ?_
  split
  · exact keepsTables_get.bind fun s => keepsTables_pure _
  · refine (keepsTables_searchFile junk name).bind fun searchedRecord => ?_
    have closes := keepsTables_dirClose searchedRecord.parentDir
    split
    · exact closes.returns none
    · split
      · refine (keepsTables_dirOpen _).bind fun dir => ?_
        refine closes.bind fun _ => ?_
        refine KeepsTables.returns (keepsTables_modify ?_) (some dir)
        exact fun _ => ⟨rfl, rfl⟩
      · exact closes.returns none

theorem keepsTables_sysClosedir (dir : Dir) : KeepsTables (sysClosedir dir) := by
  unfold sysClosedir
  refine keepsTables_get.bind fun s => ?_
  split
  · exact keepsTables_pure ()
  · refine (keepsTables_check _).bind fun _ => ?_
    refine KeepsTables.bind (keepsTables_modify ?_) fun _ => keepsTables_dirClose dir
    exact fun _ => ⟨rfl, rfl⟩

theorem keepsTables_sysRmdir (fuel : Nat) (junk : Junk) (pathname : List UInt8) :
    KeepsTables (sysRmdir fuel junk pathname) := by
  unfold sysRmdir
  refine (keepsTables_searchFile junk pathname).bind fun searchedRecord => ?_
  refine (keepsTables_check _).bind fun _ => ?_
  have closes := keepsTables_dirClose searchedRecord.parentDir
  split
  · exact closes.returns false
  · split
    · exact closes.returns false
    · refine (keepsTables_dirOpen _).bind fun dir => ?_
      refine (keepsTables_dirIsEmpty dir).bind fun isEmpty => ?_
      cases isEmpty with
      | true =>
          refine (keepsTables_dirRemove fuel _ dir).bind fun removed => ?_
          exact (keepsTables_dirClose dir).bind fun _ => closes.returns removed
      | false => exact (keepsTables_dirClose dir).bind fun _ => closes.returns false

theorem keepsTables_getParentDirInodeNr (childInodeNr : Nat) :
    KeepsTables (getParentDirInodeNr childInodeNr) := by
  unfold getParentDirInodeNr
  refine (keepsTables_inodeOpen childInodeNr).bind fun childDirInode => ?_
  refine keepsTables_get.bind fun s => ?_
  refine (keepsTables_check _).bind fun _ => ?_
  exact (keepsTables_inodeClose childDirInode).bind fun _ => (keepsTables_check _).returns _

theorem keepsTables_getChildDirName (pInodeNr cInodeNr : Nat) (path : List UInt8) :
    KeepsTables (getChildDirName pInodeNr cInodeNr path) := by
  unfold getChildDirName
  refine (keepsTables_inodeOpen pInodeNr).bind fun parentDirInode => ?_
  refine keepsTables_get.bind fun s => ?_
  refine (keepsTables_inodeClose parentDirInode).bind fun _ => ?_
  split
  · exact keepsTables_pure none
  · exact (keepsTables_check _).returns _

theorem keepsTables_climbLoop (fuel : Nat) : ∀ (childInodeNr : Nat) (fullPathReverse : List UInt8),
    KeepsTables (climbLoop fuel childInodeNr fullPathReverse) := by
  induction fuel with
  | zero => exact fun _ _ => keepsTables_failure
  | succ fuel inductionHypothesis =>
      intro childInodeNr fullPathReverse
      unfold climbLoop
      split
      · exact keepsTables_pure _
      · refine (keepsTables_getParentDirInodeNr childInodeNr).bind fun parentInodeNr => ?_
        refine (keepsTables_getChildDirName parentInodeNr childInodeNr _).bind fun path => ?_
        cases path with
        | none => exact keepsTables_pure none
        | some path => exact (keepsTables_check _).bind fun _ => inductionHypothesis _ _

theorem keepsTables_sysGetcwd (fuel size : Nat) : KeepsTables (sysGetcwd fuel size) := by
  unfold sysGetcwd
  refine keepsTables_malloc.bind fun ioBuf => ?_
  cases ioBuf with
  | none => exact keepsTables_pure none
  | some ioBuf =>
      refine keepsTables_get.bind fun s => ?_
      refine (keepsTables_check _).bind fun _ => ?_
      split
      · exact keepsTables_pure _
      · refine (keepsTables_climbLoop fuel _ []).bind fun path => ?_
        cases path with
        | none => exact (keepsTables_free ioBuf).returns none
        | some path =>
            refine (keepsTables_check _).bind fun _ => ?_
            exact (keepsTables_onPart _).bind fun buf => (keepsTables_free ioBuf).returns (some buf)

theorem keepsTables_sysChdir (junk : Junk) (path : List UInt8) : KeepsTables (sysChdir junk path) := by
  unfold sysChdir
  refine (keepsTables_searchFile junk path).bind fun searchedRecord => ?_
  have closes := keepsTables_dirClose searchedRecord.parentDir
  split
  · exact closes.returns false
  · split
    · refine KeepsTables.bind (keepsTables_modify ?_) fun _ => closes.returns true
      exact fun _ => ⟨rfl, rfl⟩
    · exact closes.returns false

theorem keepsTables_sysStat (junk : Junk) (path : List UInt8) : KeepsTables (sysStat junk path) := by
  unfold sysStat
  split
  · exact keepsTables_get.bind fun s => keepsTables_pure _
  · refine (keepsTables_searchFile junk path).bind fun searchedRecord => ?_
    have closes := keepsTables_dirClose searchedRecord.parentDir
    split
    · exact closes.returns none
    · refine (keepsTables_inodeOpen _).bind fun objInode => ?_
      refine keepsTables_get.bind fun s => ?_
      exact (keepsTables_inodeClose objInode).bind fun _ => closes.returns _

/-! ### Reserved descriptors -/

/-- 0 to 2 are reserved in both tables, and lead to themselves. -/
structure Reserved (s : State) : Prop where
  standard : ∀ pid, ∀ fd < 3, s.fdTable pid fd = some fd
  leads : ∀ pid fd globalFd, 3 ≤ fd → fd < maxFilesOpenPerProc → s.fdTable pid fd = some globalFd →
    3 ≤ globalFd ∧ globalFd < maxFileOpen
  unused : ∀ fdIdx < 3, (s.fileTable fdIdx).fdInode = none ∧ (s.fileTable fdIdx).fdFlag = 0

/-- A call keeps `Reserved`. -/
abbrev StaysReserved (call : Call α) : Prop := Ensures Reserved call fun _ => Reserved

theorem Reserved.congr (reserved : Reserved s) (fileTable : s'.fileTable = s.fileTable)
    (fdTable : s'.fdTable = s.fdTable) : Reserved s' := by
  refine ⟨?_, ?_, ?_⟩
  · rw [fdTable]
    exact reserved.standard
  · rw [fdTable]
    exact reserved.leads
  · rw [fileTable]
    exact reserved.unused

theorem KeepsTables.reserved {call : Call α} (keeps : KeepsTables call) : StaysReserved call := by
  constructor
  intro s a s' reserved isRun
  obtain ⟨fileTable, fdTable⟩ := keeps s a s' isRun
  exact reserved.congr fileTable fdTable

theorem setFile_reserved {fdIdx : Nat} (low : 3 ≤ fdIdx) (file : File) : StaysReserved (setFile fdIdx file) := by
  constructor
  intro s a s' reserved isRun
  cases isRun
  refine ⟨reserved.standard, reserved.leads, fun other below => ?_⟩
  show (Function.update s.fileTable fdIdx file other).fdInode = none ∧
    (Function.update s.fileTable fdIdx file other).fdFlag = 0
  rw [Function.update_of_ne (by omega)]
  exact reserved.unused other below

/-- A slot that may be any is closed, or gets a new position. -/
theorem Reserved.setFile (reserved : Reserved s) (fdIdx : Nat) {file : File}
    (isFlag : file.fdFlag = (s.fileTable fdIdx).fdFlag)
    (isInode : file.fdInode = none ∨ file.fdInode = (s.fileTable fdIdx).fdInode) :
    Reserved { s with fileTable := Function.update s.fileTable fdIdx file } := by
  refine ⟨reserved.standard, reserved.leads, fun other below => ?_⟩
  show (Function.update s.fileTable fdIdx file other).fdInode = none ∧
    (Function.update s.fileTable fdIdx file other).fdFlag = 0
  by_cases isSlot : other = fdIdx
  · obtain ⟨noInode, noFlag⟩ := reserved.unused fdIdx (isSlot ▸ below)
    rw [isSlot, Function.update_self]
    refine ⟨?_, isFlag.trans noFlag⟩
    rcases isInode with isNone | isSame
    · exact isNone
    · exact isSame.trans noInode
  · rw [Function.update_of_ne isSlot]
    exact reserved.unused other below

theorem setFd_reserved {fd : Nat} (low : 3 ≤ fd) {globalFd : Option Nat}
    (leads : ∀ slot, globalFd = some slot → 3 ≤ slot ∧ slot < maxFileOpen) :
    StaysReserved (setFd fd globalFd) := by
  constructor
  intro s a s' reserved isRun
  cases isRun
  have entry : ∀ pid other,
      Function.update s.fdTable s.cur (Function.update (s.fdTable s.cur) fd globalFd) pid other =
        if pid = s.cur ∧ other = fd then globalFd else s.fdTable pid other := by
    intro pid other
    by_cases isCur : pid = s.cur
    · rw [isCur, Function.update_self]
      by_cases isFd : other = fd
      · rw [isFd, Function.update_self, if_pos ⟨rfl, rfl⟩]
      · rw [Function.update_of_ne isFd, if_neg fun both => isFd both.2]
    · rw [Function.update_of_ne isCur, if_neg fun both => isCur both.1]
  refine ⟨fun pid other below => ?_, fun pid other slot least inside isSlot => ?_, reserved.unused⟩
  · exact (entry pid other).trans ((if_neg (by omega)).trans (reserved.standard pid other below))
  · have isEntry := (entry pid other).symm.trans isSlot
    split at isEntry
    · exact leads slot isEntry
    · exact reserved.leads pid other slot least inside isEntry

theorem pcbFdInstall_reserved {globalFd : Nat} (low : 3 ≤ globalFd) (inTable : globalFd < maxFileOpen) :
    StaysReserved (pcbFdInstall globalFd) := by
  unfold pcbFdInstall
  apply Ensures.bind Ensures.read
  intro read
  cases isFound : (List.range' 3 (maxFilesOpenPerProc - 3)).find? fun fd => read.fdTable read.cur fd = none with
  | none => exact Ensures.pure fun _ reserved => reserved
  | some fd =>
      have least : 3 ≤ fd := (List.mem_range'_1.mp (List.mem_of_find?_eq_some isFound)).1
      apply Ensures.bind (setFd_reserved least fun slot isSlot => ?_)
      · exact fun _ => Ensures.pure fun _ reserved => reserved
      · cases isSlot
        exact ⟨low, inTable⟩

/-- The slot that is free is none of the reserved ones. -/
theorem getFreeSlotInGlobal_bounds {answer : Option Nat}
    (isRun : getFreeSlotInGlobal s = some (answer, s')) :
    s' = s ∧ ∀ fdIdx, answer = some fdIdx → 3 ≤ fdIdx ∧ fdIdx < maxFileOpen := by
  obtain ⟨read, s₁, isRead, isRest⟩ := bind_eq_some isRun
  cases isRead
  cases isRest
  refine ⟨rfl, fun fdIdx isSlot => ?_⟩
  obtain ⟨low, behind⟩ := List.mem_range'_1.mp (List.mem_of_find?_eq_some isSlot)
  refine ⟨low, ?_⟩
  simp only [maxFileOpen] at behind ⊢
  omega

/-- What is done with a free slot, when there is one. -/
theorem getFreeSlotInGlobal_reserved {next : Option Nat → Call α} (noSlot : StaysReserved (next none))
    (slot : ∀ fdIdx, 3 ≤ fdIdx → fdIdx < maxFileOpen → StaysReserved (next (some fdIdx))) :
    StaysReserved (getFreeSlotInGlobal >>= next) := by
  constructor
  intro s a s' reserved isRun
  obtain ⟨answer, s₁, isAnswer, isNext⟩ := bind_eq_some isRun
  obtain ⟨sameState, bounds⟩ := getFreeSlotInGlobal_bounds isAnswer
  rw [sameState] at isNext
  cases answer with
  | none => exact noSlot.returns reserved isNext
  | some fdIdx =>
      obtain ⟨low, inTable⟩ := bounds fdIdx rfl
      exact (slot fdIdx low inTable).returns reserved isNext

theorem fileOpen_reserved (inodeNo flag : Nat) : StaysReserved (fileOpen inodeNo flag) := by
  unfold fileOpen
  apply getFreeSlotInGlobal_reserved
  · exact Ensures.pure fun _ reserved => reserved
  · intro fdIdx low inTable
    apply Ensures.bind (keepsTables_inodeOpen inodeNo).reserved
    intro ptr
    apply Ensures.bind (setFile_reserved low _)
    intro _
    split
    · apply Ensures.bind Ensures.read
      intro read
      split
      · exact Ensures.pure fun _ reserved => reserved
      · apply Ensures.bind (keepsTables_setWriteDeny ptr true).reserved
        exact fun _ => pcbFdInstall_reserved low inTable
    · exact pcbFdInstall_reserved low inTable

theorem createEntry_reserved (parentDir : Dir) (filename : List UInt8) (inodeNo : Nat) {fdIdx : Nat}
    (low : 3 ≤ fdIdx) (ptr : Ptr) : StaysReserved (createEntry parentDir filename inodeNo fdIdx ptr) := by
  unfold createEntry
  apply Ensures.bind (keepsTables_onPart _).reserved
  intro newDirEntry
  apply Ensures.bind (keepsTables_syncDirEntry parentDir newDirEntry).reserved
  intro done
  cases done with
  | true =>
      have rest := (keepsTables_pushInode ptr (inodeInit inodeNo) false).returns true
      exact (keepsTables_get.bind fun _ => (keepsTables_onPart _).bind fun _ => rest).reserved
  | false =>
      apply Ensures.bind (setFile_reserved low _)
      exact fun _ => Ensures.pure fun _ reserved => reserved

theorem fileCreate_reserved (parentDir : Dir) (filename : List UInt8) (flag : Nat) :
    StaysReserved (fileCreate parentDir filename flag) := by
  unfold fileCreate
  apply Ensures.bind keepsTables_malloc.reserved
  intro ioBuf
  cases ioBuf with
  | none => exact Ensures.pure fun _ reserved => reserved
  | some ioBuf =>
      apply Ensures.bind (keepsTables_onPart _).reserved
      intro inodeNo
      cases inodeNo with
      | none => exact Ensures.pure fun _ reserved => reserved
      | some inodeNo =>
          have unset : KeepsTables (onPart fun part => some (part.setInodeBit inodeNo false, ())) :=
            keepsTables_onPart _
          have fails := (keepsTables_free ioBuf).returns (none : Option Nat)
          apply Ensures.bind keepsTables_malloc.reserved
          intro newFileInode
          cases newFileInode with
          | none => exact (unset.bind fun _ => fails).reserved
          | some newFileInode =>
              have frees := keepsTables_free newFileInode
              apply getFreeSlotInGlobal_reserved
              · exact (frees.bind fun _ => unset.bind fun _ => fails).reserved
              · intro fdIdx low inTable
                apply Ensures.bind (setFile_reserved low _)
                intro _
                apply Ensures.bind (createEntry_reserved parentDir filename inodeNo low newFileInode)
                intro created
                cases created with
                | true =>
                    apply Ensures.bind (keepsTables_free ioBuf).reserved
                    exact fun _ => pcbFdInstall_reserved low inTable
                | false => exact (frees.bind fun _ => unset.bind fun _ => fails).reserved

theorem sysOpen_reserved (junk : Junk) (pathname : List UInt8) (flags : Nat) :
    StaysReserved (sysOpen junk pathname flags) := by
  unfold sysOpen
  apply Ensures.bind (keepsTables_deref _).reserved
  intro lastChar
  split
  · exact Ensures.pure fun _ reserved => reserved
  · apply Ensures.bind (keepsTables_check _).reserved
    intro _
    apply Ensures.bind (keepsTables_pathDepthCnt junk pathname).reserved
    intro pathnameDepth
    apply Ensures.bind (keepsTables_searchFile junk pathname).reserved
    intro searchedRecord
    have closes := keepsTables_dirClose searchedRecord.parentDir
    split
    · exact (closes.returns none).reserved
    · apply Ensures.bind (keepsTables_pathDepthCnt junk _).reserved
      intro pathSearchedDepth
      split
      · exact (closes.returns none).reserved
      · split
        · split
          · apply Ensures.bind (fileCreate_reserved _ _ _)
            exact fun fd => (closes.returns fd).reserved
          · exact (closes.returns none).reserved
        · split
          · exact (closes.returns none).reserved
          · exact fileOpen_reserved _ _

/-! ### Calls on descriptors -/

theorem keepsTables_fdLocal2global (localFd : Nat) : KeepsTables (fdLocal2global localFd) := by
  unfold fdLocal2global
  refine (keepsTables_check _).bind fun _ => ?_
  refine keepsTables_get.bind fun s => ?_
  refine (keepsTables_deref _).bind fun globalFd => ?_
  exact (keepsTables_check _).returns globalFd

theorem fileClose_reserved (fdIdx : Nat) : StaysReserved (fileClose fdIdx) := by
  unfold fileClose
  apply Ensures.bind Ensures.read
  intro read
  apply Ensures.bind (keepsTables_deref _).reserved
  intro ptr
  apply Ensures.bind (keepsTables_setWriteDeny ptr false).reserved
  intro _
  apply Ensures.bind (keepsTables_inodeClose ptr).reserved
  intro _
  constructor
  intro s a s' reserved isRun
  obtain ⟨read, s₁, isRead, isSet⟩ := bind_eq_some isRun
  cases isRead
  cases isSet
  exact reserved.setFile fdIdx rfl (.inl rfl)

theorem sysClose_reserved (fd : Int) : StaysReserved (sysClose fd) := by
  unfold sysClose
  split
  · apply Ensures.bind (keepsTables_fdLocal2global _).reserved
    intro globalFd
    apply Ensures.bind (fileClose_reserved globalFd)
    intro _
    apply Ensures.bind (setFd_reserved (by omega) fun slot isSlot => by cases isSlot)
    exact fun _ => Ensures.pure fun _ reserved => reserved
  · exact Ensures.pure fun _ reserved => reserved

theorem setOpenFile_reserved (fdIdx : Nat) (ptr : Ptr) (file : OpenFile) :
    StaysReserved (setOpenFile fdIdx ptr file) := by
  constructor
  intro s a s' reserved isRun
  obtain ⟨read, s₁, isRead, isRest⟩ := bind_eq_some isRun
  cases isRead
  obtain ⟨_, s₂, isSet, isNode⟩ := bind_eq_some isRest
  cases isSet
  refine (keepsTables_setNode ptr file.inode).reserved.returns ?_ isNode
  exact reserved.setFile fdIdx rfl (.inr rfl)

theorem fileWrite_reserved (fdIdx : Nat) (buf : Buf) (count : UInt32) :
    StaysReserved (fileWrite fdIdx buf count) := by
  unfold fileWrite
  apply Ensures.bind Ensures.read
  intro read
  apply Ensures.bind (keepsTables_deref _).reserved
  intro ptr
  dsimp only
  split
  · exact Ensures.pure fun _ reserved => reserved
  · apply Ensures.bind keepsTables_malloc.reserved
    intro ioBuf
    cases ioBuf with
    | none => exact Ensures.pure fun _ reserved => reserved
    | some ioBuf =>
        apply Ensures.bind keepsTables_malloc.reserved
        intro allBlocks
        cases allBlocks with
        | none => exact Ensures.pure fun _ reserved => reserved
        | some allBlocks =>
            apply Ensures.bind (keepsTables_onPart _).reserved
            intro result
            apply Ensures.bind (setOpenFile_reserved fdIdx ptr _)
            intro _
            split
            · exact Ensures.pure fun _ reserved => reserved
            · have frees := (keepsTables_free allBlocks).bind fun _ => keepsTables_free ioBuf
              exact ((keepsTables_free allBlocks).bind fun _ => (keepsTables_free ioBuf).returns _).reserved

theorem fileRead_reserved (fdIdx : Nat) (count : UInt32) : StaysReserved (fileRead fdIdx count) := by
  unfold fileRead
  apply Ensures.bind Ensures.read
  intro read
  apply Ensures.bind (keepsTables_deref _).reserved
  intro ptr
  dsimp only
  split
  · exact Ensures.pure fun _ reserved => reserved
  · apply Ensures.bind keepsTables_malloc.reserved
    intro ioBuf
    apply Ensures.bind keepsTables_malloc.reserved
    intro allBlocks
    cases allBlocks with
    | none => exact Ensures.pure fun _ reserved => reserved
    | some allBlocks =>
        apply Ensures.bind (keepsTables_deref ioBuf).reserved
        intro ioBuf
        apply Ensures.bind (keepsTables_onPart _).reserved
        intro result
        apply Ensures.bind (setOpenFile_reserved fdIdx ptr _)
        intro _
        exact ((keepsTables_free allBlocks).bind fun _ => (keepsTables_free ioBuf).returns _).reserved

theorem sysWrite_reserved (fd : Int) (buf : Buf) (count : UInt32) : StaysReserved (sysWrite fd buf count) := by
  unfold sysWrite
  split
  · exact Ensures.pure fun _ reserved => reserved
  · split
    · exact ((keepsTables_check _).returns _).reserved
    · apply Ensures.bind (keepsTables_fdLocal2global _).reserved
      intro globalFd
      apply Ensures.bind Ensures.read
      intro read
      split
      · exact fileWrite_reserved globalFd buf count
      · exact Ensures.pure fun _ reserved => reserved

theorem sysRead_reserved (fd : Int) (count : UInt32) : StaysReserved (sysRead fd count) := by
  have keys : KeepsTables (readKeys count.toNat) := by
    intro s a s' isRun
    unfold readKeys at isRun
    split at isRun
    · cases isRun
      exact ⟨rfl, rfl⟩
    · cases isRun
  unfold sysRead
  split
  · exact Ensures.pure fun _ reserved => reserved
  · split
    · exact (keys.bind fun _ => keepsTables_pure _).reserved
    · apply Ensures.bind (keepsTables_fdLocal2global _).reserved
      exact fun globalFd => fileRead_reserved globalFd count

theorem sysLseek_reserved (fd : Int) (offset : Int32) (whence : Nat) :
    StaysReserved (sysLseek fd offset whence) := by
  unfold sysLseek
  split
  · exact Ensures.pure fun _ reserved => reserved
  · apply Ensures.bind (keepsTables_check _).reserved
    intro _
    apply Ensures.bind (keepsTables_fdLocal2global _).reserved
    intro globalFd
    constructor
    intro s a s' reserved isRun
    obtain ⟨read, s₁, isRead, isRest⟩ := bind_eq_some isRun
    cases isRead
    obtain ⟨ptr, s₂, isPtr, isRest⟩ := bind_eq_some isRest
    rw [(deref_eq_some isPtr).2] at isRest
    dsimp only at isRest
    split at isRest
    · cases isRest
      exact reserved
    · cases isRest
      exact reserved.setFile globalFd rfl (.inr rfl)

theorem keepsTables_updateInodeOpenCnts (fds : List Nat) : KeepsTables (updateInodeOpenCnts fds) := by
  induction fds with
  | nil => exact keepsTables_pure ()
  | cons localFd rest inductionHypothesis =>
      unfold updateInodeOpenCnts
      refine keepsTables_get.bind fun s => ?_
      split
      · exact inductionHypothesis
      · refine (keepsTables_check _).bind fun _ => ?_
        refine (keepsTables_deref _).bind fun ptr => ?_
        exact (keepsTables_setInode _ _).bind fun _ => inductionHypothesis

/-- The child has the descriptors of its parent. -/
theorem Reserved.setFdTable (reserved : Reserved s) (child : Pid)
    (same : s'.fdTable = Function.update s.fdTable child (s.fdTable s.cur))
    (fileTable : s'.fileTable = s.fileTable) : Reserved s' := by
  have entry : ∀ pid, ∃ parent, s'.fdTable pid = s.fdTable parent := by
    intro pid
    rw [same]
    by_cases isChild : pid = child
    · rw [isChild, Function.update_self]
      exact ⟨s.cur, rfl⟩
    · rw [Function.update_of_ne isChild]
      exact ⟨pid, rfl⟩
  refine ⟨fun pid fd below => ?_, fun pid fd slot low inside isSlot => ?_, ?_⟩
  · obtain ⟨parent, isCopy⟩ := entry pid
    rw [isCopy]
    exact reserved.standard parent fd below
  · obtain ⟨parent, isCopy⟩ := entry pid
    rw [isCopy] at isSlot
    exact reserved.leads parent fd slot low inside isSlot
  · rw [fileTable]
    exact reserved.unused

theorem sysFork_reserved (child : Pid) : StaysReserved (sysFork child) := by
  unfold sysFork
  apply Ensures.bind Ensures.read
  intro read
  apply Ensures.bind (keepsTables_check _).reserved
  intro _
  apply Ensures.bind (keepsTables_updateInodeOpenCnts _).reserved
  intro _
  constructor
  intro s a s' reserved isRun
  cases isRun
  exact reserved.setFdTable child rfl rfl

/-! ### Runs -/

theorem FsCall.run_reserved {call : FsCall} (reserved : Reserved s) (isRun : call.run s = some s') :
    Reserved s' := by
  cases call <;> obtain ⟨_, isRun⟩ := after_eq_some isRun
  case sysOpen => exact (sysOpen_reserved _ _ _).returns reserved isRun
  case sysClose => exact (sysClose_reserved _).returns reserved isRun
  case sysRead => exact (sysRead_reserved _ _).returns reserved isRun
  case sysWrite => exact (sysWrite_reserved _ _ _).returns reserved isRun
  case sysMkdir => exact (keepsTables_sysMkdir _ _).reserved.returns reserved isRun
  case sysRmdir => exact (keepsTables_sysRmdir _ _ _).reserved.returns reserved isRun
  case sysUnlink => exact (keepsTables_sysUnlink _ _ _).reserved.returns reserved isRun
  case sysStat => exact (keepsTables_sysStat _ _).reserved.returns reserved isRun
  case sysChdir => exact (keepsTables_sysChdir _ _).reserved.returns reserved isRun
  case sysGetcwd => exact (keepsTables_sysGetcwd _ _).reserved.returns reserved isRun

theorem Action.run_reserved {action : Action} (reserved : Reserved s) (isRun : action.run s = some s') :
    Reserved s' := by
  cases action with
  | call fsCall => exact FsCall.run_reserved reserved isRun
  | sysLseek fd offset whence =>
      obtain ⟨_, isRun⟩ := after_eq_some isRun
      exact (sysLseek_reserved fd offset whence).returns reserved isRun
  | sysOpendir junk name =>
      obtain ⟨_, isRun⟩ := after_eq_some isRun
      exact (keepsTables_sysOpendir junk name).reserved.returns reserved isRun
  | sysClosedir dir =>
      obtain ⟨_, isRun⟩ := after_eq_some isRun
      exact (keepsTables_sysClosedir dir).reserved.returns reserved isRun
  | sysMalloc pgdirNull =>
      obtain ⟨_, isRun⟩ := after_eq_some isRun
      exact (keepsTables_sysMalloc pgdirNull).reserved.returns reserved isRun
  | sysFree pgdirNull ptr =>
      obtain ⟨_, isRun⟩ := after_eq_some isRun
      have frees := keepsTables_get.bind fun s =>
        (keepsTables_check (ptr ∉ dirBlocks s ++ s.openInodes)).bind fun _ => keepsTables_sysFree pgdirNull ptr
      exact frees.reserved.returns reserved isRun
  | sysFork child =>
      obtain ⟨_, isRun⟩ := after_eq_some isRun
      exact (sysFork_reserved child).returns reserved isRun
  | schedule pid =>
      cases isRun
      exact reserved.congr rfl rfl
  | keyboard keys =>
      cases isRun
      exact reserved.congr rfl rfl

/-- The state once the file system is mounted, with the tables as they are set up. -/
structure FreshTables (s : State) : Prop where
  fdTable : ∀ pid, ∀ fd < maxFilesOpenPerProc, s.fdTable pid fd = if fd < 3 then some fd else none
  fileTable : ∀ fdIdx, s.fileTable fdIdx = ⟨0, 0, none⟩

theorem FreshTables.reserved (fresh : FreshTables s) : Reserved s := by
  refine ⟨fun pid fd below => ?_, fun pid fd slot low inside isSlot => ?_, fun fdIdx _ => ?_⟩
  · rw [fresh.fdTable pid fd (below.trans (by decide)), if_pos below]
  · rw [fresh.fdTable pid fd inside, if_neg (Nat.not_lt.mpr low)] at isSlot
    cases isSlot
  · rw [fresh.fileTable]
    exact ⟨rfl, rfl⟩

/-- The states of the runs that begin in a state. -/
inductive RunFrom (s₀ : State) : State → Prop where
  | start : RunFrom s₀ s₀
  | step {s s' : State} (run : RunFrom s₀ s) (action : Action) (isRun : action.run s = some s') : RunFrom s₀ s'

theorem RunFrom.reserved (run : RunFrom s₀ s) (fresh : FreshTables s₀) : Reserved s := by
  induction run with
  | start => exact fresh.reserved
  | step _ action isRun inductionHypothesis => exact action.run_reserved inductionHypothesis isRun

end ZyOs.Fs.Calls
