import ZyOs.Fs.SearchEffects
import ZyOs.Fs.DirectoryInsert
import ZyOs.Kernel.BitmapFree

/-!
Contract: what is left behind when `sys_open` returns -1.

Owns:
- the failures of `file_open` and `file_create`, each with what it has done before;
- `Residue`: the calls that fail after they have changed something;
- in every run, a failed `sys_open` restores the state exactly when it is none of them.

`file_open` takes a slot and opens the inode before it looks for a writer or for a free
descriptor, and `file_create` looks for one when the file is on the disk. Neither gives
anything back.
-/

namespace ZyOs.Fs.Calls

open ZyOs.Kernel ZyOs.Memory ZyOs.Lib

variable {s₀ s₁ s s' : State} {blocks refs : List Ptr} {ptr : Ptr} {inodeNo flag flags : Nat}
  {junk : Junk} {pathname : List UInt8}

/-! ### What is there to be taken -/

/-- A slot of `file_table` is free. -/
def HasSlot (s : State) : Prop :=
  ∃ fdIdx ∈ List.range' 3 (maxFileOpen - 3), (s.fileTable fdIdx).fdInode = none

/-- No descriptor of the running task is free. -/
def FdTableFull (s : State) : Prop :=
  ∀ fd ∈ List.range' 3 (maxFilesOpenPerProc - 3), s.fdTable s.cur fd ≠ none

/-- `sys_malloc` answers twice. -/
def TwoBlocks (s : State) : Prop :=
  ∃ first s₁ second s₂, malloc s = some (some first, s₁) ∧ malloc s₁ = some (some second, s₂)

theorem getFreeSlotInGlobal_eq_some {found : Option Nat} (isRun : getFreeSlotInGlobal s = some (found, s')) :
    s' = s ∧ (found = none → ¬ HasSlot s) ∧
      ∀ fdIdx, found = some fdIdx → HasSlot s ∧ (s.fileTable fdIdx).fdInode = none := by
  cases isRun
  refine ⟨rfl, fun isNone hasSlot => ?_, fun fdIdx isFound => ?_⟩
  · obtain ⟨fdIdx, mem, isFree⟩ := hasSlot
    have taken := List.find?_eq_none.mp isNone fdIdx mem
    simp only [isFree, decide_true, not_true_eq_false] at taken
  · have isFree : (s.fileTable fdIdx).fdInode = none := by simpa using List.find?_some isFound
    exact ⟨⟨fdIdx, List.mem_of_find?_eq_some isFound, isFree⟩, isFree⟩

/-- Where no descriptor is free, nothing changes. -/
theorem pcbFdInstall_none {globalFdIdx : Nat} (isRun : pcbFdInstall globalFdIdx s = some (none, s')) :
    s' = s ∧ FdTableFull s := by
  obtain ⟨read, s₁, isRead, isRest⟩ := bind_eq_some isRun
  cases isRead
  cases found : (List.range' 3 (maxFilesOpenPerProc - 3)).find? fun fd => s.fdTable s.cur fd = none with
  | none =>
      rw [found] at isRest
      cases isRest
      refine ⟨rfl, fun fd mem isFree => ?_⟩
      have taken := List.find?_eq_none.mp found fd mem
      simp only [isFree, decide_true, not_true_eq_false] at taken
  | some fd =>
      rw [found] at isRest
      obtain ⟨_, s₂, _, isPair⟩ := bind_eq_some isRest
      cases isPair

/-! ### `file_open` -/

/-- A slot that was free refers to an inode. -/
def TakesSlot (s s' : State) : Prop :=
  ∃ fdIdx, (s.fileTable fdIdx).fdInode = none ∧ (s'.fileTable fdIdx).fdInode ≠ none

theorem takesSlot_ne (takes : TakesSlot s s') : s'.fileTable ≠ s.fileTable := by
  obtain ⟨fdIdx, wasFree, isTaken⟩ := takes
  intro same
  rw [same] at isTaken
  exact isTaken wasFree

/-- `file_open` fails at once, or it keeps a slot. -/
theorem fileOpen_fails (isRun : fileOpen inodeNo flag s = some (none, s')) :
    (¬ HasSlot s ∧ s' = s) ∨ (HasSlot s ∧ TakesSlot s s') := by
  unfold fileOpen at isRun
  obtain ⟨found, s₁, isSlot, isRest⟩ := bind_eq_some isRun
  obtain ⟨isSame, noSlot, slot⟩ := getFreeSlotInGlobal_eq_some isSlot
  rw [isSame] at isRest
  cases found with
  | none =>
      cases isRest
      exact .inl ⟨noSlot rfl, rfl⟩
  | some fdIdx =>
      obtain ⟨hasSlot, wasFree⟩ := slot fdIdx rfl
      refine .inr ⟨hasSlot, fdIdx, wasFree, ?_⟩
      obtain ⟨ptr, s₂, _, isRest⟩ := bind_eq_some isRest
      obtain ⟨_, s₃, isSet, isRest⟩ := bind_eq_some isRest
      have isTaken : (s₃.fileTable fdIdx).fdInode ≠ none := by
        cases isSet
        dsimp only
        rw [Function.update_self]
        exact Option.some_ne_none ptr
      split at isRest
      · obtain ⟨read, s₄, isRead, isRest⟩ := bind_eq_some isRest
        cases isRead
        split at isRest
        · cases isRest
          exact isTaken
        · obtain ⟨_, s₅, isDenied, isInstalled⟩ := bind_eq_some isRest
          have sameSlot := ((quiet_setWriteDeny ptr true) s₃ _ s₅ isDenied).fdInode fdIdx
          rw [(pcbFdInstall_none isInstalled).1, sameSlot]
          exact isTaken
      · rw [(pcbFdInstall_none isRest).1]
        exact isTaken


/-! ### `file_create` -/

/-- An inode number that is given back at once leaves the bitmap as it was. -/
theorem setInodeBit_undo {part : Volume} {bit : Nat} (found : firstClear part.inodeBitmap = some bit) :
    (part.setInodeBit bit true).setInodeBit bit false = part := by
  unfold Volume.setInodeBit
  rw [bitmapSet_undo found]

theorem inodeBitmapAlloc_eq_some {part part' : Volume} {allocated : Option Nat}
    (isRun : part.inodeBitmapAlloc = some (part', allocated)) :
    ∃ bit, firstClear part.inodeBitmap = some bit ∧ allocated = some bit ∧
      part' = part.setInodeBit bit true := by
  unfold Volume.inodeBitmapAlloc at isRun
  rw [bitmapScan_eq] at isRun
  cases isBit : firstClear part.inodeBitmap with
  | none =>
      rw [isBit] at isRun
      cases isRun
  | some bit =>
      have notFailed : ((bit : Int)) ≠ -1 := by omega
      rw [isBit] at isRun
      simp only [Option.map_some, if_true, Option.bind_eq_bind, Option.bind_some, if_neg notFailed] at isRun
      cases isRun
      exact ⟨bit, rfl, rfl, rfl⟩

/-- `block_bitmap_alloc` does not return -1. -/
theorem addBlock_isSome {part part' : Volume} {inode inode' : InodeTable.Inode} {allBlocks : List Nat}
    {blockIdx : Nat} {added : Option Nat}
    (isRun : addBlock part inode allBlocks blockIdx = some (part', inode', added)) : added ≠ none := by
  unfold addBlock at isRun
  obtain ⟨⟨part₁, first⟩, isFirst, isRest⟩ := Option.bind_eq_some_iff.mp isRun
  obtain ⟨_, _, _, isSome⟩ := Volume.blockBitmapAlloc_eq_some isFirst
  rw [isSome] at isRest
  dsimp only at isRest
  split at isRest
  · cases isRest
    exact Option.some_ne_none _
  · split at isRest
    · obtain ⟨⟨part₂, second⟩, isSecond, isRest⟩ := Option.bind_eq_some_iff.mp isRest
      obtain ⟨_, _, _, isSome⟩ := Volume.blockBitmapAlloc_eq_some isSecond
      rw [isSome] at isRest
      cases isRest
      exact Option.some_ne_none _
    · cases isRest
      exact Option.some_ne_none _

/-- The loop of `sync_dir_entry` does not go past the table: the words behind the direct
blocks are zero. -/
theorem syncLoop_done {part part' : Volume} {inode inode' : InodeTable.Inode} {pDe : DirEntry}
    {allBlocks idxs : List Nat} {done : Bool} (mem : 12 ∈ idxs) (isZero : allBlocks.getD 12 0 = 0)
    (isRun : syncLoop part inode pDe allBlocks idxs = some (part', inode', done)) : done = true := by
  induction idxs with
  | nil => cases mem
  | cons blockIdx rest inductionHypothesis =>
      unfold syncLoop at isRun
      dsimp only at isRun
      split at isRun
      · obtain ⟨⟨part₁, inode₁, added⟩, isAdded, isRest⟩ := Option.bind_eq_some_iff.mp isRun
        cases added with
        | none => exact absurd rfl (addBlock_isSome isAdded)
        | some blockLba =>
            cases isRest
            rfl
      · rename_i notZero
        split at isRun
        · cases isRun
          rfl
        · apply inductionHypothesis _ isRun
          rcases List.mem_cons.mp mem with isHead | mem
          · rw [← isHead] at notZero
            exact absurd isZero notZero
          · exact mem

/-- The entry is put into the directory; only the volume and its inode change. -/
theorem syncDirEntry_eq_some {parentDir : Dir} {pDe : DirEntry} {done : Bool}
    (isRun : syncDirEntry parentDir pDe s = some (done, s')) :
    done = true ∧ ∃ part inode, s' = { s with part := part, inode := inode } := by
  obtain ⟨read, s₁, isRead, isRest⟩ := bind_eq_some isRun
  cases isRead
  obtain ⟨⟨node, synced⟩, s₁, isSync, isRest⟩ := bind_eq_some isRest
  obtain ⟨part, isStep, isAfter⟩ := onPart_eq_some isSync
  obtain ⟨⟨part₁, node₁, done₁⟩, isEntry, isPair⟩ := Option.map_eq_some_iff.mp isStep
  cases isPair
  rw [isAfter] at isRest
  cases isRest
  refine ⟨?_, _, _, rfl⟩
  unfold Fs.syncDirEntry at isEntry
  split at isEntry
  · exact syncLoop_done (List.mem_range.mpr (by decide)) (syncBlocks_twelve _) isEntry
  · cases isEntry

theorem createEntry_eq_some {parentDir : Dir} {filename : List UInt8} {fdIdx : Nat} {done : Bool}
    (isRun : createEntry parentDir filename inodeNo fdIdx ptr s = some (done, s')) :
    done = true ∧ ∃ part inode openInodes,
      s' = { s with part := part, inode := inode, openInodes := openInodes } := by
  unfold createEntry at isRun
  obtain ⟨newDirEntry, s₁, isEntry, isRest⟩ := bind_eq_some isRun
  obtain ⟨part₁, _, isFirst⟩ := onPart_eq_some isEntry
  obtain ⟨synced, s₂, isSync, isRest⟩ := bind_eq_some isRest
  obtain ⟨isDone, part₂, inode₂, isSecond⟩ := syncDirEntry_eq_some isSync
  rw [isDone] at isRest
  obtain ⟨read, s₃, isRead, isRest⟩ := bind_eq_some isRest
  cases isRead
  obtain ⟨_, s₄, isPart, isRest⟩ := bind_eq_some isRest
  obtain ⟨part₄, _, isFourth⟩ := onPart_eq_some isPart
  cases isRest
  rw [isFourth, isSecond, isFirst]
  exact ⟨rfl, _, _, _, rfl⟩

/-- What `sys_malloc` answers does not depend on the volume. -/
theorem malloc_withPart (s : State) (part : Volume) :
    malloc { s with part := part } = (malloc s).map fun result => (result.1, { result.2 with part := part }) := by
  show sysMalloc (s.pgdirNull s.cur) { s with part := part } =
    (sysMalloc (s.pgdirNull s.cur) s).map fun result => (result.1, { result.2 with part := part })
  unfold sysMalloc
  dsimp only
  split
  · rfl
  · split <;> rfl

/-- `file_create` fails at once, or for want of a descriptor when the file is there. -/
theorem fileCreate_fails {parentDir : Dir} {filename : List UInt8}
    (isRun : fileCreate parentDir filename flag s = some (none, s')) :
    (¬ (HasSlot s ∧ TwoBlocks s) ∧ ∃ heap asked, s' = { s with heap := heap, asked := asked }) ∨
      ((HasSlot s ∧ TwoBlocks s) ∧ FdTableFull s ∧ TakesSlot s s') := by
  unfold fileCreate at isRun
  obtain ⟨first, s₁, isFirst, isRest⟩ := bind_eq_some isRun
  obtain ⟨heap₁, isAfter₁, _⟩ := malloc_eq_some isFirst
  cases first with
  | none =>
      cases isRest
      refine .inl ⟨fun ⟨_, _, _, _, _, isSome, _⟩ => ?_, heap₁, _, isAfter₁⟩
      cases isFirst.symm.trans isSome
  | some ioBuf =>
      obtain ⟨allocated, s₂, isAlloc, isRest⟩ := bind_eq_some isRest
      obtain ⟨part, isStep, isAfter₂⟩ := onPart_eq_some isAlloc
      obtain ⟨bit, found, isBit, isPart⟩ := inodeBitmapAlloc_eq_some isStep
      have undone : part.setInodeBit bit false = s.part := by
        rw [isPart, setInodeBit_undo found, isAfter₁]
      rw [isBit] at isRest
      obtain ⟨second, s₃, isSecond, isRest⟩ := bind_eq_some isRest
      obtain ⟨heap₃, isAfter₃, _⟩ := malloc_eq_some isSecond
      rw [isAfter₂, malloc_withPart] at isSecond
      obtain ⟨⟨answer, t⟩, isAnswer, isPair⟩ := Option.map_eq_some_iff.mp isSecond
      have isSame : answer = second := congrArg Prod.fst isPair
      rw [isSame] at isAnswer
      rw [isAfter₂, isAfter₁] at isAfter₃
      cases second with
      | none =>
          obtain ⟨_, s₄, isUnset, isThen⟩ := bind_eq_some isRest
          obtain ⟨_, s₅, isFreed, isEnd⟩ := bind_eq_some isThen
          have isAfter₅ := free_eq_some isFreed
          cases isUnset
          cases isEnd
          rw [isAfter₃] at isAfter₅
          dsimp only at isAfter₅
          rw [undone] at isAfter₅
          refine .inl ⟨fun ⟨_, _, _, _, _, isSome, isSome'⟩ => ?_, _, _, isAfter₅⟩
          cases isFirst.symm.trans isSome
          cases isAnswer.symm.trans isSome'
      | some newFileInode =>
          obtain ⟨found, s₄, isSlot, isRest⟩ := bind_eq_some isRest
          obtain ⟨isAfter₄, noSlot, slot⟩ := getFreeSlotInGlobal_eq_some isSlot
          rw [isAfter₄] at isRest
          rw [isAfter₃] at noSlot slot
          cases found with
          | none =>
              obtain ⟨_, s₅, isFreed, isRest⟩ := bind_eq_some isRest
              obtain ⟨_, s₆, isUnset, isThen⟩ := bind_eq_some isRest
              obtain ⟨_, s₇, isFreed', isEnd⟩ := bind_eq_some isThen
              have isAfter₅ := free_eq_some isFreed
              have isAfter₇ := free_eq_some isFreed'
              cases isUnset
              cases isEnd
              rw [isAfter₅, isAfter₃] at isAfter₇
              dsimp only at isAfter₇
              rw [undone] at isAfter₇
              exact .inl ⟨fun both => noSlot rfl both.1, _, _, isAfter₇⟩
          | some fdIdx =>
              obtain ⟨hasSlot, wasFree⟩ := slot fdIdx rfl
              obtain ⟨_, s₅, isSet, isRest⟩ := bind_eq_some isRest
              obtain ⟨done, s₆, isCreated, isRest⟩ := bind_eq_some isRest
              obtain ⟨isDone, part₆, inode₆, openInodes₆, isAfter₆⟩ := createEntry_eq_some isCreated
              rw [isDone] at isRest
              obtain ⟨_, s₇, isFreed, isInstalled⟩ := bind_eq_some isRest
              have isAfter₇ := free_eq_some isFreed
              obtain ⟨isLast, full⟩ := pcbFdInstall_none isInstalled
              cases isSet
              rw [isAfter₇, isAfter₆, isAfter₃] at full isLast
              refine .inr ⟨⟨hasSlot, ioBuf, s₁, newFileInode, t, isFirst, isAnswer⟩, full, fdIdx, wasFree, ?_⟩
              rw [isLast]
              dsimp only
              rw [Function.update_self]
              exact Option.some_ne_none newFileInode


/-! ### `sys_open` -/

/-- What a failed call is to leave as it was: the volume, which is the disk with its
bitmaps, the files and the descriptors, and the inodes that are open. -/
structure Restored (s s' : State) : Prop where
  part : s'.part = s.part
  fileTable : s'.fileTable = s.fileTable
  fdTable : s'.fdTable = s.fdTable
  counts : ∀ ptr, openings s' ptr = openings s ptr
  node : ∀ ptr, 0 < openings s ptr → (s'.inode ptr).node = (s.inode ptr).node

theorem Searched.restored (searched : Searched s [] s') : Restored s s' where
  part := searched.part
  fileTable := searched.fileTable
  fdTable := searched.fdTable
  counts := searched.counts
  node := searched.node

theorem TakesSlot.notRestored (takes : TakesSlot s s') : ¬ Restored s s' :=
  fun restored => takesSlot_ne takes restored.fileTable

/-- `sys_open` comes to the end of the path: the path does not end with `/`, and what is
found there is no directory. The search goes from `s` to `s₁`. -/
structure Reaches (junk : Junk) (pathname : List UInt8) (record : SearchedRecord) (s s₁ : State) : Prop where
  lastChar : pathname.getLast? ≠ some slash
  searches : searchFile junk pathname s = some (record, s₁)
  notDirectory : record.fileType ≠ .directory
  sameDepth : ∃ depth, pathDepthCnt junk pathname s = some (depth, s) ∧
    pathDepthCnt junk record.searchedPath s₁ = some (depth, s₁)

/-- An existing file is to be opened: there is a slot for it, which is kept, or the
directory in which it was found is. -/
structure KeepsOpen (flags : Nat) (record : SearchedRecord) (s : State) : Prop where
  noCreat : hasCreat flags = false
  found : record.inodeNo ≠ none
  kept : HasSlot s ∨ record.parentDir.block ≠ none

/-- A new file is created, but there is no descriptor for it. -/
structure KeepsNew (flags : Nat) (record : SearchedRecord) (s s₁ : State) : Prop where
  creat : hasCreat flags = true
  missing : record.inodeNo = none
  room : HasSlot s ∧ TwoBlocks s₁
  full : FdTableFull s

/-- The failures that leave something behind. -/
def Residue (junk : Junk) (pathname : List UInt8) (flags : Nat) (s : State) : Prop :=
  ∃ record s₁, Reaches junk pathname record s s₁ ∧ (KeepsOpen flags record s ∨ KeepsNew flags record s s₁)

theorem keepsFiles_dirClose (dir : Dir) : KeepsFiles (dirClose dir) := by
  obtain ⟨block, inode⟩ := dir
  cases block with
  | none =>
      intro s a s' isRun
      cases isRun
      rfl
  | some block =>
      apply KeepsFiles.bind
      · intro s a s' isRun
        obtain ⟨heap, isAfter⟩ := inodeClose_eq_some isRun
        rw [isAfter]
        rfl
      · exact fun _ => keepsFiles_free block

/-- The search is over, and its directory is closed. -/
theorem searched_restored {dir : Dir} {a : Option Nat} {result : Option Nat}
    (searching : Searching s₀ s (dir.ownBlock ++ []) (dir.ownRef ++ []) s₁)
    (isRun : (dirClose dir >>= fun _ => pure a) s₁ = some (result, s')) : Restored s s' := by
  obtain ⟨_, s₂, isClosed, isEnd⟩ := bind_eq_some isRun
  have closed := ((searching_accounts s₀ s).dirClose dir).returns searching isClosed
  cases isEnd
  exact closed.2.restored

theorem Searched.hasSlot_iff (searched : Searched s refs s₁) : HasSlot s₁ ↔ HasSlot s := by
  unfold HasSlot
  rw [searched.fileTable]

theorem Searched.full_iff (searched : Searched s refs s₁) : FdTableFull s₁ ↔ FdTableFull s := by
  unfold FdTableFull
  rw [searched.fdTable, searched.cur]

/-- Without a slot, the directory of the file stays open, unless it is `root_dir`. -/
theorem searched_restored_iff {dir : Dir} (searched : Searched s (dir.ownRef ++ []) s₁) :
    Restored s s₁ ↔ dir.block = none := by
  obtain ⟨block, inode⟩ := dir
  cases block with
  | none => exact iff_of_true searched.restored rfl
  | some block =>
      apply iff_of_false
      · intro restored
        have counts := searched.counts inode
        rw [restored.counts] at counts
        simp only [Dir.ownRef, Option.toList_some, List.map_cons, List.map_nil, List.append_nil,
          List.count_cons_self, List.count_nil] at counts
        omega
      · exact Option.some_ne_none block

/-- A new file is to be created. -/
theorem create_restored_iff {dir : Dir} {filename : List UInt8} {created : Option Nat} {s₂ : State}
    (searching : Searching s₀ s (dir.ownBlock ++ []) (dir.ownRef ++ []) s₁)
    (isCreated : fileCreate dir filename flags s₁ = some (created, s₂))
    (isEnd : (dirClose dir >>= fun _ => pure created) s₂ = some (none, s')) :
    Restored s s' ↔ ¬ ((HasSlot s ∧ TwoBlocks s₁) ∧ FdTableFull s) := by
  have isNone : created = none := by
    obtain ⟨_, _, _, isPair⟩ := bind_eq_some isEnd
    cases isPair
    rfl
  rw [isNone] at isCreated
  have ledger := (fileCreate_ensures dir filename flags).returns searching.1 isCreated
  rcases fileCreate_fails isCreated with ⟨noRoom, heap, asked, isAfter⟩ | ⟨room, full, takes⟩
  · rw [searching.2.hasSlot_iff] at noRoom
    have searched : Searched s (dir.ownRef ++ []) s₂ := by
      rw [isAfter]
      exact searching.2.withHeap heap asked
    exact iff_of_true (searched_restored ⟨ledger, searched⟩ isEnd) fun both => noRoom both.1
  · rw [searching.2.hasSlot_iff] at room
    rw [searching.2.full_iff] at full
    apply iff_of_false
    · apply TakesSlot.notRestored
      obtain ⟨fdIdx, wasFree, isTaken⟩ := takes
      obtain ⟨_, s₃, isClosed, isPair⟩ := bind_eq_some isEnd
      cases isPair
      rw [searching.2.fileTable] at wasFree
      rw [← keepsFiles_dirClose dir s₂ _ s' isClosed] at isTaken
      exact ⟨fdIdx, wasFree, isTaken⟩
    · exact fun notBoth => notBoth ⟨room, full⟩

/-- An existing file is to be opened. -/
theorem open_restored_iff {dir : Dir}
    (searched : Searched s (dir.ownRef ++ []) s₁) (isRun : fileOpen inodeNo flags s₁ = some (none, s')) :
    Restored s s' ↔ ¬ (HasSlot s ∨ dir.block ≠ none) := by
  rcases fileOpen_fails isRun with ⟨noSlot, isSame⟩ | ⟨hasSlot, takes⟩
  · rw [searched.hasSlot_iff] at noSlot
    rw [isSame, searched_restored_iff searched]
    simp only [noSlot, false_or, not_not]
  · rw [searched.hasSlot_iff] at hasSlot
    apply iff_of_false
    · apply TakesSlot.notRestored
      obtain ⟨fdIdx, wasFree, isTaken⟩ := takes
      rw [searched.fileTable] at wasFree
      exact ⟨fdIdx, wasFree, isTaken⟩
    · exact fun notKept => notKept (.inl hasSlot)

/-- From every reachable state, a `sys_open` that fails leaves everything as it was
exactly when it leaves no residue. -/
theorem failed_open_restores_iff (reachable : Reachable s)
    (isRun : sysOpen junk pathname flags s = some (none, s')) :
    Restored s s' ↔ ¬ Residue junk pathname flags s := by
  have ledger := reachable.ledger
  unfold sysOpen at isRun
  obtain ⟨lastChar, t, isLast, isRest⟩ := bind_eq_some isRun
  obtain ⟨isChar, isSame⟩ := deref_eq_some isLast
  rw [isSame] at isRest
  split at isRest
  · rename_i isSlash
    cases isRest
    apply iff_of_true (Searched.refl s).restored
    rintro ⟨record, s₁, reaches, _⟩
    apply reaches.lastChar
    obtain ⟨char, isLastChar, isNat⟩ := Option.map_eq_some_iff.mp isChar
    rw [isLastChar, UInt8.toNat_inj.mp (isNat.trans isSlash)]
  · rename_i notSlash
    obtain ⟨_, t, isChecked, isRest⟩ := bind_eq_some isRest
    rw [(check_eq_some isChecked).2] at isRest
    obtain ⟨pathnameDepth, t, isDepth, isRest⟩ := bind_eq_some isRest
    have sameState := pathDepthCnt_state isDepth
    rw [sameState] at isRest isDepth
    obtain ⟨record, s₁, isSearch, isRest⟩ := bind_eq_some isRest
    have searching :=
      ((searching_accounts s s).searchFile junk pathname).returns ⟨ledger, Searched.refl s⟩ isSearch
    -- what another search may have found is what this one has
    have unique : Residue junk pathname flags s →
        Reaches junk pathname record s s₁ ∧ (KeepsOpen flags record s ∨ KeepsNew flags record s s₁) := by
      rintro ⟨record', s₁', reaches, keeps⟩
      cases isSearch.symm.trans reaches.searches
      exact ⟨reaches, keeps⟩
    split at isRest
    · rename_i isDirectory
      exact iff_of_true (searched_restored searching isRest) fun residue =>
        (unique residue).1.notDirectory isDirectory
    · rename_i notDirectory
      obtain ⟨searchedDepth, t, isSearched, isRest⟩ := bind_eq_some isRest
      have sameState := pathDepthCnt_state isSearched
      rw [sameState] at isRest isSearched
      split at isRest
      · rename_i otherDepth
        refine iff_of_true (searched_restored searching isRest) fun residue => ?_
        obtain ⟨depth, isPath, isSearchedPath⟩ := (unique residue).1.sameDepth
        cases isDepth.symm.trans isPath
        cases isSearched.symm.trans isSearchedPath
        exact otherDepth rfl
      · rename_i sameDepth
        have reaches : Reaches junk pathname record s s₁ := by
          refine ⟨fun isSlash => ?_, isSearch, notDirectory, pathnameDepth, isDepth, ?_⟩
          · rw [isSlash] at isChar
            exact notSlash (Option.some.inj isChar).symm
          · rw [not_not.mp sameDepth]
            exact isSearched
        cases isFound : record.inodeNo with
        | none =>
            simp only [isFound] at isRest
            split at isRest
            · rename_i isCreat
              obtain ⟨created, s₂, isCreated, isEnd⟩ := bind_eq_some isRest
              rw [create_restored_iff searching isCreated isEnd, not_iff_not]
              constructor
              · rintro ⟨room, full⟩
                exact ⟨record, s₁, reaches, .inr ⟨isCreat, isFound, room, full⟩⟩
              · intro residue
                rcases (unique residue).2 with opens | creates
                · exact absurd isFound opens.found
                · exact ⟨creates.room, creates.full⟩
            · rename_i noCreat
              refine iff_of_true (searched_restored searching isRest) fun residue => ?_
              rcases (unique residue).2 with opens | creates
              · exact opens.found isFound
              · exact noCreat creates.creat
        | some inodeNo =>
            simp only [isFound] at isRest
            split at isRest
            · rename_i isCreat
              refine iff_of_true (searched_restored searching isRest) fun residue => ?_
              rcases (unique residue).2 with opens | creates
              · cases isCreat.symm.trans opens.noCreat
              · cases isFound.symm.trans creates.missing
            · rename_i noCreat
              rw [open_restored_iff searching.2 isRest, not_iff_not]
              have isOther : record.inodeNo ≠ none := by
                rw [isFound]
                exact Option.some_ne_none inodeNo
              constructor
              · intro kept
                exact ⟨record, s₁, reaches, .inl ⟨by simpa using noCreat, isOther, kept⟩⟩
              · intro residue
                rcases (unique residue).2 with opens | creates
                · exact opens.kept
                · exact absurd creates.missing isOther


/-! ### A file that is being written -/

def noJunk : Junk := ⟨⟨[], 0, .unknown⟩, 0⟩

/-- The file `/a` is created. -/
def createsIt : FsCall := .sysOpen noJunk [slash, 97] 6

theorem createsIt_twice :
    ((createsIt.run bootState).bind fun s => (sysOpen noJunk [slash, 97] 6 s).bind fun opened =>
      (searchFile noJunk [slash, 97] s).map fun found => (opened.1, found.1.inodeNo)) = some (none, some 0) := by
  decide +kernel

/-- The file is there when it is to be created again: the search reaches it, and the call leaves
everything as it was. -/
theorem existing_file_restores :
    ∃ s s', Reachable s ∧ sysOpen noJunk [slash, 97] 6 s = some (none, s') ∧ Restored s s' := by
  obtain ⟨s, isCreated, isRest⟩ := Option.bind_eq_some_iff.mp createsIt_twice
  obtain ⟨⟨fd, s'⟩, isOpened, isPair⟩ := Option.bind_eq_some_iff.mp isRest
  obtain ⟨⟨record, s₁⟩, isSearch, isFound⟩ := Option.map_eq_some_iff.mp isPair
  obtain ⟨isNone, isNumber⟩ := Prod.mk.inj isFound
  dsimp only at isNone isNumber
  rw [isNone] at isOpened
  have reachable : Reachable s := .step (.boot bootState_booted) (.call createsIt) isCreated
  refine ⟨s, s', reachable, isOpened, (failed_open_restores_iff reachable isOpened).mpr ?_⟩
  rintro ⟨record', s₁', reaches, keeps | keeps⟩
  · exact absurd keeps.noCreat (by decide)
  · -- a search has one result
    cases isSearch.symm.trans reaches.searches
    rw [keeps.missing] at isNumber
    cases isNumber

/-- The file `/a` is opened for writing. -/
def writesIt : FsCall := .sysOpen noJunk [slash, 97] 1

theorem writesIt_twice :
    ((createsIt.run bootState).bind writesIt.run).bind (fun s => (sysOpen noJunk [slash, 97] 1 s).map fun result =>
      (result.1, (s.fileTable 5).fdInode, (result.2.fileTable 5).fdInode.isSome)) = some (none, none, true) := by
  decide +kernel

/-- The second writer is refused, and has the slot. -/
theorem refused_writer_keeps_slot :
    ∃ s s', Reachable s ∧ sysOpen noJunk [slash, 97] 1 s = some (none, s') ∧ ¬ Restored s s' := by
  obtain ⟨s, isRun, isResult⟩ := Option.bind_eq_some_iff.mp writesIt_twice
  obtain ⟨created, isCreated, isOpened⟩ := Option.bind_eq_some_iff.mp isRun
  obtain ⟨⟨fd, s'⟩, isRefused, isTriple⟩ := Option.map_eq_some_iff.mp isResult
  obtain ⟨isNone, isSlots⟩ := Prod.mk.inj isTriple
  obtain ⟨wasFree, isTaken⟩ := Prod.mk.inj isSlots
  dsimp only at isNone isTaken
  rw [isNone] at isRefused
  have reachable : Reachable created := .step (.boot bootState_booted) (.call createsIt) isCreated
  refine ⟨s, s', reachable.step (.call writesIt) isOpened, isRefused, ?_⟩
  apply TakesSlot.notRestored
  refine ⟨5, wasFree, fun isFree => ?_⟩
  rw [isFree] at isTaken
  cases isTaken

end ZyOs.Fs.Calls
