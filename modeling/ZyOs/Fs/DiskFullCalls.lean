import ZyOs.Fs.Exhausting
import ZyOs.Fs.OpenFailures

/-!
Contract: what `file_write`, `file_create` and `sys_mkdir` leave behind when an allocation
returns -1.

Owns: for each of the three, when its failure leaves everything as it was.

`file_write` keeps the blocks that it has allocated, in the bitmaps and in the inode;
`sys_mkdir` keeps the block of the new directory; `sync_dir_entry` gives the block of a
new table back in memory, but not on the disk, and `file_create` clears its slot.
-/

namespace ZyOs.Fs.Exhausting

open ZyOs.Kernel ZyOs.Memory ZyOs.Lib
open ZyOs.Fs.Calls

/-! ### What is left: `file_write` -/

variable {s s' : State} {fdIdx inodeNo flag : Nat} {buf : Buf} {count : UInt32} {parentDir : Calls.Dir}
  {pDe : DirEntry} {filename pathname : List UInt8} {junk : Junk} {ptr : Ptr}

/-- The volume, which is the disk with its bitmaps, the files and the inodes are as they
were. -/
structure Same (s s' : State) : Prop where
  part : s'.part = s.part
  fileTable : s'.fileTable = s.fileTable
  inode : s'.inode = s.inode

/-- `file_write` without a block for its data leaves everything as it was exactly when no
block was free. -/
theorem fileWrite_restores_iff
    (isRun : fileWrite DiskFull.blockBitmapAlloc fdIdx buf count s = some (.error .exhausted, s')) :
    Same s s' ↔ s.part.freeBlocks = 0 := by
  unfold fileWrite at isRun
  obtain ⟨read, t, isRead, isRest⟩ := bind_eq_some isRun
  cases isRead
  obtain ⟨ptr, t, isInode, isRest⟩ := bind_eq_some isRest
  rw [(deref_eq_some isInode).2] at isRest
  dsimp only at isRest
  split at isRest
  · cases isRest
  · obtain ⟨first, s₁, isFirst, isRest⟩ := bind_eq_some isRest
    obtain ⟨heap₁, isAfter₁, _⟩ := malloc_eq_some isFirst
    cases first with
    | none => cases isRest
    | some ioBuf =>
        obtain ⟨second, s₂, isSecond, isRest⟩ := bind_eq_some isRest
        obtain ⟨heap₂, isAfter₂, _⟩ := malloc_eq_some isSecond
        cases second with
        | none => cases isRest
        | some allBlocks =>
            obtain ⟨⟨file, written⟩, s₃, isWritten, isRest⟩ := bind_eq_some isRest
            obtain ⟨part, isStep, isAfter₃⟩ := onPart_eq_some isWritten
            obtain ⟨⟨part', file', written'⟩, isData, isPair⟩ := Option.map_eq_some_iff.mp isStep
            obtain ⟨_, s₄, isSet, isEnd⟩ := bind_eq_some isRest
            cases isPair
            cases written' with
            | some bytesWritten =>
                obtain ⟨_, _, _, isEnd⟩ := bind_eq_some isEnd
                obtain ⟨_, _, _, isEnd⟩ := bind_eq_some isEnd
                cases isEnd
            | none =>
                rw [isAfter₂, isAfter₁] at isData isAfter₃
                have restores := DiskFull.writeData_restores_iff isData
                cases isEnd
                rw [isAfter₃] at isSet
                cases isSet
                rw [← restores]
                constructor
                · rintro ⟨samePart, sameTable, sameInode⟩
                  have samePos : ({ s.fileTable fdIdx with fdPos := file'.fdPos } : Calls.File) = s.fileTable fdIdx :=
                    Function.update_eq_self_iff.mp sameTable
                  have sameNode : ({ s.inode ptr with node := file'.inode } : MemInode) = s.inode ptr :=
                    Function.update_eq_self_iff.mp sameInode
                  refine ⟨samePart, ?_⟩
                  have isPos : file'.fdPos = (s.fileTable fdIdx).fdPos := congrArg Calls.File.fdPos samePos
                  have isNode : file'.inode = (s.inode ptr).node := congrArg MemInode.node sameNode
                  rw [← isPos, ← isNode]
                · rintro ⟨samePart, sameFile⟩
                  rw [sameFile]
                  exact ⟨samePart, Function.update_eq_self _ _, Function.update_eq_self _ _⟩

/-! ### What is left: `file_create` -/

theorem wellFormed_setInodeBit {part : Volume} (wellFormed : part.WellFormed) (bit : Nat) (value : Bool) :
    (part.setInodeBit bit value).WellFormed :=
  ⟨wellFormed.bitmapBelow, wellFormed.tableBelow, wellFormed.dataFits⟩

/-- The inode of a directory, with what is put in its place. -/
def withNode (s : State) (ptr : Ptr) (node : InodeTable.Inode) : State :=
  { s with inode := Function.update s.inode ptr { s.inode ptr with node := node } }

theorem syncDirEntry_fails (wellFormed : s.part.WellFormed)
    (isRun : syncDirEntry DiskFull.blockBitmapAlloc parentDir pDe s = some (false, s')) :
    ∃ part node, DiskFull.EntryFailed s.part (s.inode parentDir.inode).node part node ∧
      s' = withNode { s with part := part } parentDir.inode node := by
  obtain ⟨read, s₁, isRead, isRest⟩ := bind_eq_some isRun
  cases isRead
  obtain ⟨⟨node, synced⟩, s₁, isSync, isRest⟩ := bind_eq_some isRest
  obtain ⟨part, isStep, isAfter⟩ := onPart_eq_some isSync
  obtain ⟨⟨part₁, node₁, done₁⟩, isEntry, isPair⟩ := Option.map_eq_some_iff.mp isStep
  cases isPair
  rw [isAfter] at isRest
  cases isRest
  exact ⟨_, _, DiskFull.syncDirEntry_failed wellFormed isEntry, rfl⟩

/-- A directory entry is made without the volume. -/
theorem createDirEntry_eq_some {fType : FileTypes} {newDirEntry : DirEntry}
    (isRun : onPart (fun part => (createDirEntry filename inodeNo fType).map (part, ·)) s =
      some (newDirEntry, s')) : s' = s := by
  obtain ⟨part, isStep, isAfter⟩ := onPart_eq_some isRun
  obtain ⟨_, _, isPair⟩ := Option.map_eq_some_iff.mp isStep
  cases isPair
  exact isAfter

theorem createEntry_fails (wellFormed : s.part.WellFormed)
    (isRun : createEntry DiskFull.blockBitmapAlloc parentDir filename inodeNo fdIdx ptr s =
      some (false, s')) :
    ∃ part node, DiskFull.EntryFailed s.part (s.inode parentDir.inode).node part node ∧
      s' = { withNode { s with part := part } parentDir.inode node with
        fileTable := Function.update s.fileTable fdIdx ⟨0, 0, none⟩ } := by
  unfold createEntry at isRun
  obtain ⟨newDirEntry, s₁, isEntry, isRest⟩ := bind_eq_some isRun
  rw [createDirEntry_eq_some isEntry] at isRest
  obtain ⟨synced, s₂, isSync, isRest⟩ := bind_eq_some isRest
  cases synced with
  | false =>
      obtain ⟨part, node, failed, isAfter⟩ := syncDirEntry_fails wellFormed isSync
      rw [isAfter] at isRest
      cases isRest
      exact ⟨part, node, failed, rfl⟩
  | true =>
      obtain ⟨_, _, _, isRest⟩ := bind_eq_some isRest
      obtain ⟨_, _, _, isRest⟩ := bind_eq_some isRest
      obtain ⟨_, _, _, isRest⟩ := bind_eq_some isRest
      cases isRest

theorem setFile_eq_some {file : Calls.File} {a : Unit} (isRun : setFile fdIdx file s = some (a, s')) :
    s' = { s with fileTable := Function.update s.fileTable fdIdx file } := by
  cases isRun
  rfl

/-- The inode number of a file that is not entered is given back. -/
theorem EntryFailed.unset {part part' : Volume} {inode inode' : InodeTable.Inode} {bit : Nat}
    (found : firstClear part.inodeBitmap = some bit)
    (failed : DiskFull.EntryFailed (part.setInodeBit bit true) inode part' inode') :
    DiskFull.EntryFailed part inode (part'.setInodeBit bit false) inode' := by
  cases failed with
  | unchanged isFull samePart sameInode =>
      refine .unchanged isFull ?_ sameInode
      rw [samePart, setInodeBit_undo found]
  | table other isBit one isPart isInode =>
      refine .table other isBit one ?_ isInode
      have undone := congrArg (fun undone => DiskFull.syncedOnly undone other) (setInodeBit_undo found)
      rw [isPart, ← undone]
      rfl

/-- The slot that `file_create` takes is all zero, also where it is free. -/
def SlotZero (s : State) : Prop :=
  ∀ fdIdx s', getFreeSlotInGlobal s = some (some fdIdx, s') → s.fileTable fdIdx = ⟨0, 0, none⟩

/-- What `file_create` leaves when the file is not entered: the slot that it has taken is
zero. -/
structure NotEntered (parentDir : Calls.Dir) (s s' : State) : Prop where
  hasInode : firstClear s.part.inodeBitmap ≠ none
  entry : ∃ node, DiskFull.EntryFailed s.part (s.inode parentDir.inode).node s'.part node ∧
    s'.inode = (withNode s parentDir.inode node).inode
  slot : ∃ fdIdx, getFreeSlotInGlobal s = some (some fdIdx, s) ∧
    s'.fileTable = Function.update s.fileTable fdIdx ⟨0, 0, none⟩

theorem NotEntered.same_iff (notEntered : NotEntered parentDir s s') :
    Same s s' ↔ SlotZero s ∧ (s.part.freeBlocks = 0 ∨
      DiskFull.TableUndone s.part (s.inode parentDir.inode).node) := by
  obtain ⟨node, failed, isInode⟩ := notEntered.entry
  obtain ⟨fdIdx, isFirstFree, isTable⟩ := notEntered.slot
  have zeroSlot : SlotZero s ↔ s.fileTable fdIdx = ⟨0, 0, none⟩ := by
    constructor
    · exact fun zero => zero fdIdx s isFirstFree
    · intro isZero other t isFound
      cases isFirstFree.symm.trans isFound
      exact isZero
  rw [← failed.restores_iff, zeroSlot]
  constructor
  · rintro ⟨samePart, sameTable, sameInode⟩
    rw [isTable] at sameTable
    rw [isInode] at sameInode
    have sameNode := Function.update_eq_self_iff.mp sameInode
    exact ⟨(Function.update_eq_self_iff.mp sameTable).symm, samePart, congrArg MemInode.node sameNode⟩
  · rintro ⟨isZero, samePart, sameNode⟩
    refine ⟨samePart, ?_, ?_⟩
    · rw [isTable, ← isZero, Function.update_eq_self]
    · rw [isInode, sameNode]
      exact Function.update_eq_self _ _

/-- The slot does not depend on anything but the files. -/
theorem getFreeSlotInGlobal_congr {t t' : State} {found : Option Nat}
    (isRun : getFreeSlotInGlobal t = some (found, t')) (sameTable : t.fileTable = s.fileTable) :
    getFreeSlotInGlobal s = some (found, s) := by
  cases isRun
  unfold getFreeSlotInGlobal
  rw [sameTable]
  rfl

theorem fileCreate_exhausted (wellFormed : s.part.WellFormed)
    (isRun : fileCreate DiskFull.blockBitmapAlloc DiskFull.inodeBitmapAlloc parentDir filename flag s =
      some (.error .exhausted, s')) :
    (firstClear s.part.inodeBitmap = none ∧ Same s s') ∨ NotEntered parentDir s s' := by
  unfold fileCreate at isRun
  obtain ⟨first, s₁, isFirst, isRest⟩ := bind_eq_some isRun
  obtain ⟨heap₁, isAfter₁, _⟩ := malloc_eq_some isFirst
  cases first with
  | none => cases isRest
  | some ioBuf =>
      obtain ⟨allocated, s₂, isAlloc, isRest⟩ := bind_eq_some isRest
      obtain ⟨part₂, isStep, isAfter₂⟩ := onPart_eq_some isAlloc
      rw [isAfter₁] at isStep isAfter₂
      cases allocated with
      | none =>
          obtain ⟨samePart, isFull⟩ := DiskFull.inodeBitmapAlloc_none isStep
          cases isRest
          rw [isAfter₂, samePart]
          exact .inl ⟨isFull, rfl, rfl, rfl⟩
      | some bit =>
          obtain ⟨found, isPart₂⟩ := DiskFull.inodeBitmapAlloc_some isStep
          obtain ⟨second, s₃, isSecond, isRest⟩ := bind_eq_some isRest
          obtain ⟨heap₃, isAfter₃, _⟩ := malloc_eq_some isSecond
          rw [isAfter₂] at isAfter₃
          dsimp only at isAfter₃
          cases second with
          | none =>
              obtain ⟨_, _, _, isRest⟩ := bind_eq_some isRest
              obtain ⟨_, _, _, isRest⟩ := bind_eq_some isRest
              cases isRest
          | some newFileInode =>
              obtain ⟨slot, s₄, isSlot, isRest⟩ := bind_eq_some isRest
              have isAfter₄ := (getFreeSlotInGlobal_eq_some isSlot).1
              rw [isAfter₃] at isSlot isAfter₄
              cases slot with
              | none =>
                  obtain ⟨_, _, _, isRest⟩ := bind_eq_some isRest
                  obtain ⟨_, _, _, isRest⟩ := bind_eq_some isRest
                  obtain ⟨_, _, _, isRest⟩ := bind_eq_some isRest
                  cases isRest
              | some fdIdx =>
                  obtain ⟨_, s₅, isSet, isRest⟩ := bind_eq_some isRest
                  obtain ⟨created, s₆, isCreated, isRest⟩ := bind_eq_some isRest
                  cases created with
                  | true =>
                      obtain ⟨_, _, _, isRest⟩ := bind_eq_some isRest
                      obtain ⟨installed, _, _, isRest⟩ := bind_eq_some isRest
                      cases installed with
                      | none => cases isRest
                      | some fd => cases isRest
                  | false =>
                      obtain ⟨_, s₇, isFreed, isRest⟩ := bind_eq_some isRest
                      obtain ⟨_, s₈, isUnset, isThen⟩ := bind_eq_some isRest
                      obtain ⟨_, s₉, isFreed', isEnd⟩ := bind_eq_some isThen
                      have isAfter₇ := free_eq_some isFreed
                      have isAfter₉ := free_eq_some isFreed'
                      have isAfter₅ := setFile_eq_some isSet
                      rw [isAfter₄] at isAfter₅
                      have isPart₅ : s₅.part = s.part.setInodeBit bit true := by
                        rw [isAfter₅, ← isPart₂]
                      have room : s₅.part.WellFormed := by
                        rw [isPart₅]
                        exact wellFormed_setInodeBit wellFormed bit true
                      obtain ⟨part, node, failed, isAfter₆⟩ := createEntry_fails room isCreated
                      have isInode₅ : s₅.inode = s.inode := by rw [isAfter₅]
                      have isTable₅ : s₅.fileTable =
                          Function.update s.fileTable fdIdx ⟨0, flag, some newFileInode⟩ := by
                        rw [isAfter₅]
                      rw [isPart₅, isInode₅] at failed
                      cases isUnset
                      cases isEnd
                      rw [isAfter₇] at isAfter₉
                      have isTable₉ : s'.fileTable = Function.update s₅.fileTable fdIdx ⟨0, 0, none⟩ := by
                        rw [isAfter₉, isAfter₆]
                      have isInode₉ : s'.inode = (withNode s₅ parentDir.inode node).inode := by
                        rw [isAfter₉, isAfter₆]
                        rfl
                      have isPart₉ : s'.part = part.setInodeBit bit false := by
                        rw [isAfter₉, isAfter₆]
                        rfl
                      rw [isTable₅, Function.update_idem] at isTable₉
                      rw [withNode, isInode₅] at isInode₉
                      have isFirstFree : getFreeSlotInGlobal s = some (some fdIdx, s) :=
                        getFreeSlotInGlobal_congr isSlot rfl
                      refine .inr ⟨?_, ⟨node, ?_, isInode₉⟩, fdIdx, isFirstFree, isTable₉⟩
                      · rw [found]
                        exact Option.some_ne_none bit
                      · rw [isPart₉]
                        exact EntryFailed.unset found failed

/-- `file_create` without an inode or a block leaves everything as it was exactly when no
inode was free, or when its slot was zero and `sync_dir_entry` has undone what it did. -/
theorem fileCreate_restores_iff (wellFormed : s.part.WellFormed)
    (isRun : fileCreate DiskFull.blockBitmapAlloc DiskFull.inodeBitmapAlloc parentDir filename flag s =
      some (.error .exhausted, s')) :
    Same s s' ↔ firstClear s.part.inodeBitmap = none ∨
      (SlotZero s ∧ (s.part.freeBlocks = 0 ∨
        DiskFull.TableUndone s.part (s.inode parentDir.inode).node)) := by
  rcases fileCreate_exhausted wellFormed isRun with ⟨isFull, same⟩ | notEntered
  · exact iff_of_true same (.inl isFull)
  · rw [notEntered.same_iff, or_iff_right notEntered.hasInode]

/-! ### What is left: `sys_mkdir` -/

theorem initDirectory_eq_some {part part' : Volume} {parentNo blockLba : Nat} {inode : InodeTable.Inode}
    (isRun : initDirectory part inodeNo parentNo blockLba = some (part', inode)) :
    ∃ buf, part' = (part.bitmapSync (blockLba - part.dataStartLba) .block).ideWrite blockLba buf := by
  unfold initDirectory at isRun
  obtain ⟨_, _, isRest⟩ := Option.bind_eq_some_iff.mp isRun
  obtain ⟨_, _, isRest⟩ := Option.bind_eq_some_iff.mp isRest
  obtain ⟨_, _, isPair⟩ := Option.bind_eq_some_iff.mp isRest
  cases isPair
  exact ⟨_, rfl⟩

/-- A directory that is not entered in its parent keeps the block that it was given. -/
theorem linkDirectory_fails (wellFormed : s.part.WellFormed)
    (isRun : linkDirectory DiskFull.blockBitmapAlloc parentDir filename inodeNo s = some (false, s')) :
    (s.part.freeBlocks = 0 ∧ s' = s) ∨ s'.part.freeBlocks + 1 = s.part.freeBlocks := by
  obtain ⟨read, s₁, isRead, isRest⟩ := bind_eq_some isRun
  cases isRead
  obtain ⟨allocated, s₁, isAlloc, isRest⟩ := bind_eq_some isRest
  obtain ⟨part₁, isStep, isAfter₁⟩ := onPart_eq_some isAlloc
  cases allocated with
  | none =>
      obtain ⟨samePart, isFull⟩ := DiskFull.blockBitmapAlloc_none isStep
      cases isRest
      rw [samePart] at isAfter₁
      exact .inl ⟨isFull, isAfter₁⟩
  | some blockLba =>
      obtain ⟨bit, found, isPart₁, isLba⟩ := DiskFull.blockBitmapAlloc_some isStep
      obtain ⟨newDirInode, s₂, isInit, isRest⟩ := bind_eq_some isRest
      obtain ⟨part₂, isMade, isAfter₂⟩ := onPart_eq_some isInit
      obtain ⟨buf, isPart₂⟩ := initDirectory_eq_some isMade
      obtain ⟨newDirEntry, s₃, isEntry, isRest⟩ := bind_eq_some isRest
      rw [createDirEntry_eq_some isEntry] at isRest
      obtain ⟨synced, s₄, isSync, isRest⟩ := bind_eq_some isRest
      cases synced with
      | true =>
          obtain ⟨_, _, _, isRest⟩ := bind_eq_some isRest
          obtain ⟨_, _, _, isRest⟩ := bind_eq_some isRest
          cases isRest
      | false =>
          have isPart : s₂.part =
              ((s.part.setBlockBit bit true).bitmapSync
                (blockLba - (s.part.setBlockBit bit true).dataStartLba) .block).ideWrite blockLba buf := by
            rw [isAfter₂, isPart₂, isAfter₁, isPart₁]
          have wellFormed₂ : s₂.part.WellFormed := by
            rw [isPart]
            exact ⟨wellFormed.bitmapBelow, wellFormed.tableBelow, wellFormed.dataFits⟩
          obtain ⟨part, node, failed, isAfter₄⟩ := syncDirEntry_fails wellFormed₂ isSync
          have sameFree := failed.sameFree
          rw [isPart] at sameFree
          cases isRest
          rw [isAfter₄, ← Volume.freeBlocks_take found]
          exact .inr (congrArg (· + 1) sameFree)

/-- The directory and the buffer are given back, and nothing else was done. -/
theorem closing_restored {dir : Calls.Dir} {block : Ptr} {s₁ : State} {a result : Except Cause Unit}
    (searching : Searching s s (dir.ownBlock ++ [block]) (dir.ownRef ++ []) s₁)
    (isRun : (dirClose dir >>= fun _ => free block >>= fun _ => pure a) s₁ = some (result, s')) :
    Restored s s' := by
  obtain ⟨_, s₂, isClosed, isRest⟩ := bind_eq_some isRun
  obtain ⟨_, s₃, isFreed, isEnd⟩ := bind_eq_some isRest
  have closed := ((searching_accounts s s).dirClose dir).returns searching isClosed
  have freed := ((searching_accounts s s).ofFree block [] []).returns closed isFreed
  cases isEnd
  exact freed.2.restored

/-- `sys_mkdir` without an inode or a block leaves everything as it was exactly when no
inode or no block was free. -/
theorem sysMkdir_restores_iff (ledger : Ledger s [] [] s) (wellFormed : s.part.WellFormed)
    (isRun : sysMkdir DiskFull.blockBitmapAlloc DiskFull.inodeBitmapAlloc junk pathname s =
      some (.error .exhausted, s')) :
    Restored s s' ↔ firstClear s.part.inodeBitmap = none ∨ s.part.freeBlocks = 0 := by
  have accounts := searching_accounts s s
  unfold sysMkdir at isRun
  obtain ⟨first, s₁, isFirst, isRest⟩ := bind_eq_some isRun
  have searching₁ := (accounts.ofMalloc [] []).returns ⟨ledger, Searched.refl s⟩ isFirst
  cases first with
  | none => cases isRest
  | some ioBuf =>
      obtain ⟨record, s₂, isSearch, isRest⟩ := bind_eq_some isRest
      have searching₂ := (accounts.searchFile junk pathname).returns searching₁ isSearch
      cases isFound : record.inodeNo with
      | some other =>
          rw [isFound] at isRest
          obtain ⟨_, _, _, isRest⟩ := bind_eq_some isRest
          obtain ⟨_, _, _, isRest⟩ := bind_eq_some isRest
          cases isRest
      | none =>
          rw [isFound] at isRest
          obtain ⟨pathnameDepth, t, isDepth, isRest⟩ := bind_eq_some isRest
          rw [pathDepthCnt_state isDepth] at isRest
          obtain ⟨searchedDepth, t, isSearched, isRest⟩ := bind_eq_some isRest
          rw [pathDepthCnt_state isSearched] at isRest
          split at isRest
          · obtain ⟨_, _, _, isRest⟩ := bind_eq_some isRest
            obtain ⟨_, _, _, isRest⟩ := bind_eq_some isRest
            cases isRest
          · obtain ⟨allocated, s₃, isAlloc, isRest⟩ := bind_eq_some isRest
            obtain ⟨part₃, isStep, isAfter₃⟩ := onPart_eq_some isAlloc
            have samePart₂ := searching₂.2.part
            cases allocated with
            | none =>
                obtain ⟨samePart, isFull⟩ := DiskFull.inodeBitmapAlloc_none isStep
                rw [samePart] at isAfter₃
                rw [isAfter₃] at isRest
                rw [samePart₂] at isFull
                exact iff_of_true (closing_restored searching₂ isRest) (.inl isFull)
            | some bit =>
                obtain ⟨found, isPart₃⟩ := DiskFull.inodeBitmapAlloc_some isStep
                obtain ⟨linked, s₄, isLinked, isRest⟩ := bind_eq_some isRest
                have notFull : firstClear s.part.inodeBitmap ≠ none := by
                  rw [← samePart₂, found]
                  exact Option.some_ne_none bit
                have isPart : s₃.part = s.part.setInodeBit bit true := by
                  rw [isAfter₃, isPart₃, samePart₂]
                rw [or_iff_right notFull]
                cases linked with
                | true =>
                    obtain ⟨_, _, _, isRest⟩ := bind_eq_some isRest
                    obtain ⟨_, _, _, isRest⟩ := bind_eq_some isRest
                    cases isRest
                | false =>
                    obtain ⟨_, s₅, isUnset, isRest⟩ := bind_eq_some isRest
                    obtain ⟨part₅, isBit, isAfter₅⟩ := onPart_eq_some isUnset
                    cases isBit
                    have wellFormed₃ : s₃.part.WellFormed := by
                      rw [isPart]
                      exact wellFormed_setInodeBit wellFormed bit true
                    rcases linkDirectory_fails wellFormed₃ isLinked with ⟨isFull, sameState⟩ | taken
                    · rw [isPart] at isFull
                      have undone : s₅ = s₂ := by
                        rw [isAfter₅, sameState, isAfter₃, isPart₃]
                        dsimp only
                        rw [setInodeBit_undo found]
                      rw [undone] at isRest
                      exact iff_of_true (closing_restored searching₂ isRest) isFull
                    · rw [isPart] at taken
                      have oneLess : s₄.part.freeBlocks + 1 = s.part.freeBlocks := taken
                      obtain ⟨_, s₆, isClosed, isRest⟩ := bind_eq_some isRest
                      obtain ⟨_, s₇, isFreed, isEnd⟩ := bind_eq_some isRest
                      have isPart₇ : s₇.part = s₄.part.setInodeBit bit false := by
                        rw [free_eq_some isFreed]
                        exact (dirClose_part isClosed).trans (congrArg State.part isAfter₅)
                      cases isEnd
                      apply iff_of_false
                      · intro restored
                        have sameFree := congrArg Volume.freeBlocks restored.part
                        rw [isPart₇] at sameFree
                        have unchanged : s₄.part.freeBlocks = s.part.freeBlocks := sameFree
                        omega
                      · omega

/-! ### Every call that needs a block or an inode -/

/-- A call that ends for want of a block or an inode leaves the bitmaps, the disk, the
inodes and the files as they were exactly when there was nothing to be allocated, or when
`sync_dir_entry` gives back the block of a table that was marked on the disk before. -/
theorem disk_full_restores_iff (s s' : State) :
    (∀ fdIdx buf count,
      fileWrite DiskFull.blockBitmapAlloc fdIdx buf count s = some (.error .exhausted, s') →
      (Same s s' ↔ s.part.freeBlocks = 0)) ∧
    (∀ parentDir filename flag, s.part.WellFormed →
      fileCreate DiskFull.blockBitmapAlloc DiskFull.inodeBitmapAlloc parentDir filename flag s =
        some (.error .exhausted, s') →
      (Same s s' ↔ firstClear s.part.inodeBitmap = none ∨
        (SlotZero s ∧ (s.part.freeBlocks = 0 ∨
          DiskFull.TableUndone s.part (s.inode parentDir.inode).node)))) ∧
    ∀ junk pathname, Ledger s [] [] s → s.part.WellFormed →
      sysMkdir DiskFull.blockBitmapAlloc DiskFull.inodeBitmapAlloc junk pathname s =
        some (.error .exhausted, s') →
      (Restored s s' ↔ firstClear s.part.inodeBitmap = none ∨ s.part.freeBlocks = 0) := by
  refine ⟨?_, ?_, ?_⟩
  · intro fdIdx buf count isRun
    exact fileWrite_restores_iff isRun
  · intro parentDir filename flag wellFormed isRun
    exact fileCreate_restores_iff wellFormed isRun
  · intro junk pathname ledger wellFormed isRun
    exact sysMkdir_restores_iff ledger wellFormed isRun

/-! ### A volume that is nearly full -/

/-- A volume with this many free blocks, eight at most, the last ones. -/
def nearlyFull (free : Nat) : Volume :=
  { blankVolume with blockBitmap := ⟨512, fun i => if i = 511 then 255#8 >>> free else 255#8⟩ }

theorem nearlyFull_wellFormed (free : Nat) : (nearlyFull free).WellFormed :=
  ⟨blankVolume_wellFormed.bitmapBelow, blankVolume_wellFormed.tableBelow, blankVolume_wellFormed.dataFits⟩

/-- The system after booting from such a volume. -/
def nearlyFullState (free : Nat) : State := { bootState with part := nearlyFull free }

theorem nearlyFullState_booted (free : Nat) : Booted (nearlyFullState free) :=
  ⟨rfl, bootState_booted.rootLive, rfl, fun _ => rfl, rfl⟩

/-- The answer is -1 for want of a block or an inode. -/
def isExhausted {α : Type} : Except Cause α → Bool
  | .error .exhausted => true
  | _ => false

theorem isExhausted_iff {α : Type} {answer : Except Cause α} :
    isExhausted answer = true ↔ answer = .error .exhausted := by
  cases answer with
  | ok a => simp [isExhausted]
  | error cause => cases cause <;> simp [isExhausted]

theorem write_with_one_block :
    (createsIt.run (nearlyFullState 2)).bind (fun s =>
      (fileWrite DiskFull.blockBitmapAlloc 3 (fun _ => 0) 512 s).map fun result =>
        (isExhausted result.1, s.part.freeBlocks)) = some (true, 1) := by
  decide +kernel

/-- 512 bytes for a new file need two blocks, and the only one that is left is kept. -/
theorem failed_write_keeps_block :
    ∃ s s', Reachable s ∧
      fileWrite DiskFull.blockBitmapAlloc 3 (fun _ => 0) 512 s = some (.error .exhausted, s') ∧
      ¬ Same s s' := by
  obtain ⟨s, isCreated, isResult⟩ := Option.bind_eq_some_iff.mp write_with_one_block
  obtain ⟨⟨answer, s'⟩, isRun, isPair⟩ := Option.map_eq_some_iff.mp isResult
  obtain ⟨isAnswer, oneFree⟩ := Prod.mk.inj isPair
  dsimp only at isAnswer oneFree
  rw [isExhausted_iff.mp isAnswer] at isRun
  have reachable : Reachable s := .step (.boot (nearlyFullState_booted 2)) (.call createsIt) isCreated
  refine ⟨s, s', reachable, isRun, fun same => ?_⟩
  have noneFree := (fileWrite_restores_iff isRun).mp same
  omega

theorem create_without_blocks :
    (fileCreate DiskFull.blockBitmapAlloc DiskFull.inodeBitmapAlloc (rootDir (nearlyFullState 0)) [97] 6
      (nearlyFullState 0)).map (fun result => isExhausted result.1) = some true := by
  decide +kernel

theorem mkdir_without_blocks :
    (sysMkdir DiskFull.blockBitmapAlloc DiskFull.inodeBitmapAlloc noJunk [slash, 97]
      (nearlyFullState 0)).map (fun result => isExhausted result.1) = some true := by
  decide +kernel

/-- With all blocks taken, nothing is left behind by either call. -/
theorem full_volume_restored :
    (∃ s', fileCreate DiskFull.blockBitmapAlloc DiskFull.inodeBitmapAlloc (rootDir (nearlyFullState 0))
        [97] 6 (nearlyFullState 0) = some (.error .exhausted, s') ∧ Same (nearlyFullState 0) s') ∧
      ∃ s', sysMkdir DiskFull.blockBitmapAlloc DiskFull.inodeBitmapAlloc noJunk [slash, 97]
        (nearlyFullState 0) = some (.error .exhausted, s') ∧ Restored (nearlyFullState 0) s' := by
  have noneFree : (nearlyFullState 0).part.freeBlocks = 0 := by decide +kernel
  obtain ⟨⟨answer, s₁⟩, isCreate, isAnswer⟩ := Option.map_eq_some_iff.mp create_without_blocks
  obtain ⟨⟨answer', s₂⟩, isMkdir, isAnswer'⟩ := Option.map_eq_some_iff.mp mkdir_without_blocks
  dsimp only at isAnswer isAnswer'
  rw [isExhausted_iff.mp isAnswer] at isCreate
  rw [isExhausted_iff.mp isAnswer'] at isMkdir
  have zeroSlot : SlotZero (nearlyFullState 0) := by
    intro fdIdx s' _
    rfl
  refine ⟨⟨s₁, isCreate, ?_⟩, s₂, isMkdir, ?_⟩
  · exact ((disk_full_restores_iff _ s₁).2.1 _ _ _ (nearlyFull_wellFormed 0) isCreate).mpr
      (.inr ⟨zeroSlot, .inl noneFree⟩)
  · exact ((disk_full_restores_iff _ s₂).2.2 _ _ (nearlyFullState_booted 0).ledger
      (nearlyFull_wellFormed 0) isMkdir).mpr (.inr noneFree)

end ZyOs.Fs.Exhausting
