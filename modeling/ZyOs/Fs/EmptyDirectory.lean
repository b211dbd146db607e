import ZyOs.Fs.EntryCounts
import ZyOs.Fs.DiskFull
import ZyOs.Fs.DirectoryMap
import ZyOs.Fs.EntryRemoval

/-!
Contract: the blocks of a directory that `dir_is_empty` finds empty.

`dir_is_empty` looks at `i_size`, and `dir_remove` expects that such a directory has
its first block only. Between the two stands `Accounted`, which `sync_dir_entry` and
`delete_dir_entry` keep whenever they return, with room on the volume or without.
-/

namespace ZyOs.Fs

open ZyOs.Kernel ZyOs.Lib
open InodeTable (Inode)

variable {part part' : Volume} {inode inode' : Inode} {entry : DirEntry}

/-! ### The calls -/

/-- An allocation that takes the first clear bit, or returns -1. -/
def TakesFirst (alloc : DiskFull.Alloc) : Prop :=
  ∀ part part' taken, alloc part = some (part', taken) → (taken = none ∧ part' = part) ∨
    ∃ bit, firstClear part.blockBitmap = some bit ∧ part' = part.setBlockBit bit true ∧
      taken = some (part.dataStartLba + bit)

theorem takesFirst_model : TakesFirst Volume.blockBitmapAlloc := by
  intro part part' taken isRun
  exact .inr (Volume.blockBitmapAlloc_eq_some isRun)

theorem takesFirst_diskFull : TakesFirst DiskFull.blockBitmapAlloc := by
  intro part part' taken isRun
  cases taken with
  | none => exact .inl ⟨rfl, (DiskFull.blockBitmapAlloc_none isRun).1⟩
  | some lba =>
      obtain ⟨bit, isBit, isPart, isLba⟩ := DiskFull.blockBitmapAlloc_some isRun
      exact .inr ⟨bit, isBit, isPart, congrArg some isLba⟩

/-- What `sync_dir_entry` does when it returns. -/
inductive Synced (part : Volume) (inode : Inode) (entry : DirEntry) : Volume → Inode → Prop where
  | unchanged : Synced part inode entry part inode
  | undone {bit : Nat} (found : firstClear part.blockBitmap = some bit) :
      Synced part inode entry (DiskFull.syncedOnly part bit) (setSector inode 12 0)
  | slot {blockIdx idx : Nat} (direct : blockIdx < 12) (isBlock : sectorOf inode blockIdx ≠ 0)
      (inside : idx < dirEntrysPerSec)
      (isFree : fTypeAt (ideRead part.disk (sectorOf inode blockIdx) 1) idx = 0) :
      Synced part inode entry (part.putEntry (sectorOf inode blockIdx) idx entry) (addEntrySize inode)
  | direct {blockIdx lba : Nat} {part₁ : Volume} (direct : blockIdx < 12)
      (notBlock : sectorOf inode blockIdx = 0) (allocated : part.Allocated part₁ lba) :
      Synced part inode entry (part₁.ideWrite lba (newSector entry))
        (addEntrySize (setSector inode blockIdx lba))
  | table {tableLba lba : Nat} {part₁ part₂ : Volume} (allocated₁ : part.Allocated part₁ tableLba)
      (allocated₂ : part₁.Allocated part₂ lba) :
      Synced part inode entry (part₂.putTable tableLba lba (directBlocks inode) entry)
        (addEntrySize (setSector inode 12 tableLba))

/-- The loop at the first block that is missing. -/
theorem addBlock_synced {alloc : DiskFull.Alloc} (takes : TakesFirst alloc) (wellFormed : part.WellFormed)
    {blockIdx : Nat} (atMost : blockIdx ≤ 12)
    (notBlock : (directBlocks inode ++ List.replicate 128 0).getD blockIdx 0 = 0) {added : Option Nat}
    (isAdded : DiskFull.addBlock alloc part inode (directBlocks inode ++ List.replicate 128 0) blockIdx =
      some (part', inode', added)) :
    match added with
    | none => Synced part inode entry part' inode'
    | some lba => Synced part inode entry (part'.ideWrite lba (newSector entry)) (addEntrySize inode') := by
  unfold DiskFull.addBlock at isAdded
  obtain ⟨⟨part₁, taken⟩, isTaken, isRest⟩ := Option.bind_eq_some_iff.mp isAdded
  rcases takes _ _ _ isTaken with ⟨rfl, rfl⟩ | ⟨bit, isBit, rfl, rfl⟩
  · cases isRest
    exact .unchanged
  · have allocated := Volume.allocated_of_firstClear wellFormed isBit
    have small := allocated.inUse.lt (allocated.writes.wellFormed wellFormed)
    dsimp only at isRest
    rw [allocated_bit] at isRest
    by_cases direct : blockIdx < 12
    · rw [if_pos direct] at isRest
      cases isRest
      rw [syncBlocks_getD inode direct] at notBlock
      exact .direct direct notBlock allocated
    · obtain rfl : blockIdx = 12 := by omega
      have isTable : sectorOf (setSector inode 12 (part.dataStartLba + bit)) 12 = part.dataStartLba + bit := by
        rw [sectorOf_setSector inode (by decide) (by decide) small, if_pos rfl]
      rw [if_neg direct, if_pos rfl, isTable] at isRest
      obtain ⟨⟨part₂, taken⟩, isTaken, isRest⟩ := Option.bind_eq_some_iff.mp isRest
      rcases takes _ _ _ isTaken with ⟨rfl, rfl⟩ | ⟨bit', isBit', rfl, rfl⟩
      · have isBitAgain : part.dataStartLba + bit -
            ((part.setBlockBit bit true).bitmapSync bit .block).dataStartLba = bit :=
          Nat.add_sub_cancel_left _ _
        dsimp only at isRest
        rw [isBitAgain, DiskFull.setBlockBit_undo isBit, DiskFull.setSector_idem] at isRest
        cases isRest
        exact .undone isBit
      · have allocated₂ := Volume.allocated_of_firstClear (allocated.writes.wellFormed wellFormed) isBit'
        dsimp only at isRest
        rw [allocated_bit] at isRest
        cases isRest
        exact .table allocated allocated₂

/-- The loop, from an index up to that of the table. -/
theorem syncLoop_synced {alloc : DiskFull.Alloc} (takes : TakesFirst alloc) (wellFormed : part.WellFormed)
    {done : Bool} (count : Nat) : ∀ {start}, start ≤ 12 → 12 < start + count →
      DiskFull.syncLoop alloc part inode entry (directBlocks inode ++ List.replicate 128 0)
        (List.range' start count) = some (part', inode', done) →
      Synced part inode entry part' inode' := by
  induction count with
  | zero =>
      intro start atMost behind
      omega
  | succ count inductionHypothesis =>
      intro start atMost behind isRun
      rw [List.range'_succ] at isRun
      unfold DiskFull.syncLoop at isRun
      dsimp only at isRun
      by_cases notBlock : (directBlocks inode ++ List.replicate 128 0).getD start 0 = 0
      · rw [if_pos notBlock] at isRun
        obtain ⟨⟨part₁, inode₁, added⟩, isAdded, isRest⟩ := Option.bind_eq_some_iff.mp isRun
        have synced := @addBlock_synced part part₁ inode inode₁ entry alloc takes wellFormed start atMost
          notBlock added isAdded
        cases added with
        | none =>
            cases isRest
            exact synced
        | some lba =>
            cases isRest
            exact synced
      · have direct : start < 12 := by
          by_contra beyond
          obtain rfl : start = 12 := by omega
          exact notBlock (syncBlocks_twelve inode)
        rw [if_neg notBlock] at isRun
        rw [syncBlocks_getD inode direct] at notBlock isRun
        cases isFound : (List.range dirEntrysPerSec).find? fun idx =>
            decide (fTypeAt (ideRead part.disk (sectorOf inode start) 1) idx = 0) with
        | none =>
            rw [isFound] at isRun
            exact inductionHypothesis (by omega) (by omega) isRun
        | some idx =>
            have isFree : fTypeAt (ideRead part.disk (sectorOf inode start) 1) idx = 0 := by
              simpa using List.find?_some isFound
            rw [isFound] at isRun
            cases isRun
            exact .slot direct notBlock (List.mem_range.mp (List.mem_of_find?_eq_some isFound)) isFree

theorem syncDirEntry_synced {alloc : DiskFull.Alloc} (takes : TakesFirst alloc)
    (wellFormed : part.WellFormed) {done : Bool}
    (isRun : DiskFull.syncDirEntry alloc part inode entry = some (part', inode', done)) :
    inode.iSize.toNat % dirEntrySize = 0 ∧ Synced part inode entry part' inode' := by
  unfold DiskFull.syncDirEntry at isRun
  split at isRun
  · rename_i aligned
    rw [List.range_eq_range'] at isRun
    exact ⟨aligned, syncLoop_synced takes wellFormed 140 (Nat.zero_le 12) (by decide) isRun⟩
  · cases isRun

/-- A write outside the blocks of the directory. -/
theorem Accounted.frame (accounted : Accounted part inode) {written : List Nat}
    (writes : part.Writes part' written) (notOwn : ∀ lba ∈ ownBlocks part.disk inode, lba ∉ written)
    (kept : ∀ lba ∈ ownBlocks part.disk inode, part'.InUse lba) : Accounted part' inode := by
  refine accounted.imp_right fun both => ?_
  obtain ⟨standing, counts⟩ := both
  obtain ⟨owns, blocks, same⟩ := @OwnsBlocks.frame part part' inode inode standing.owns written writes notOwn
    kept rfl
  have sameBlock : ∀ lba ∈ dirBlocks part.disk inode, part'.disk lba = part.disk lba :=
    fun lba mem => same lba (List.mem_append_right _ mem)
  have count : liveCount part'.disk inode = liveCount part.disk inode := by
    rw [liveCount_of_perm (List.Perm.of_eq blocks), sum_liveIn_congr sameBlock,
      ← liveCount_of_perm (List.Perm.refl _)]
  refine ⟨standing.of_sameFirst owns rfl (sameBlock _ standing.first_mem),
    counts.lose rfl count.le fun _ occupied => ⟨fun other isOther notFirst => ?_, fun isTable => ?_⟩⟩
  · rw [blocks] at isOther
    rw [liveIn_congr (sameBlock other isOther)]
    exact occupied.blocks other isOther notFirst
  · rw [OwnsBlocks.listed_congr rfl same]
    exact occupied.table isTable

/-- An insertion that returns. -/
theorem Accounted.synced (accounted : Accounted part inode) (wellFormed : part.WellFormed)
    {alloc : DiskFull.Alloc} (takes : TakesFirst alloc) {done : Bool}
    (isRun : DiskFull.syncDirEntry alloc part inode entry = some (part', inode', done)) :
    Accounted part' inode' ∧ part'.WellFormed := by
  obtain ⟨aligned, synced⟩ := syncDirEntry_synced takes wellFormed isRun
  rcases accounted with wrapped | ⟨standing, counts⟩
  · exact absurd aligned wrapped.1
  cases synced with
  | unchanged => exact ⟨.inr ⟨standing, counts⟩, wellFormed⟩
  | @undone bit found =>
      have inside := (firstClear_some found).1
      have writes : part.Writes (DiskFull.syncedOnly part bit) [] := by
        have synced := Volume.writes_bitmapSync ((Volume.writes_setBlockBit part bit true).wellFormed wellFormed)
          inside
        exact ⟨rfl, rfl, rfl, rfl, synced.disk⟩
      exact ⟨.inr (standing.dropTable counts writes rfl), writes.wellFormed wellFormed⟩
  | slot direct isBlock inside isFree =>
      exact ⟨standing.putEntry counts (sectorOf_mem_dirBlocks direct isBlock) inside isFree,
        (Volume.writes_ideWrite part _ _).wellFormed wellFormed⟩
  | direct direct notBlock allocated =>
      exact ⟨standing.newDirect counts wellFormed allocated direct notBlock,
        (allocated.writes.trans (Volume.writes_ideWrite _ _ _)).wellFormed wellFormed⟩
  | @table tableLba lba part₁ part₂ allocated₁ allocated₂ =>
      refine ⟨standing.newTable counts wellFormed allocated₁ allocated₂, ?_⟩
      exact ((allocated₁.writes.trans allocated₂.writes).trans
        ((Volume.writes_ideWrite part₂ tableLba _).trans (Volume.writes_ideWrite _ lba _))).wellFormed wellFormed

/-- The loop of `delete_dir_entry` stops in a block with the entry, or changes nothing. -/
theorem deleteLoop_some {fuel n : Nat} {blocks idxs : List Nat} {done : Bool}
    (isRun : deleteLoop fuel part inode n blocks idxs = some (part', inode', done)) :
    (part' = part ∧ inode' = inode) ∨ ∃ blockIdx idx result, blocks.getD blockIdx 0 ≠ 0 ∧
      idx < dirEntrysPerSec ∧ matchesSlot (ideRead part.disk (blocks.getD blockIdx 0) 1) n idx = true ∧
      deleteAt fuel part inode blocks blockIdx idx = some result ∧
      finishDelete result.1 result.2 = some (part', inode', done) := by
  induction idxs with
  | nil =>
      cases isRun
      exact .inl ⟨rfl, rfl⟩
  | cons blockIdx rest inductionHypothesis =>
      by_cases notBlock : blocks.getD blockIdx 0 = 0
      · rw [deleteLoop_absent notBlock] at isRun
        exact inductionHypothesis isRun
      · cases isScan : scanSector (ideRead part.disk (blocks.getD blockIdx 0) 1) n
            (List.range dirEntrysPerSec) ⟨0, false, none⟩ with
        | none =>
            rw [deleteLoop_failed notBlock isScan] at isRun
            cases isRun
        | some scan =>
            obtain ⟨isCount, isDot, isFind⟩ := scanSector_some isScan
            rw [Nat.zero_add] at isCount
            rw [Bool.false_or] at isDot
            rw [Option.none_or] at isFind
            cases isFound : scan.dirEntryFound with
            | none =>
                rw [deleteLoop_passed notBlock isScan isFound] at isRun
                exact inductionHypothesis isRun
            | some idx =>
                rw [isFound] at isFind
                have isMatch := List.find?_some isFind.symm
                have inside := List.mem_of_find?_eq_some isFind.symm
                have counted : 1 ≤ scan.dirEntryCnt := by
                  rw [isCount]
                  apply @List.length_pos_of_mem _ idx
                  obtain ⟨isLive, isProper⟩ := properSlot_of_matches isMatch
                  exact List.mem_filter.mpr ⟨inside, decide_eq_true ⟨isLive, isProper⟩⟩
                rw [deleteLoop_found notBlock isScan isFound counted, isCount, isDot] at isRun
                obtain ⟨result, isDeleted, isFinished⟩ := Option.bind_eq_some_iff.mp isRun
                exact .inr ⟨blockIdx, idx, result, notBlock, List.mem_range.mp inside, isMatch, isDeleted,
                  isFinished⟩

/-- The block of an entry, when it is given back: a direct one. -/
theorem dropBlock_some {fuel blockIdx : Nat} {blocks : List Nat} {result : Volume × Inode}
    (isRun : dropBlock fuel part inode blocks blockIdx = some result) :
    blockIdx < 12 ∧ result = (part.freeBlock (blocks.getD blockIdx 0), setSector inode blockIdx 0) := by
  by_cases direct : blockIdx < 12
  · rw [dropBlock_direct direct] at isRun
    cases isRun
    exact ⟨direct, rfl⟩
  · rw [dropBlock_indirect direct] at isRun
    cases isRun

/-- The entry is gone, before the inode is written. -/
theorem Standing.deleteAt (standing : Standing part inode) (counts : Counts part.disk inode)
    (wellFormed : part.WellFormed) {fuel n blockIdx idx : Nat} {result : Volume × Inode}
    (isBlock : (allBlocks part.disk (searchInode inode)).getD blockIdx 0 ≠ 0) (inside : idx < dirEntrysPerSec)
    (isMatch : matchesSlot (ideRead part.disk ((allBlocks part.disk (searchInode inode)).getD blockIdx 0) 1)
      n idx = true)
    (isRun : Fs.deleteAt fuel part inode (allBlocks part.disk (searchInode inode)) blockIdx idx = some result) :
    Standing result.1 (subEntrySize result.2) ∧ Counts result.1.disk (subEntrySize result.2) ∧
      result.1.WellFormed := by
  have mem := mem_dirBlocks_of_getD isBlock
  unfold Fs.deleteAt at isRun
  dsimp only at isRun
  split at isRun
  · rename_i onlyOne
    obtain ⟨direct, rfl⟩ := dropBlock_some isRun
    rw [allBlocks_getD direct] at *
    have notFirst : blockIdx ≠ 0 := by
      rintro rfl
      -- the first block has the entry `.`
      obtain ⟨self, isSelf, isDot⟩ := standing.self
      obtain ⟨slot, slotInside, isLive, rfl⟩ := mem_liveAt.mp isSelf
      have isDotSlot := List.any_eq_false.mp onlyOne.2 slot (List.mem_range.mpr slotInside)
      exact isDotSlot (decide_eq_true ⟨isLive, isDot⟩)
    have isLive := (properSlot_of_matches isMatch).1
    have some : liveIn part.disk (sectorOf inode blockIdx) ≠ 0 := by
      have isIn := mem_liveAt.mpr ⟨idx, inside, isLive, rfl⟩
      exact Nat.pos_iff_ne_zero.mp (List.length_pos_of_mem isIn)
    obtain ⟨standing', counts'⟩ := standing.freeDirect counts wellFormed direct isBlock notFirst some
    exact ⟨standing', counts', (writes_freeBlock wellFormed
      (standing.owns.inUse _ (List.mem_append_right _ mem))).wellFormed wellFormed⟩
  · rename_i another
    cases isRun
    obtain ⟨standing', counts'⟩ := standing.clearEntry counts mem inside isMatch another
    exact ⟨standing', counts', (Volume.writes_ideWrite part _ _).wellFormed wellFormed⟩

theorem deleteAt_iSize {fuel blockIdx idx : Nat} {blocks : List Nat} {result : Volume × Inode}
    (isRun : deleteAt fuel part inode blocks blockIdx idx = some result) :
    result.2.iSize = inode.iSize := by
  unfold deleteAt at isRun
  dsimp only at isRun
  split at isRun
  · obtain ⟨_, rfl⟩ := dropBlock_some isRun
    rfl
  · cases isRun
    rfl

/-- A deletion that returns. -/
theorem Accounted.deleted (accounted : Accounted part inode) (wellFormed : part.WellFormed) {fuel n : Nat}
    {done : Bool} (isRun : deleteDirEntry fuel part inode n = some (part', inode', done)) :
    Accounted part' inode' ∧ part'.WellFormed := by
  rcases deleteLoop_some isRun with ⟨rfl, rfl⟩ |
    ⟨blockIdx, idx, result, isBlock, inside, isMatch, isDeleted, isFinished⟩
  · exact ⟨accounted, wellFormed⟩
  obtain ⟨isSynced, rfl, _⟩ := finishDelete_eq_some isFinished
  rcases accounted with wrapped | ⟨standing, counts⟩
  · -- `i_size` is smaller than an entry
    unfold finishDelete at isFinished
    rw [deleteAt_iSize isDeleted] at isFinished
    simp only [Nat.not_le.mpr wrapped.2, guard_false] at isFinished
    cases isFinished
  · obtain ⟨standing', counts', wellFormed'⟩ :=
      standing.deleteAt counts wellFormed isBlock inside isMatch isDeleted
    obtain ⟨synced, isSynced', writes, bitmap⟩ := Volume.inodeSync_spec wellFormed' (subEntrySize result.2)
    cases isSynced.symm.trans isSynced'
    refine ⟨Accounted.frame (.inr ⟨standing', counts'⟩) writes (fun _ _ => List.not_mem_nil) fun lba mem => ?_,
      writes.wellFormed wellFormed'⟩
    exact (standing'.owns.inUse lba mem).of_sameBitmap writes bitmap

/-! ### Sequences of calls -/

/-- Calls of `sync_dir_entry` and `delete_dir_entry` on a directory that return, in any order
and with any arguments. In between, the rest of the volume may change. -/
inductive EntryRun (alloc : DiskFull.Alloc) (part₀ : Volume) (inode₀ : Inode) : Volume → Inode → Prop where
  | nil : EntryRun alloc part₀ inode₀ part₀ inode₀
  | sync {part part' : Volume} {inode inode' : Inode} {entry : DirEntry} {done : Bool}
      (run : EntryRun alloc part₀ inode₀ part inode)
      (isRun : DiskFull.syncDirEntry alloc part inode entry = some (part', inode', done)) :
      EntryRun alloc part₀ inode₀ part' inode'
  | delete {part part' : Volume} {inode inode' : Inode} {fuel inodeNo : Nat} {done : Bool}
      (run : EntryRun alloc part₀ inode₀ part inode)
      (isRun : deleteDirEntry fuel part inode inodeNo = some (part', inode', done)) :
      EntryRun alloc part₀ inode₀ part' inode'
  | others {part part' : Volume} {inode : Inode} {written : List Nat}
      (run : EntryRun alloc part₀ inode₀ part inode) (writes : part.Writes part' written)
      (notOwn : ∀ lba ∈ ownBlocks part.disk inode, lba ∉ written)
      (kept : ∀ lba ∈ ownBlocks part.disk inode, part'.InUse lba) :
      EntryRun alloc part₀ inode₀ part' inode

theorem EntryRun.accounted {alloc : DiskFull.Alloc} {part₀ : Volume} {inode₀ : Inode}
    (run : EntryRun alloc part₀ inode₀ part inode) (takes : TakesFirst alloc)
    (accounted : Accounted part₀ inode₀) (wellFormed : part₀.WellFormed) :
    Accounted part inode ∧ part.WellFormed := by
  induction run with
  | nil => exact ⟨accounted, wellFormed⟩
  | sync _ isRun inductionHypothesis =>
      exact inductionHypothesis.1.synced inductionHypothesis.2 takes isRun
  | delete _ isRun inductionHypothesis =>
      exact inductionHypothesis.1.deleted inductionHypothesis.2 isRun
  | others _ writes notOwn kept inductionHypothesis =>
      exact ⟨inductionHypothesis.1.frame writes notOwn kept, writes.wellFormed inductionHypothesis.2⟩

/-- A new directory has one block, and `i_size` counts its two entries. -/
theorem accounted_of_made {part₀ : Volume} {ownNo parentNo : Nat} (wellFormed : part₀.WellFormed)
    (ownSmall : ownNo < 2 ^ 32) (parentSmall : parentNo < 2 ^ 32)
    (isMade : makeDirectory part₀ ownNo parentNo = some (part, inode)) :
    Accounted part inode ∧ part.WellFormed := by
  obtain ⟨wellFormed', isDir, noTable, _⟩ := makeDirectory_spec ownSmall parentSmall wellFormed isMade
  obtain ⟨part₁, lba, allocated, _, isInode⟩ := makeDirectory_eq_some wellFormed isMade
  have wellFormed₁ := allocated.writes.wellFormed wellFormed
  obtain ⟨isFirst, _, blocks⟩ := @dirBlocks_dotsInode ownNo lba (allocated.inUse.lt wellFormed₁)
    (allocated.inUse.pos wellFormed₁) part.disk
  rw [← isInode] at isFirst blocks
  refine ⟨.inr ⟨⟨isDir.ownsBlocks, isDir.first, isDir.self, isDir.up⟩, liveCount part.disk inode,
    isDir.size, Nat.le_refl _, fun _ => ⟨fun other mem notFirst => ?_, fun isTable => ?_⟩⟩, wellFormed'⟩
  · rw [blocks, List.mem_singleton] at mem
    exact absurd (mem.trans isFirst.symm) notFirst
  · exact absurd noTable isTable

/-- A directory that `dir_is_empty` finds empty passes the `ASSERT`s of `dir_remove`, whatever
insertions and deletions have returned since `sys_mkdir`, with room on the volume or without. -/
theorem emptyDirectory_blocks {alloc : DiskFull.Alloc} {part₀ part₁ : Volume} {inode₁ : Inode}
    {ownNo parentNo : Nat} (isAlloc : alloc = Volume.blockBitmapAlloc ∨ alloc = DiskFull.blockBitmapAlloc)
    (wellFormed : part₀.WellFormed) (ownSmall : ownNo < 2 ^ 32) (parentSmall : parentNo < 2 ^ 32)
    (isMade : makeDirectory part₀ ownNo parentNo = some (part₁, inode₁))
    (run : EntryRun alloc part₁ inode₁ part inode) (isEmpty : inode.iSize.toNat = dirEntrySize * 2) :
    ((List.range' 1 12).all fun blockIdx => sectorOf inode blockIdx = 0) = true := by
  have takes : TakesFirst alloc := by
    rcases isAlloc with rfl | rfl
    · exact takesFirst_model
    · exact takesFirst_diskFull
  obtain ⟨accounted₁, wellFormed₁⟩ := accounted_of_made wellFormed ownSmall parentSmall isMade
  have single := (run.accounted takes accounted₁ wellFormed₁).1.single_block isEmpty
  rw [List.all_eq_true]
  intro blockIdx mem
  obtain ⟨low, high⟩ := List.mem_range'_1.mp mem
  exact decide_eq_true (single blockIdx low (by omega))

/-- A name is inserted and deleted again. -/
theorem emptied_blocks : ∃ part₁ inode₁ part inode, makeDirectory blankVolume 1 0 = some (part₁, inode₁) ∧
    EntryRun Volume.blockBitmapAlloc part₁ inode₁ part inode ∧ inode.iSize.toNat = dirEntrySize * 2 ∧
    ((List.range' 1 12).all fun blockIdx => sectorOf inode blockIdx = 0) = true := by
  obtain ⟨part₁, inode₁, isMade, made⟩ := exists_made
  obtain ⟨part₂, inode₂, isInserted, filled⟩ := made.next (by decide)
  have isIn : fillEntry 0 ∈ liveEntries part₂.disk inode₂ := filled.live.mem_iff.mpr List.mem_cons_self
  have inDirect : InDirect part₂ inode₂ 2 := by
    rw [liveEntries_direct filled.noTable] at isIn
    obtain ⟨lba, isBlock, isEntry⟩ := List.mem_flatMap.mp isIn
    obtain ⟨isListed, notZero⟩ := List.mem_filter.mp isBlock
    obtain ⟨blockIdx, direct, rfl⟩ := List.mem_map.mp isListed
    exact ⟨blockIdx, List.mem_range.mp direct, by simpa using notZero, _, isEntry, by decide, rfl⟩
  obtain ⟨part₃, inode₃, entry, isDeleted, _, _, _, isDir, loses⟩ :=
    deleteDirEntry_spec filled.isDir filled.wellFormed inDirect 0
  have isEmpty : inode₃.iSize.toNat = dirEntrySize * 2 := by
    have before := filled.live.length_eq
    rw [length_filled] at before
    have lengths := loses.length_eq
    rw [List.length_cons] at lengths
    have two : (liveEntries part₃.disk inode₃).length = 2 := by omega
    rw [isDir.size, two]
  rw [← DiskFull.syncDirEntry_model] at isInserted
  have run : EntryRun Volume.blockBitmapAlloc part₁ inode₁ part₃ inode₃ := .delete (.sync .nil isInserted) isDeleted
  exact ⟨part₁, inode₁, part₃, inode₃, isMade, run, isEmpty, emptyDirectory_blocks (.inl rfl)
    blankVolume_wellFormed (by decide) (by decide) isMade run isEmpty⟩

end ZyOs.Fs
