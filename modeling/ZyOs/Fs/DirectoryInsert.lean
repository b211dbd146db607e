import ZyOs.Fs.DirectorySlots

/-!
Contract: what `sync_dir_entry` does to the live entries of a directory.

Owns:
- `IsDirectory`, the invariant of a directory on a volume: its blocks are its
  own, its live entries have different names and numbers, and `i_size` counts
  them;
- that an insertion keeps it and adds one entry, when the direct blocks have room
  or there is no table yet.

When the direct blocks are full and there is a table, `sync_dir_entry` makes a
new table, and the blocks of the old one are lost.
-/

namespace ZyOs.Fs

open ZyOs.Kernel ZyOs.Lib
open InodeTable (Inode)

/-! ### Directories -/

/-- The table of a directory, if it has one. -/
def tableBlock (inode : Inode) : List Nat :=
  if sectorOf inode 12 ≠ 0 then [sectorOf inode 12] else []

/-- The blocks of a directory, with the table. -/
def ownBlocks (disk : Disk) (inode : Inode) : List Nat := tableBlock inode ++ dirBlocks disk inode

/-- An entry other than `.` and `..`. -/
def DirEntry.isProper (entry : DirEntry) : Bool := entry.name ≠ [dot] ∧ entry.name ≠ [dot, dot]

/-- A directory on a volume. -/
structure IsDirectory (part : Volume) (inode : Inode) : Prop where
  nodup : (ownBlocks part.disk inode).Nodup
  inUse : ∀ lba ∈ ownBlocks part.disk inode, part.InUse lba
  cleared : ∀ lba ∈ dirBlocks part.disk inode, Cleared (ideRead part.disk lba 1)
  names : ((liveEntries part.disk inode).map DirEntry.name).Nodup
  numbers : (((liveEntries part.disk inode).filter DirEntry.isProper).map DirEntry.iNo).Nodup
  size : inode.iSize.toNat = dirEntrySize * (liveEntries part.disk inode).length
  first : sectorOf inode 0 ≠ 0
  self : ∃ entry ∈ liveAt (ideRead part.disk (sectorOf inode 0) 1), entry.name = [dot]
  up : ∃ entry ∈ liveAt (ideRead part.disk (sectorOf inode 0) 1), entry.name = [dot, dot]
  dotsFirst : ∀ lba ∈ dirBlocks part.disk inode, lba ≠ sectorOf inode 0 →
    ∀ entry ∈ liveAt (ideRead part.disk lba 1), entry.isProper = true

/-- An entry that can be put into a directory: its name and its number are new. -/
structure IsFresh (part : Volume) (inode : Inode) (entry : DirEntry) : Prop where
  isWritten : entry.IsWritten
  isLive : entry.fType ≠ .unknown
  proper : entry.isProper = true
  name : ∀ other ∈ liveEntries part.disk inode, other.name ≠ entry.name
  number : ∀ other ∈ liveEntries part.disk inode, other.iNo ≠ entry.iNo

variable {part part' : Volume} {inode inode' : Inode} {entry : DirEntry} {disk disk' : Disk} {lba : Nat}

theorem length_dirBlocks_le (disk : Disk) (inode : Inode) : (dirBlocks disk inode).length ≤ 140 := by
  have count : (allBlocks disk (searchInode inode)).length = 140 := by
    rw [allBlocks_eq, List.length_append]
    unfold directBlocks tableBlocks
    split <;> simp
  rw [← count]
  exact List.length_filter_le _ _

theorem length_liveEntries_le (disk : Disk) (inode : Inode) :
    (liveEntries disk inode).length ≤ 140 * dirEntrysPerSec := by
  have pieces : ∀ blocks : List Nat,
      (blocks.flatMap fun lba => liveAt (ideRead disk lba 1)).length ≤ blocks.length * dirEntrysPerSec := by
    intro blocks
    induction blocks with
    | nil => exact Nat.zero_le _
    | cons lba blocks inductionHypothesis =>
        have piece := length_liveAt_le (ideRead disk lba 1)
        rw [List.flatMap_cons, List.length_append, List.length_cons, Nat.succ_mul]
        omega
  exact (pieces _).trans (Nat.mul_le_mul_right _ (length_dirBlocks_le disk inode))

/-- `i_size` grows by one entry. -/
theorem iSize_add (isDir : IsDirectory part inode) :
    (inode.iSize + UInt32.ofNat dirEntrySize).toNat =
      dirEntrySize * ((liveEntries part.disk inode).length + 1) := by
  have atMost := length_liveEntries_le part.disk inode
  have perSec : dirEntrysPerSec = 21 := by decide
  rw [UInt32.toNat_add, isDir.size, UInt32.toNat_ofNat']
  simp only [perSec, dirEntrySize] at *
  omega

/-! ### Blocks that come and go -/

/-- The blocks that a directory keeps have the entries that they had. -/
theorem liveEntries_newBlock (blocks : (dirBlocks disk' inode').Perm (lba :: dirBlocks disk inode))
    (same : ∀ old ∈ dirBlocks disk inode, disk' old = disk old)
    (single : (liveAt (ideRead disk' lba 1)).Perm [entry]) :
    (liveEntries disk' inode').Perm (entry :: liveEntries disk inode) := by
  have rest : (dirBlocks disk inode).flatMap (fun lba => liveAt (ideRead disk' lba 1)) =
      liveEntries disk inode := by
    apply List.flatMap_congr
    intro old mem
    rw [ideRead_congr (same old mem)]
  have step := blocks.flatMap_right fun lba => liveAt (ideRead disk' lba 1)
  rw [List.flatMap_cons, rest] at step
  exact step.trans (single.append_right _)

/-- One block of a directory gains an entry. -/
theorem liveEntries_gain (nodup : (dirBlocks disk inode).Nodup)
    (blocks : dirBlocks disk' inode' = dirBlocks disk inode) (mem : lba ∈ dirBlocks disk inode)
    (gains : (liveAt (ideRead disk' lba 1)).Perm (entry :: liveAt (ideRead disk lba 1)))
    (same : ∀ other ∈ dirBlocks disk inode, other ≠ lba → disk' other = disk other) :
    (liveEntries disk' inode').Perm (entry :: liveEntries disk inode) := by
  unfold liveEntries
  rw [blocks]
  apply flatMap_perm_cons nodup mem gains
  intro other isOther ne
  rw [ideRead_congr (same other isOther ne)]

/-! ### The invariant after an insertion -/

/-- Names and numbers stay different when a fresh entry is added. -/
theorem IsFresh.names (fresh : IsFresh part inode entry) (isDir : IsDirectory part inode)
    (gains : (liveEntries disk' inode').Perm (entry :: liveEntries part.disk inode)) :
    ((liveEntries disk' inode').map DirEntry.name).Nodup := by
  rw [(gains.map DirEntry.name).nodup_iff, List.map_cons, List.nodup_cons]
  refine ⟨fun mem => ?_, isDir.names⟩
  obtain ⟨other, isOther, sameName⟩ := List.mem_map.mp mem
  exact fresh.name other isOther sameName

theorem IsFresh.numbers (fresh : IsFresh part inode entry) (isDir : IsDirectory part inode)
    (gains : (liveEntries disk' inode').Perm (entry :: liveEntries part.disk inode)) :
    (((liveEntries disk' inode').filter DirEntry.isProper).map DirEntry.iNo).Nodup := by
  have step := (gains.filter DirEntry.isProper).map DirEntry.iNo
  rw [List.filter_cons_of_pos fresh.proper, List.map_cons] at step
  rw [step.nodup_iff, List.nodup_cons]
  refine ⟨fun mem => ?_, isDir.numbers⟩
  obtain ⟨other, isOther, sameNumber⟩ := List.mem_map.mp mem
  exact fresh.number other (List.mem_filter.mp isOther).1 sameNumber

theorem cleared_copy {buf : Buf} {idx : Nat} (cleared : Cleared buf) (isWritten : entry.IsWritten)
    (isLive : entry.fType ≠ .unknown) :
    Cleared (memcpy buf (idx * dirEntrySize) entry.bytes dirEntrySize) := by
  intro other inside isFree
  by_cases isIdx : other = idx
  · rw [isIdx, fTypeAt_copy isWritten] at isFree
    cases isType : entry.fType with
    | unknown => exact absurd isType isLive
    | regular => simp [isType, FileTypes.value] at isFree
    | directory => simp [isType, FileTypes.value] at isFree
  · have same := @sameSlot_memcpy buf entry.bytes idx other isIdx
    rw [same.dirEntryAt]
    rw [same.fTypeAt] at isFree
    exact cleared other inside isFree

theorem cleared_ideWrite {buf : Buf} (cleared : Cleared buf) (disk : Disk) (lba : Nat) :
    Cleared (ideRead (ideWrite disk lba buf 1) lba 1) := by
  intro idx inside isFree
  have same := sameSlot_ideWrite disk lba buf inside
  rw [same.dirEntryAt]
  rw [same.fTypeAt] at isFree
  exact cleared idx inside isFree

/-- A fresh entry has been added to a directory. -/
theorem IsDirectory.gain (isDir : IsDirectory part inode) (fresh : IsFresh part inode entry)
    (gains : (liveEntries part'.disk inode').Perm (entry :: liveEntries part.disk inode))
    (nodup : (ownBlocks part'.disk inode').Nodup)
    (inUse : ∀ lba ∈ ownBlocks part'.disk inode', part'.InUse lba)
    (cleared : ∀ lba ∈ dirBlocks part'.disk inode', Cleared (ideRead part'.disk lba 1))
    (size : inode'.iSize = inode.iSize + UInt32.ofNat dirEntrySize)
    (sameFirst : sectorOf inode' 0 = sectorOf inode 0)
    (origin : ∀ lba ∈ dirBlocks part'.disk inode', ∀ other ∈ liveAt (ideRead part'.disk lba 1),
      other = entry ∨ (lba ∈ dirBlocks part.disk inode ∧ other ∈ liveAt (ideRead part.disk lba 1)))
    (keeps : ∀ other ∈ liveAt (ideRead part.disk (sectorOf inode 0) 1),
      other ∈ liveAt (ideRead part'.disk (sectorOf inode 0) 1)) :
    IsDirectory part' inode' where
  nodup := nodup
  inUse := inUse
  cleared := cleared
  names := fresh.names isDir gains
  numbers := fresh.numbers isDir gains
  size := by
    rw [size, iSize_add isDir, gains.length_eq, List.length_cons]
  first := by
    rw [sameFirst]
    exact isDir.first
  self := by
    obtain ⟨self, mem, isDot⟩ := isDir.self
    rw [sameFirst]
    exact ⟨self, keeps self mem, isDot⟩
  up := by
    obtain ⟨up, mem, isDotDot⟩ := isDir.up
    rw [sameFirst]
    exact ⟨up, keeps up mem, isDotDot⟩
  dotsFirst := by
    intro lba mem notFirst other isOther
    rw [sameFirst] at notFirst
    rcases origin lba mem other isOther with rfl | ⟨oldBlock, oldEntry⟩
    · exact fresh.proper
    · exact isDir.dotsFirst lba oldBlock notFirst other oldEntry

/-! ### An entry in a block that is there -/

theorem sectorOf_mem_dirBlocks {idx : Nat} (inside : idx < 12) (ne : sectorOf inode idx ≠ 0) :
    sectorOf inode idx ∈ dirBlocks disk inode := by
  apply List.mem_filter.mpr
  refine ⟨?_, by simpa using ne⟩
  rw [allBlocks_eq]
  exact List.mem_append_left _ (List.mem_map.mpr ⟨idx, List.mem_range.mpr inside, rfl⟩)

theorem IsDirectory.blocks_nodup (isDir : IsDirectory part inode) :
    (dirBlocks part.disk inode).Nodup :=
  (List.nodup_append.mp isDir.nodup).2.1

/-- The table is none of the blocks that it lists. -/
theorem IsDirectory.table_ne (isDir : IsDirectory part inode) (mem : lba ∈ dirBlocks part.disk inode)
    (isTable : sectorOf inode 12 ≠ 0) : sectorOf inode 12 ≠ lba := by
  apply (List.nodup_append.mp isDir.nodup).2.2 (sectorOf inode 12)
  · rw [tableBlock, if_pos isTable]
    exact List.mem_singleton_self _
  · exact mem

theorem table_mem_ownBlocks (isTable : sectorOf inode 12 ≠ 0) :
    sectorOf inode 12 ∈ ownBlocks disk inode := by
  apply List.mem_append_left
  rw [tableBlock, if_pos isTable]
  exact List.mem_singleton_self _

theorem dirBlocks_congr (direct : directBlocks inode' = directBlocks inode)
    (sameSector : sectorOf inode' 12 = sectorOf inode 12)
    (sameTable : sectorOf inode 12 ≠ 0 → disk' (sectorOf inode 12) = disk (sectorOf inode 12)) :
    dirBlocks disk' inode' = dirBlocks disk inode := by
  unfold dirBlocks
  rw [allBlocks_eq, allBlocks_eq, direct, tableBlocks_congr sameSector sameTable]

/-- The volume after the bytes of an entry are put into a slot. -/
def Volume.putEntry (part : Volume) (lba idx : Nat) (entry : DirEntry) : Volume :=
  part.ideWrite lba
    (memcpy (ideRead part.disk lba 1) (idx * dirEntrySize) entry.bytes dirEntrySize)

/-- The inode with one entry more. -/
def addEntrySize (inode : Inode) : Inode :=
  { inode with iSize := inode.iSize + UInt32.ofNat dirEntrySize }

theorem value_ne_zero {fType : FileTypes} (isLive : fType ≠ .unknown) : fType.value ≠ 0 := by
  cases fType with
  | unknown => exact absurd rfl isLive
  | regular => decide
  | directory => decide

/-- The bytes of an entry are put into a free slot. -/
theorem liveAt_copy (isWritten : entry.IsWritten) (isLive : entry.fType ≠ .unknown) {buf : Buf}
    {idx : Nat} (inside : idx < dirEntrysPerSec) (isFree : fTypeAt buf idx = 0) :
    (liveAt (memcpy buf (idx * dirEntrySize) entry.bytes dirEntrySize)).Perm (entry :: liveAt buf) := by
  have inUse : fTypeAt (memcpy buf (idx * dirEntrySize) entry.bytes dirEntrySize) idx ≠ 0 := by
    rw [fTypeAt_copy isWritten]
    exact value_ne_zero isLive
  have gain := liveAt_gain inside isFree inUse fun other _ ne => sameSlot_memcpy ne
  rw [dirEntryAt_copy isWritten] at gain
  exact gain

/-- The slots of the sector after the write: one has the entry. -/
theorem liveAt_putEntry (fresh : IsFresh part inode entry) {idx : Nat}
    (inside : idx < dirEntrysPerSec) (isFree : fTypeAt (ideRead part.disk lba 1) idx = 0) :
    (liveAt (ideRead (part.putEntry lba idx entry).disk lba 1)).Perm
      (entry :: liveAt (ideRead part.disk lba 1)) := by
  have isRead : liveAt (ideRead (part.putEntry lba idx entry).disk lba 1) =
      liveAt (memcpy (ideRead part.disk lba 1) (idx * dirEntrySize) entry.bytes dirEntrySize) :=
    liveAt_ideWrite _ _ _
  rw [isRead]
  exact liveAt_copy fresh.isWritten fresh.isLive inside isFree

/-- An entry is put into a free slot of a direct block. -/
theorem IsDirectory.putEntry (isDir : IsDirectory part inode) (fresh : IsFresh part inode entry)
    {blockIdx idx : Nat} (direct : blockIdx < 12) (isBlock : sectorOf inode blockIdx ≠ 0)
    (inside : idx < dirEntrysPerSec)
    (isFree : fTypeAt (ideRead part.disk (sectorOf inode blockIdx) 1) idx = 0) :
    IsDirectory (part.putEntry (sectorOf inode blockIdx) idx entry) (addEntrySize inode) ∧
      (liveEntries (part.putEntry (sectorOf inode blockIdx) idx entry).disk
        (addEntrySize inode)).Perm (entry :: liveEntries part.disk inode) := by
  have mem : sectorOf inode blockIdx ∈ dirBlocks part.disk inode :=
    sectorOf_mem_dirBlocks direct isBlock
  have writes := Volume.writes_ideWrite part (sectorOf inode blockIdx)
    (memcpy (ideRead part.disk (sectorOf inode blockIdx) 1) (idx * dirEntrySize) entry.bytes
      dirEntrySize)
  have same : ∀ other ∈ ownBlocks part.disk inode, other ≠ sectorOf inode blockIdx →
      (part.putEntry (sectorOf inode blockIdx) idx entry).disk other = part.disk other := by
    intro other isOther ne
    exact writes.disk other (isDir.inUse other isOther).inData (by simpa using ne)
  have blocks : dirBlocks (part.putEntry (sectorOf inode blockIdx) idx entry).disk
      (addEntrySize inode) = dirBlocks part.disk inode :=
    dirBlocks_congr rfl rfl fun isTable =>
      same _ (table_mem_ownBlocks isTable) (isDir.table_ne mem isTable)
  have sameBlock : ∀ other ∈ dirBlocks part.disk inode, other ≠ sectorOf inode blockIdx →
      (part.putEntry (sectorOf inode blockIdx) idx entry).disk other = part.disk other :=
    fun other isOther => same other (List.mem_append_right _ isOther)
  have slots := liveAt_putEntry fresh inside isFree
  have gains := liveEntries_gain isDir.blocks_nodup blocks mem slots sameBlock
  have own : ownBlocks (part.putEntry (sectorOf inode blockIdx) idx entry).disk
      (addEntrySize inode) = ownBlocks part.disk inode := by
    unfold ownBlocks
    rw [blocks]
    rfl
  refine ⟨isDir.gain fresh gains ?_ ?_ ?_ rfl rfl ?_ ?_, gains⟩
  · rw [own]
    exact isDir.nodup
  · rw [own]
    exact fun lba isOwn => (isDir.inUse lba isOwn).of_sameBitmap writes rfl
  · rw [blocks]
    intro other isOther
    by_cases isLba : other = sectorOf inode blockIdx
    · rw [isLba]
      exact cleared_ideWrite (cleared_copy (isDir.cleared _ mem) fresh.isWritten fresh.isLive) _ _
    · rw [ideRead_congr (sameBlock other isOther isLba)]
      exact isDir.cleared other isOther
  · rw [blocks]
    intro other isOther live isLive
    by_cases isLba : other = sectorOf inode blockIdx
    · rw [isLba] at isLive ⊢
      rcases List.mem_cons.mp (slots.mem_iff.mp isLive) with isEntry | old
      · exact .inl isEntry
      · exact .inr ⟨mem, old⟩
    · rw [ideRead_congr (sameBlock other isOther isLba)] at isLive
      exact .inr ⟨isOther, isLive⟩
  · intro other isLive
    by_cases isLba : sectorOf inode 0 = sectorOf inode blockIdx
    · rw [isLba] at isLive ⊢
      exact slots.mem_iff.mpr (List.mem_cons_of_mem _ isLive)
    · rw [ideRead_congr (sameBlock _ (sectorOf_mem_dirBlocks (by decide) isDir.first) isLba)]
      exact isLive

/-! ### An entry in a new block -/

/-- What `sync_dir_entry` writes to a new block. -/
def newSector (entry : DirEntry) : Buf := memcpy (fun _ => 0) 0 entry.bytes dirEntrySize

theorem newSector_eq (entry : DirEntry) :
    newSector entry = memcpy (fun _ => 0) (0 * dirEntrySize) entry.bytes dirEntrySize := by
  rw [Nat.zero_mul]
  rfl

theorem liveAt_zero : liveAt (fun _ => 0) = [] := by decide +kernel

theorem cleared_zero : Cleared (fun _ => 0) := by
  intro idx _ _
  rfl

theorem liveAt_newSector (isWritten : entry.IsWritten) (isLive : entry.fType ≠ .unknown) :
    (liveAt (newSector entry)).Perm [entry] := by
  have gain := @liveAt_copy entry isWritten isLive (fun _ => 0) 0 (by decide) rfl
  rw [liveAt_zero, ← newSector_eq] at gain
  exact gain

/-- A block with the entry is added, and the others are as they were. -/
theorem IsDirectory.newBlock (isDir : IsDirectory part inode) (fresh : IsFresh part inode entry)
    (blocks : (dirBlocks part'.disk inode').Perm (lba :: dirBlocks part.disk inode))
    (same : ∀ old ∈ dirBlocks part.disk inode, part'.disk old = part.disk old) {before : Disk}
    (written : part'.disk = ideWrite before lba (newSector entry) 1)
    (nodup : (ownBlocks part'.disk inode').Nodup)
    (inUse : ∀ lba ∈ ownBlocks part'.disk inode', part'.InUse lba)
    (size : inode'.iSize = inode.iSize + UInt32.ofNat dirEntrySize)
    (sameFirst : sectorOf inode' 0 = sectorOf inode 0) :
    IsDirectory part' inode' ∧
      (liveEntries part'.disk inode').Perm (entry :: liveEntries part.disk inode) := by
  have single : (liveAt (ideRead part'.disk lba 1)).Perm [entry] := by
    rw [written, liveAt_ideWrite]
    exact liveAt_newSector fresh.isWritten fresh.isLive
  have gains := liveEntries_newBlock blocks same single
  refine ⟨isDir.gain fresh gains nodup inUse ?_ size sameFirst ?_ ?_, gains⟩
  · intro block isBlock
    rcases List.mem_cons.mp (blocks.mem_iff.mp isBlock) with rfl | old
    · rw [written]
      apply cleared_ideWrite
      rw [newSector_eq]
      exact cleared_copy cleared_zero fresh.isWritten fresh.isLive
    · rw [ideRead_congr (same block old)]
      exact isDir.cleared block old
  · intro block isBlock other isLive
    rcases List.mem_cons.mp (blocks.mem_iff.mp isBlock) with rfl | old
    · exact .inl (List.mem_singleton.mp (single.mem_iff.mp isLive))
    · rw [ideRead_congr (same block old)] at isLive
      exact .inr ⟨old, isLive⟩
  · intro other isLive
    rw [ideRead_congr (same _ (sectorOf_mem_dirBlocks (by decide) isDir.first))]
    exact isLive

/-- A block that was free is none of the directory's. -/
theorem IsDirectory.notMem_of_allocated (isDir : IsDirectory part inode)
    (allocated : part.Allocated part' lba) : lba ∉ ownBlocks part.disk inode :=
  fun mem => allocated.wasFree (isDir.inUse lba mem)

theorem allBlocks_setSector {idx : Nat} (direct : idx < 12) (small : lba < 2 ^ 32)
    (sameTable : sectorOf inode 12 ≠ 0 → disk' (sectorOf inode 12) = disk (sectorOf inode 12)) :
    allBlocks disk' (searchInode (setSector inode idx lba)) =
      (allBlocks disk (searchInode inode)).set idx lba := by
  have sameSector : sectorOf (setSector inode idx lba) 12 = sectorOf inode 12 := by
    rw [sectorOf_setSector inode (by omega) (by decide) small, if_neg (by omega)]
  have isDirect : idx < (directBlocks inode).length := by simpa [directBlocks] using direct
  rw [allBlocks_eq, allBlocks_eq, directBlocks_setSector inode direct small,
    tableBlocks_congr sameSector sameTable, List.set_append_left _ _ isDirect]

theorem allBlocks_getElem? {idx : Nat} (direct : idx < 12) :
    (allBlocks disk (searchInode inode))[idx]? = some (sectorOf inode idx) := by
  have isDirect : idx < (directBlocks inode).length := by simpa [directBlocks] using direct
  rw [allBlocks_eq, List.getElem?_append_left isDirect]
  simp [directBlocks, direct]

/-- A direct block is added. -/
theorem IsDirectory.newDirect (isDir : IsDirectory part inode) (fresh : IsFresh part inode entry)
    (wellFormed : part.WellFormed) (allocated : part.Allocated part' lba) {blockIdx : Nat}
    (direct : blockIdx < 12) (notFirst : sectorOf inode blockIdx = 0) :
    IsDirectory (part'.ideWrite lba (newSector entry)) (addEntrySize (setSector inode blockIdx lba)) ∧
      (liveEntries (part'.ideWrite lba (newSector entry)).disk
        (addEntrySize (setSector inode blockIdx lba))).Perm (entry :: liveEntries part.disk inode) := by
  have wellFormed' := allocated.writes.wellFormed wellFormed
  have small := allocated.inUse.lt wellFormed'
  have notZero := allocated.inUse.pos wellFormed'
  have notOwn := isDir.notMem_of_allocated allocated
  have writes := allocated.writes.trans (Volume.writes_ideWrite part' lba (newSector entry))
  have same : ∀ old ∈ ownBlocks part.disk inode,
      (part'.ideWrite lba (newSector entry)).disk old = part.disk old := by
    intro old isOld
    apply writes.disk old (isDir.inUse old isOld).inData
    simp only [List.nil_append, List.mem_singleton]
    exact fun isLba => notOwn (isLba ▸ isOld)
  have sameTable : sectorOf inode 12 ≠ 0 →
      (part'.ideWrite lba (newSector entry)).disk (sectorOf inode 12) =
        part.disk (sectorOf inode 12) :=
    fun isTable => same _ (table_mem_ownBlocks isTable)
  have sameSector : ∀ other < 13, other ≠ blockIdx →
      sectorOf (addEntrySize (setSector inode blockIdx lba)) other = sectorOf inode other := by
    intro other inside ne
    show sectorOf (setSector inode blockIdx lba) other = _
    rw [sectorOf_setSector inode (by omega) inside small, if_neg ne]
  have blocks : (dirBlocks (part'.ideWrite lba (newSector entry)).disk
      (addEntrySize (setSector inode blockIdx lba))).Perm (lba :: dirBlocks part.disk inode) := by
    have isSet : allBlocks (part'.ideWrite lba (newSector entry)).disk
        (searchInode (addEntrySize (setSector inode blockIdx lba))) =
        (allBlocks part.disk (searchInode inode)).set blockIdx lba :=
      allBlocks_setSector direct small sameTable
    unfold dirBlocks
    rw [isSet]
    exact set_filter_perm_cons (allBlocks_getElem? direct) (by simp [notFirst]) (by simp [notZero])
  have own : (ownBlocks (part'.ideWrite lba (newSector entry)).disk
      (addEntrySize (setSector inode blockIdx lba))).Perm (lba :: ownBlocks part.disk inode) := by
    have table : tableBlock (addEntrySize (setSector inode blockIdx lba)) = tableBlock inode := by
      unfold tableBlock
      rw [sameSector 12 (by decide) (by omega)]
    unfold ownBlocks
    rw [table]
    exact (blocks.append_left _).trans List.perm_middle
  have isFirst : blockIdx ≠ 0 := by
    intro isZero
    rw [isZero] at notFirst
    exact isDir.first notFirst
  apply isDir.newBlock fresh blocks (fun old isOld => same old (List.mem_append_right _ isOld)) rfl
  · rw [own.nodup_iff]
    exact List.nodup_cons.mpr ⟨notOwn, isDir.nodup⟩
  · intro block isOwn
    have inUse : part'.InUse block := by
      rcases List.mem_cons.mp (own.mem_iff.mp isOwn) with rfl | old
      · exact allocated.inUse
      · exact allocated.others block (isDir.inUse block old)
    exact inUse.of_sameBitmap (Volume.writes_ideWrite part' lba (newSector entry)) rfl
  · rfl
  · exact sameSector 0 (by decide) (Ne.symm isFirst)

/-! ### An entry in a new block of a new table -/

/-- The table and the block are written. -/
def Volume.putTable (part : Volume) (tableLba lba : Nat) (direct : List Nat) (entry : DirEntry) :
    Volume :=
  (part.ideWrite tableLba (tableBuf ((direct ++ List.replicate 128 0).set 12 lba))).ideWrite lba
    (newSector entry)

/-- The table has the new block, and nothing else. -/
theorem word_tableBuf {direct : List Nat} (length : direct.length = 12) (small : lba < 2 ^ 32)
    (idx : Nat) :
    word (tableBuf ((direct ++ List.replicate 128 0).set 12 lba)) (4 * idx) =
      if idx = 0 then lba else 0 := by
  have isWord : ((direct ++ List.replicate 128 0).set 12 lba).getD (12 + idx) 0 =
      if idx = 0 then lba else 0 := by
    by_cases isZero : idx = 0
    · rw [if_pos isZero, isZero, List.getD_eq_getElem?_getD, List.getElem?_set_self (by simp [length])]
      rfl
    · rw [if_neg isZero, List.getD_eq_getElem?_getD, List.getElem?_set_ne (by omega),
        List.getElem?_append_right (by omega), List.getElem?_replicate]
      split <;> rfl
  have smallWord : ((direct ++ List.replicate 128 0).set 12 lba).getD (12 + idx) 0 < 2 ^ 32 := by
    rw [isWord]
    split
    · exact small
    · decide
  rw [← isWord]
  exact word_wordsBuf smallWord

theorem filter_table (lba : Nat) (ne : lba ≠ 0) :
    ((List.range 128).map fun idx => if idx = 0 then lba else 0).filter (· ≠ 0) = [lba] := by
  have rest : ((List.range 127).map ((fun idx => if idx = 0 then lba else 0) ∘ Nat.succ)).filter
      (fun value => decide (value ≠ 0)) = [] := by
    rw [List.filter_eq_nil_iff]
    intro value mem
    obtain ⟨idx, _, rfl⟩ := List.mem_map.mp mem
    simp
  rw [List.range_succ_eq_map, List.map_cons, List.map_map, List.filter_cons_of_pos (by simp [ne]), rest]
  rfl

/-- After the table is written the directory has its direct blocks and the new one. -/
theorem dirBlocks_putTable {tableLba : Nat} (tableSmall : tableLba < 2 ^ 32) (tableNe : tableLba ≠ 0)
    (small : lba < 2 ^ 32) (ne : lba ≠ 0) (apart : tableLba ≠ lba) :
    dirBlocks (part'.putTable tableLba lba (directBlocks inode) entry).disk
        (addEntrySize (setSector inode 12 tableLba)) =
      (directBlocks inode).filter (· ≠ 0) ++ [lba] := by
  have isSector : sectorOf (addEntrySize (setSector inode 12 tableLba)) 12 = tableLba := by
    show sectorOf (setSector inode 12 tableLba) 12 = _
    rw [sectorOf_setSector inode (by decide) (by decide) tableSmall, if_pos rfl]
  have isDirect : directBlocks (addEntrySize (setSector inode 12 tableLba)) = directBlocks inode :=
    directBlocks_setTable inode tableSmall
  have isTable : tableBlocks (part'.putTable tableLba lba (directBlocks inode) entry).disk
      (addEntrySize (setSector inode 12 tableLba)) =
      (List.range 128).map fun idx => if idx = 0 then lba else 0 := by
    unfold tableBlocks
    rw [isSector, if_pos tableNe]
    apply List.map_congr_left
    intro idx mem
    have inside : idx < 128 := List.mem_range.mp mem
    rw [← word_tableBuf (show (directBlocks inode).length = 12 by simp [directBlocks]) small idx]
    apply InodeTable.word_congr
    intro k smallByte
    have fits : 4 * idx + k < sectorSize := by
      simp only [sectorSize]
      omega
    rw [ideRead_apply _ _ fits]
    show ideWrite _ lba _ 1 tableLba _ = _
    rw [ideWrite_other _ _ (by omega)]
    exact ideWrite_self _ _ _ fits
  unfold dirBlocks
  rw [allBlocks_eq, isDirect, isTable, List.filter_append, filter_table lba ne]

/-- Without a table the blocks are the direct ones. -/
theorem dirBlocks_direct (noTable : sectorOf inode 12 = 0) :
    dirBlocks disk inode = (directBlocks inode).filter (· ≠ 0) := by
  unfold dirBlocks
  rw [allBlocks_eq, tableBlocks, if_neg (by simpa using noTable), List.filter_append,
    List.filter_replicate]
  simp

/-- A table is added, with a first block. -/
theorem IsDirectory.newTable (isDir : IsDirectory part inode) (fresh : IsFresh part inode entry)
    (wellFormed : part.WellFormed) {tableLba : Nat} {part₁ part₂ : Volume}
    (allocated₁ : part.Allocated part₁ tableLba) (allocated₂ : part₁.Allocated part₂ lba)
    (noTable : sectorOf inode 12 = 0) :
    IsDirectory (part₂.putTable tableLba lba (directBlocks inode) entry)
        (addEntrySize (setSector inode 12 tableLba)) ∧
      (liveEntries (part₂.putTable tableLba lba (directBlocks inode) entry).disk
        (addEntrySize (setSector inode 12 tableLba))).Perm (entry :: liveEntries part.disk inode) := by
  have wellFormed₁ := allocated₁.writes.wellFormed wellFormed
  have wellFormed₂ := allocated₂.writes.wellFormed wellFormed₁
  have tableSmall := allocated₁.inUse.lt wellFormed₁
  have tableNe := allocated₁.inUse.pos wellFormed₁
  have small := allocated₂.inUse.lt wellFormed₂
  have ne := allocated₂.inUse.pos wellFormed₂
  have apart : tableLba ≠ lba := fun isSame => allocated₂.wasFree (isSame ▸ allocated₁.inUse)
  have tableNotOwn := isDir.notMem_of_allocated allocated₁
  have notOwn : lba ∉ ownBlocks part.disk inode := fun mem =>
    allocated₂.wasFree (allocated₁.others lba (isDir.inUse lba mem))
  have putWrites : part₂.Writes (part₂.putTable tableLba lba (directBlocks inode) entry)
      ([tableLba] ++ [lba]) :=
    (Volume.writes_ideWrite part₂ tableLba _).trans (Volume.writes_ideWrite _ lba _)
  have writes := (allocated₁.writes.trans allocated₂.writes).trans putWrites
  have same : ∀ old ∈ dirBlocks part.disk inode,
      (part₂.putTable tableLba lba (directBlocks inode) entry).disk old = part.disk old := by
    intro old isOld
    have isOwn : old ∈ ownBlocks part.disk inode := List.mem_append_right _ isOld
    apply writes.disk old (isDir.inUse old isOwn).inData
    simp only [List.nil_append, List.mem_append, List.mem_singleton, not_or]
    exact ⟨fun isTable => tableNotOwn (isTable ▸ isOwn), fun isLba => notOwn (isLba ▸ isOwn)⟩
  have blocks : (dirBlocks (part₂.putTable tableLba lba (directBlocks inode) entry).disk
      (addEntrySize (setSector inode 12 tableLba))).Perm (lba :: dirBlocks part.disk inode) := by
    rw [dirBlocks_putTable tableSmall tableNe small ne apart, dirBlocks_direct noTable]
    exact List.perm_append_singleton _ _
  have own : (ownBlocks (part₂.putTable tableLba lba (directBlocks inode) entry).disk
      (addEntrySize (setSector inode 12 tableLba))).Perm
        (tableLba :: lba :: ownBlocks part.disk inode) := by
    have isSector : sectorOf (addEntrySize (setSector inode 12 tableLba)) 12 = tableLba := by
      show sectorOf (setSector inode 12 tableLba) 12 = _
      rw [sectorOf_setSector inode (by decide) (by decide) tableSmall, if_pos rfl]
    have table : tableBlock (addEntrySize (setSector inode 12 tableLba)) = [tableLba] := by
      rw [tableBlock, isSector, if_pos tableNe]
    have old : tableBlock inode = [] := by rw [tableBlock, if_neg (by simpa using noTable)]
    unfold ownBlocks
    rw [table, old]
    exact blocks.cons tableLba
  apply isDir.newBlock fresh blocks same rfl
  · rw [own.nodup_iff, List.nodup_cons, List.nodup_cons, List.mem_cons, not_or]
    exact ⟨⟨apart, tableNotOwn⟩, notOwn, isDir.nodup⟩
  · intro block isOwn
    have inUse : part₂.InUse block := by
      rcases List.mem_cons.mp (own.mem_iff.mp isOwn) with rfl | isOwn
      · exact allocated₂.others _ allocated₁.inUse
      · rcases List.mem_cons.mp isOwn with rfl | old
        · exact allocated₂.inUse
        · exact allocated₂.others block (allocated₁.others block (isDir.inUse block old))
    exact inUse.of_sameBitmap putWrites rfl
  · rfl
  · show sectorOf (setSector inode 12 tableLba) 0 = _
    rw [sectorOf_setSector inode (by decide) (by decide) tableSmall, if_neg (by decide)]

/-! ### `sync_dir_entry` -/

/-- A block that has no free slot. -/
def IsFull (disk : Disk) (lba : Nat) : Prop :=
  lba ≠ 0 ∧ ∀ idx < dirEntrysPerSec, fTypeAt (ideRead disk lba 1) idx ≠ 0

/-- What the loop does at the block where it stops. -/
inductive SyncsAt (part : Volume) (inode : Inode) (entry : DirEntry) (blocks : List Nat)
    (blockIdx : Nat) (result : Option (Volume × Inode × Bool)) : Prop where
  | slot {idx : Nat} (isBlock : blocks.getD blockIdx 0 ≠ 0) (inside : idx < dirEntrysPerSec)
      (isFree : fTypeAt (ideRead part.disk (blocks.getD blockIdx 0) 1) idx = 0)
      (isResult : result =
        some (part.putEntry (blocks.getD blockIdx 0) idx entry, addEntrySize inode, true))
  | block (notBlock : blocks.getD blockIdx 0 = 0)
      (isResult : result = (addBlock part inode blocks blockIdx).bind fun added =>
        match added.2.2 with
        | none => some (added.1, added.2.1, false)
        | some lba => some (added.1.ideWrite lba (newSector entry), addEntrySize added.2.1, true))

/-- The loop stops at the first block that is missing or has a free slot. -/
theorem syncLoop_stops (part : Volume) (inode : Inode) (entry : DirEntry) (blocks : List Nat)
    {count start : Nat}
    (stops : ∃ blockIdx, start ≤ blockIdx ∧ blockIdx < start + count ∧ blocks.getD blockIdx 0 = 0) :
    ∃ blockIdx, start ≤ blockIdx ∧
      (∀ earlier, start ≤ earlier → earlier < blockIdx → IsFull part.disk (blocks.getD earlier 0)) ∧
      SyncsAt part inode entry blocks blockIdx
        (syncLoop part inode entry blocks (List.range' start count)) := by
  induction count generalizing start with
  | zero =>
      obtain ⟨blockIdx, low, high, _⟩ := stops
      omega
  | succ count inductionHypothesis =>
      rw [List.range'_succ]
      unfold syncLoop
      by_cases notBlock : blocks.getD start 0 = 0
      · refine ⟨start, Nat.le_refl _, fun earlier low high => by omega, .block notBlock ?_⟩
        rw [if_pos notBlock]
        rfl
      · simp only [if_neg notBlock]
        cases isFound : (List.range dirEntrysPerSec).find? fun idx =>
            decide (fTypeAt (ideRead part.disk (blocks.getD start 0) 1) idx = 0) with
        | some idx =>
            have inside : idx < dirEntrysPerSec :=
              List.mem_range.mp (List.mem_of_find?_eq_some isFound)
            have isFree : fTypeAt (ideRead part.disk (blocks.getD start 0) 1) idx = 0 := by
              simpa using List.find?_some isFound
            exact ⟨start, Nat.le_refl _, fun earlier low high => by omega,
              .slot notBlock inside isFree rfl⟩
        | none =>
            have isFull : IsFull part.disk (blocks.getD start 0) := by
              refine ⟨notBlock, fun idx inside => ?_⟩
              simpa using List.find?_eq_none.mp isFound idx (List.mem_range.mpr inside)
            have stops' : ∃ blockIdx, start + 1 ≤ blockIdx ∧ blockIdx < start + 1 + count ∧
                blocks.getD blockIdx 0 = 0 := by
              obtain ⟨blockIdx, low, high, isZero⟩ := stops
              have ne : blockIdx ≠ start := fun isStart => notBlock (isStart ▸ isZero)
              exact ⟨blockIdx, by omega, by omega, isZero⟩
            obtain ⟨blockIdx, low, full, syncs⟩ := inductionHypothesis stops'
            refine ⟨blockIdx, by omega, fun earlier least high => ?_, syncs⟩
            by_cases isStart : earlier = start
            · rw [isStart]
              exact isFull
            · exact full earlier (by omega) high

/-- The blocks that `sync_dir_entry` looks at. -/
theorem syncBlocks_getD (inode : Inode) {blockIdx : Nat} (inside : blockIdx < 12) :
    (directBlocks inode ++ List.replicate 128 0).getD blockIdx 0 = sectorOf inode blockIdx := by
  have isDirect : blockIdx < (directBlocks inode).length := by simpa [directBlocks] using inside
  rw [List.getD_eq_getElem?_getD, List.getElem?_append_left isDirect]
  simp [directBlocks, inside]

theorem syncBlocks_twelve (inode : Inode) :
    (directBlocks inode ++ List.replicate 128 0).getD 12 0 = 0 := by
  rw [List.getD_eq_getElem?_getD, List.getElem?_append_right (by simp [directBlocks])]
  simp [directBlocks]

/-- The bitmap has two clear bits, as many as an insertion needs. -/
def Volume.HasTwoClear (part : Volume) : Prop :=
  ∃ bit bit', bit ≠ bit' ∧ bit < 8 * part.blockBitmap.btmpBytesLen ∧
    bit' < 8 * part.blockBitmap.btmpBytesLen ∧ bitmapScanTest part.blockBitmap bit = false ∧
    bitmapScanTest part.blockBitmap bit' = false

theorem exists_firstClear {btmp : Bitmap} {bit : Nat} (inside : bit < 8 * btmp.btmpBytesLen)
    (isClear : bitmapScanTest btmp bit = false) : ∃ first, firstClear btmp = some first := by
  cases found : firstClear btmp with
  | none =>
      rw [firstClear_none.mp found bit inside] at isClear
      cases isClear
  | some first => exact ⟨first, rfl⟩

/-- Two allocations, one after the other. -/
theorem Volume.HasTwoClear.alloc (twoClear : part.HasTwoClear) (wellFormed : part.WellFormed) :
    ∃ bit bit', firstClear part.blockBitmap = some bit ∧
      firstClear ((part.setBlockBit bit true).bitmapSync bit .block).blockBitmap = some bit' ∧
      part.Allocated ((part.setBlockBit bit true).bitmapSync bit .block) (part.dataStartLba + bit) := by
  obtain ⟨first, second, apart, firstInside, secondInside, firstIsClear, secondIsClear⟩ := twoClear
  obtain ⟨bit, isBit⟩ := exists_firstClear firstInside firstIsClear
  have bits : ∀ i, bitmapScanTest ((part.setBlockBit bit true).bitmapSync bit .block).blockBitmap i =
      if i = bit then true else bitmapScanTest part.blockBitmap i :=
    fun i => bitmapScanTest_bitmapSet part.blockBitmap bit i true
  obtain ⟨bit', isBit'⟩ : ∃ bit',
      firstClear ((part.setBlockBit bit true).bitmapSync bit .block).blockBitmap = some bit' := by
    by_cases isFirst : first = bit
    · refine @exists_firstClear _ second secondInside ?_
      rw [bits, if_neg (fun isSecond => apart (isFirst.trans isSecond.symm)), secondIsClear]
    · refine @exists_firstClear _ first firstInside ?_
      rw [bits, if_neg isFirst, firstIsClear]
  exact ⟨bit, bit', isBit, isBit', Volume.allocated_of_firstClear wellFormed isBit⟩

/-- The bit of a block that is just allocated. -/
theorem allocated_bit (part : Volume) (bit : Nat) :
    part.dataStartLba + bit - (part.setBlockBit bit true).dataStartLba = bit :=
  Nat.add_sub_cancel_left part.dataStartLba bit

theorem addBlock_direct {bit blockIdx : Nat} (isBit : firstClear part.blockBitmap = some bit)
    (direct : blockIdx < 12) (inode : Inode) (blocks : List Nat) :
    addBlock part inode blocks blockIdx =
      some ((part.setBlockBit bit true).bitmapSync bit .block,
        setSector inode blockIdx (part.dataStartLba + bit), some (part.dataStartLba + bit)) := by
  unfold addBlock
  rw [Volume.blockBitmapAlloc_eq, isBit]
  simp only [Option.map_some, Option.bind_eq_bind, Option.bind_some, if_pos direct, allocated_bit]
  rfl

theorem addBlock_table {bit bit' : Nat} {part₁ : Volume}
    (isBit : firstClear part.blockBitmap = some bit)
    (isPart₁ : part₁ = (part.setBlockBit bit true).bitmapSync bit .block)
    (isBit' : firstClear part₁.blockBitmap = some bit') (small : part.dataStartLba + bit < 2 ^ 32)
    (inode : Inode) (blocks : List Nat) :
    addBlock part inode blocks 12 =
      some (((part₁.setBlockBit bit' true).bitmapSync bit' .block).ideWrite (part.dataStartLba + bit)
          (tableBuf (blocks.set 12 (part₁.dataStartLba + bit'))),
        setSector inode 12 (part.dataStartLba + bit), some (part₁.dataStartLba + bit')) := by
  have isTable : sectorOf (setSector inode 12 (part.dataStartLba + bit)) 12 =
      part.dataStartLba + bit := by
    rw [sectorOf_setSector inode (by decide) (by decide) small, if_pos rfl]
  unfold addBlock
  rw [Volume.blockBitmapAlloc_eq, isBit]
  simp only [Option.map_some, Option.bind_eq_bind, Option.bind_some, allocated_bit, isTable,
    ← isPart₁]
  rw [Volume.blockBitmapAlloc_eq, isBit', if_neg (by decide)]
  simp only [Option.map_some, Option.bind_some, allocated_bit, if_true]
  rfl

theorem addBlock_none (isFull : firstClear part.blockBitmap = none) (inode : Inode)
    (blocks : List Nat) (blockIdx : Nat) : addBlock part inode blocks blockIdx = none := by
  unfold addBlock
  rw [Volume.blockBitmapAlloc_eq, isFull]
  rfl

theorem addBlock_table_none {bit : Nat} {part₁ : Volume}
    (isBit : firstClear part.blockBitmap = some bit)
    (isPart₁ : part₁ = (part.setBlockBit bit true).bitmapSync bit .block)
    (isFull : firstClear part₁.blockBitmap = none) (inode : Inode) (blocks : List Nat) :
    addBlock part inode blocks 12 = none := by
  unfold addBlock
  rw [Volume.blockBitmapAlloc_eq, isBit]
  simp only [Option.map_some, Option.bind_eq_bind, Option.bind_some, allocated_bit, ← isPart₁]
  rw [Volume.blockBitmapAlloc_eq, isFull, if_neg (by decide)]
  rfl

/-- What an insertion has done. -/
inductive Inserted (part : Volume) (inode : Inode) (entry : DirEntry) (part' : Volume)
    (inode' : Inode) : Prop where
  | slot {blockIdx idx : Nat} (direct : blockIdx < 12) (isBlock : sectorOf inode blockIdx ≠ 0)
      (inside : idx < dirEntrysPerSec)
      (isFree : fTypeAt (ideRead part.disk (sectorOf inode blockIdx) 1) idx = 0)
      (isPart : part' = part.putEntry (sectorOf inode blockIdx) idx entry)
      (isInode : inode' = addEntrySize inode)
  | direct {blockIdx lba : Nat} {part₁ : Volume} (direct : blockIdx < 12)
      (notBlock : sectorOf inode blockIdx = 0) (allocated : part.Allocated part₁ lba)
      (isPart : part' = part₁.ideWrite lba (newSector entry))
      (isInode : inode' = addEntrySize (setSector inode blockIdx lba))
  | table {tableLba lba : Nat} {part₁ part₂ : Volume}
      (full : ∀ blockIdx < 12, IsFull part.disk (sectorOf inode blockIdx))
      (allocated₁ : part.Allocated part₁ tableLba) (allocated₂ : part₁.Allocated part₂ lba)
      (isPart : part' = part₂.putTable tableLba lba (directBlocks inode) entry)
      (isInode : inode' = addEntrySize (setSector inode 12 tableLba))

theorem IsDirectory.aligned (isDir : IsDirectory part inode) :
    inode.iSize.toNat % dirEntrySize = 0 := by
  rw [isDir.size]
  exact Nat.mul_mod_right _ _

/-- `sync_dir_entry` succeeds, unless no block is free. -/
theorem syncDirEntry_inserts (aligned : inode.iSize.toNat % dirEntrySize = 0) (wellFormed : part.WellFormed)
    (entry : DirEntry) :
    (syncDirEntry part inode entry = none ∧ ¬ part.HasTwoClear) ∨
      ∃ part' inode', syncDirEntry part inode entry = some (part', inode', true) ∧
        Inserted part inode entry part' inode' := by
  obtain ⟨blockIdx, _, full, syncs⟩ := @syncLoop_stops part inode entry
    (directBlocks inode ++ List.replicate 128 0) 140 0 ⟨12, by decide, by decide, syncBlocks_twelve inode⟩
  have atMost : blockIdx ≤ 12 := by
    by_contra beyond
    exact (full 12 (by omega) (by omega)).1 (syncBlocks_twelve inode)
  have isLoop : syncDirEntry part inode entry = syncLoop part inode entry
      (directBlocks inode ++ List.replicate 128 0) (List.range' 0 140) := by
    rw [syncDirEntry, if_pos aligned, List.range_eq_range']
  rw [isLoop]
  cases syncs with
  | slot isBlock inside isFree isResult =>
      have direct : blockIdx < 12 := by
        by_contra beyond
        obtain rfl : blockIdx = 12 := by omega
        exact isBlock (syncBlocks_twelve inode)
      rw [syncBlocks_getD inode direct] at isBlock isFree isResult
      exact .inr ⟨_, _, isResult, .slot direct isBlock inside isFree rfl rfl⟩
  | block notBlock isResult =>
      rw [isResult]
      cases isBit : firstClear part.blockBitmap with
      | none =>
          refine .inl ⟨by rw [addBlock_none isBit]; rfl, fun twoClear => ?_⟩
          obtain ⟨bit, _, isSome, _⟩ := twoClear.alloc wellFormed
          rw [isBit] at isSome
          cases isSome
      | some bit =>
          have allocated := Volume.allocated_of_firstClear wellFormed isBit
          by_cases direct : blockIdx < 12
          · rw [syncBlocks_getD inode direct] at notBlock
            refine .inr ⟨_, _, ?_, .direct direct notBlock allocated rfl rfl⟩
            rw [addBlock_direct isBit direct]
            rfl
          · obtain rfl : blockIdx = 12 := by omega
            have wellFormed₁ := allocated.writes.wellFormed wellFormed
            cases isBit' : firstClear
                ((part.setBlockBit bit true).bitmapSync bit .block).blockBitmap with
            | none =>
                refine .inl ⟨by rw [addBlock_table_none isBit rfl isBit']; rfl, fun twoClear => ?_⟩
                obtain ⟨first, _, isFirst, isSome, _⟩ := twoClear.alloc wellFormed
                rw [isBit] at isFirst
                cases isFirst
                rw [isBit'] at isSome
                cases isSome
            | some bit' =>
                have allocated₂ := Volume.allocated_of_firstClear wellFormed₁ isBit'
                refine .inr ⟨_, _, ?_, .table (fun k inside => ?_) allocated allocated₂ rfl rfl⟩
                · rw [addBlock_table isBit rfl isBit' (allocated.inUse.lt wellFormed₁)]
                  rfl
                · have isFull := full k (by omega) inside
                  rw [syncBlocks_getD inode inside] at isFull
                  exact isFull

theorem Inserted.of_syncDirEntry (wellFormed : part.WellFormed) {done : Bool}
    (isInserted : syncDirEntry part inode entry = some (part', inode', done)) :
    Inserted part inode entry part' inode' := by
  have aligned : inode.iSize.toNat % dirEntrySize = 0 := by
    by_contra notAligned
    rw [syncDirEntry, if_neg notAligned] at isInserted
    cases isInserted
  rcases syncDirEntry_inserts aligned wellFormed entry with ⟨isNone, _⟩ | ⟨_, _, isSome, inserted⟩
  · rw [isNone] at isInserted
    cases isInserted
  · rw [isSome] at isInserted
    cases isInserted
    exact inserted

/-- Room in the direct blocks, or no table: the condition of an insertion. -/
def HasRoom (part : Volume) (inode : Inode) : Prop :=
  (∃ blockIdx < 12, ¬ IsFull part.disk (sectorOf inode blockIdx)) ∨ sectorOf inode 12 = 0

/-- With room, an insertion keeps the directory and adds the entry. -/
theorem Inserted.spec (inserted : Inserted part inode entry part' inode')
    (isDir : IsDirectory part inode) (wellFormed : part.WellFormed)
    (fresh : IsFresh part inode entry) (room : HasRoom part inode) :
    IsDirectory part' inode' ∧
      (liveEntries part'.disk inode').Perm (entry :: liveEntries part.disk inode) := by
  cases inserted with
  | slot direct isBlock inside isFree isPart isInode =>
      rw [isPart, isInode]
      exact isDir.putEntry fresh direct isBlock inside isFree
  | direct direct notBlock allocated isPart isInode =>
      rw [isPart, isInode]
      exact isDir.newDirect fresh wellFormed allocated direct notBlock
  | table full allocated₁ allocated₂ isPart isInode =>
      have noTable : sectorOf inode 12 = 0 := by
        rcases room with ⟨blockIdx, inside, notFull⟩ | noTable
        · exact absurd (full blockIdx inside) notFull
        · exact noTable
      rw [isPart, isInode]
      exact isDir.newTable fresh wellFormed allocated₁ allocated₂ noTable

theorem Inserted.wellFormed (inserted : Inserted part inode entry part' inode')
    (wellFormed : part.WellFormed) : part'.WellFormed := by
  cases inserted with
  | slot _ _ _ _ isPart _ =>
      rw [isPart]
      exact (Volume.writes_ideWrite _ _ _).wellFormed wellFormed
  | direct _ _ allocated isPart _ =>
      rw [isPart]
      exact (Volume.writes_ideWrite _ _ _).wellFormed (allocated.writes.wellFormed wellFormed)
  | table _ allocated₁ allocated₂ isPart _ =>
      rw [isPart]
      apply (Volume.writes_ideWrite _ _ _).wellFormed
      apply (Volume.writes_ideWrite _ _ _).wellFormed
      exact allocated₂.writes.wellFormed (allocated₁.writes.wellFormed wellFormed)

end ZyOs.Fs
