import ZyOs.Fs.DirectoryDelete

/-!
Contract: the records of the inode table, and what a write to the volume leaves as it was.

Owns:
- `recordAt`, the inode in a slot of the table;
- `Volume.Keeps`: the regions of the volume, and but for those that are listed the
  records and the sectors of the data area;
- what each write of a directory, an inode or a bitmap keeps.
-/

namespace ZyOs.Fs

open ZyOs.Kernel
open InodeTable (Inode byteAt slotAddr Patched pureInode)

variable {part part' part'' : Volume} {inode inode' : Inode} {lba bit n : Nat} {slots slots' lbas lbas' : List Nat}

/-! ### Records -/

/-- The inode in slot `n` of the inode table. -/
def recordAt (disk : Disk) (inodeTableLba n : Nat) : Inode :=
  Inode.ofBytes (fun k => byteAt disk (slotAddr inodeTableLba n + k)) 0

def Volume.record (part : Volume) (n : Nat) : Inode := recordAt part.disk part.inodeTableLba n

theorem readInode_eq (inTable : n < 4096) : part.readInode n = some (part.record n) := by
  obtain ⟨pos, located, addr, inside, _⟩ := @InodeTable.inodeLocate_spec part.inodeTableLba n inTable
  unfold Volume.readInode
  rw [located]
  apply congrArg some
  apply InodeTable.ofBytes_congr
  intro k small
  rw [InodeTable.ideRead_byteAt _ _ (by omega), Nat.zero_add, ← addr, Nat.add_assoc]

theorem word_lt (buf : Buf) (off : Nat) : word buf off < 2 ^ 32 := by
  unfold word
  have byte : ∀ i, (buf i).toNat < 256 := fun i => (buf i).toNat_lt
  have first := byte off
  have second := byte (off + 1)
  have third := byte (off + 2)
  have fourth := byte (off + 3)
  omega

/-- A search reads the record. -/
theorem inodeRead_eq (inTable : n < 4096) :
    ∃ inode, inodeRead part.disk part.inodeTableLba n = some inode ∧
      inode.iNo = (part.record n).iNo.toNat ∧ inode.iSectors = (searchInode (part.record n)).iSectors := by
  obtain ⟨pos, located, addr, inside, _⟩ := @InodeTable.inodeLocate_spec part.inodeTableLba n inTable
  have words : ∀ off, off + 4 ≤ inodeSize →
      word (ideRead part.disk pos.secLba (InodeTable.secs pos)) (pos.offSize + off) =
        word (fun k => byteAt part.disk (slotAddr part.inodeTableLba n + k)) (0 + off) := by
    intro off small
    apply InodeTable.word_congr
    intro k _
    have sameAddr : pos.secLba * sectorSize + (pos.offSize + off + k) =
        slotAddr part.inodeTableLba n + (0 + off + k) := by
      omega
    rw [InodeTable.ideRead_byteAt _ _ (by omega), sameAddr]
  unfold inodeRead
  rw [located]
  refine ⟨_, rfl, ?_, ?_⟩
  · have isNo := words 0 (by decide)
    rw [Nat.add_zero, Nat.add_zero] at isNo
    unfold Volume.record recordAt Inode.ofBytes inodeAt
    dsimp only
    rw [UInt32.toNat_ofNat_of_lt' (word_lt _ _), ← isNo]
    rfl
  · apply List.map_congr_left
    intro i mem
    have small : i < 13 := List.mem_range.mp mem
    have isSector := words (16 + 4 * i) (by unfold inodeSize; omega)
    have isIdx : (sectorIdx i).val = i := Nat.mod_eq_of_lt small
    show word _ _ = (UInt32.ofNat (word _ _)).toNat
    rw [UInt32.toNat_ofNat_of_lt' (word_lt _ _), isIdx, ← isSector, Nat.add_assoc]
    rfl

/-- The entries of a directory are those in the blocks of its record. -/
theorem dirAt_eq (inTable : n < 4096) :
    dirAt part.disk part.inodeTableLba n =
      ((dirBlocks part.disk (part.record n)).flatMap fun lba =>
        sectorEntries (ideRead part.disk lba 1)).filter (·.name ≠ []) := by
  obtain ⟨read, isRead, _, sameSectors⟩ := @inodeRead_eq part n inTable
  have sameBlocks : allBlocks part.disk read = allBlocks part.disk (searchInode (part.record n)) := by
    unfold allBlocks
    rw [sameSectors]
  rw [dirAt, isRead, Option.map_some, Option.getD_some, dirEntries, sameBlocks]
  rfl

theorem mem_dirAt_iff (inTable : n < 4096)
    (cleared : ∀ lba ∈ dirBlocks part.disk (part.record n), Cleared (ideRead part.disk lba 1)) {entry : DirEntry} :
    entry ∈ dirAt part.disk part.inodeTableLba n ↔
      entry ∈ liveEntries part.disk (part.record n) ∧ entry.name ≠ [] := by
  rw [dirAt_eq inTable, List.mem_filter, decide_eq_true_iff]
  unfold liveEntries
  constructor
  · rintro ⟨mem, isNamed⟩
    obtain ⟨lba, isBlock, isSlot⟩ := List.mem_flatMap.mp mem
    exact ⟨List.mem_flatMap.mpr ⟨lba, isBlock, (cleared lba isBlock).mem_liveAt isSlot isNamed⟩, isNamed⟩
  · rintro ⟨mem, isNamed⟩
    obtain ⟨lba, isBlock, isLive⟩ := List.mem_flatMap.mp mem
    exact ⟨List.mem_flatMap.mpr ⟨lba, isBlock, mem_sectorEntries_of_live isLive⟩, isNamed⟩

/-! ### Inodes in memory -/

/-- The number, the size and the blocks are the same; the other fields are of no use on
the disk. -/
structure SameNode (inode inode' : Inode) : Prop where
  iNo : inode.iNo = inode'.iNo
  iSize : inode.iSize = inode'.iSize
  iSectors : inode.iSectors = inode'.iSectors

theorem SameNode.sectorOf (same : SameNode inode inode') (idx : Nat) : sectorOf inode idx = sectorOf inode' idx := by
  unfold Fs.sectorOf
  rw [same.iSectors]

theorem allBlocks_of_sectors (disk : Disk) (same : inode.iSectors = inode'.iSectors) :
    allBlocks disk (searchInode inode) = allBlocks disk (searchInode inode') := by
  have sameSectors : (searchInode inode).iSectors = (searchInode inode').iSectors := by
    apply List.map_congr_left
    intro idx _
    unfold Fs.sectorOf
    rw [same]
  unfold allBlocks
  rw [sameSectors]

theorem dirBlocks_of_sectors (disk : Disk) (same : inode.iSectors = inode'.iSectors) :
    dirBlocks disk inode = dirBlocks disk inode' := by
  unfold dirBlocks
  rw [allBlocks_of_sectors disk same]

theorem liveEntries_of_sectors (disk : Disk) (same : inode.iSectors = inode'.iSectors) :
    liveEntries disk inode = liveEntries disk inode' := by
  unfold liveEntries
  rw [dirBlocks_of_sectors disk same]

theorem ownBlocks_of_sectors (disk : Disk) (same : inode.iSectors = inode'.iSectors) :
    ownBlocks disk inode = ownBlocks disk inode' := by
  have sameTable : Fs.sectorOf inode 12 = Fs.sectorOf inode' 12 := by
    unfold Fs.sectorOf
    rw [same]
  unfold ownBlocks tableBlock
  rw [dirBlocks_of_sectors disk same, sameTable]

/-- A directory is a directory in memory. -/
theorem IsDirectory.of_sameNode (isDir : IsDirectory part inode') (same : SameNode inode inode') :
    IsDirectory part inode := by
  have blocks := dirBlocks_of_sectors part.disk same.iSectors
  have live := liveEntries_of_sectors part.disk same.iSectors
  have own := ownBlocks_of_sectors part.disk same.iSectors
  refine ⟨?_, ?_, ?_, ?_, ?_, ?_, ?_, ?_, ?_, ?_⟩
  · rw [own]
    exact isDir.nodup
  · rw [own]
    exact isDir.inUse
  · rw [blocks]
    exact isDir.cleared
  · rw [live]
    exact isDir.names
  · rw [live]
    exact isDir.numbers
  · rw [live, same.iSize]
    exact isDir.size
  · rw [same.sectorOf]
    exact isDir.first
  · rw [same.sectorOf]
    exact isDir.self
  · rw [same.sectorOf]
    exact isDir.up
  · rw [blocks, same.sectorOf]
    exact isDir.dotsFirst

/-! ### The regions of the volume -/

/-- The bitmaps lie before the inode table, and the data area behind it. -/
structure Volume.Layout (part : Volume) : Prop extends part.WellFormed where
  blockBitmapBelow : ∀ bit < 8 * part.blockBitmap.btmpBytesLen,
    part.blockBitmapLba + bit / 4096 < part.inodeTableLba
  inodeBitmapBelow : part.inodeBitmapLba < part.inodeTableLba

/-- The regions are as before, and so are the records and the sectors of the data area
that are not listed. -/
structure Volume.Keeps (part part' : Volume) (slots lbas : List Nat) : Prop where
  writes : part.Writes part' lbas
  inodeBitmapLba : part'.inodeBitmapLba = part.inodeBitmapLba
  record : ∀ n < 4096, n ∉ slots → part'.record n = part.record n

theorem Volume.Keeps.trans (first : part.Keeps part' slots lbas) (second : part'.Keeps part'' slots' lbas') :
    part.Keeps part'' (slots ++ slots') (lbas ++ lbas') where
  writes := first.writes.trans second.writes
  inodeBitmapLba := second.inodeBitmapLba.trans first.inodeBitmapLba
  record n inTable notIn := by
    rw [List.mem_append, not_or] at notIn
    rw [second.record n inTable notIn.2, first.record n inTable notIn.1]

theorem Volume.Keeps.layout (keeps : part.Keeps part' slots lbas) (layout : part.Layout) : part'.Layout where
  toWellFormed := keeps.writes.wellFormed layout.toWellFormed
  blockBitmapBelow bit inside := by
    rw [keeps.writes.bytesLen] at inside
    rw [keeps.writes.blockBitmapLba, keeps.writes.inodeTableLba]
    exact layout.blockBitmapBelow bit inside
  inodeBitmapBelow := by
    rw [keeps.inodeBitmapLba, keeps.writes.inodeTableLba]
    exact layout.inodeBitmapBelow

/-- A record is read from the sectors of the table. -/
theorem recordAt_congr {disk disk' : Disk} {inodeTableLba : Nat} (inTable : n < 4096)
    (same : ∀ sec, inodeTableLba ≤ sec → sec < inodeTableLba + 608 → disk' sec = disk sec) :
    recordAt disk' inodeTableLba n = recordAt disk inodeTableLba n := by
  unfold recordAt
  apply InodeTable.ofBytes_congr
  intro k small
  simp only [inodeSize] at small
  unfold byteAt
  rw [same]
  · simp only [slotAddr, inodeSize, sectorSize]
    omega
  · simp only [slotAddr, inodeSize, sectorSize]
    omega

theorem Volume.keeps_ideWrite (layout : part.Layout) (inData : part.dataStartLba ≤ lba) (buf : Buf) :
    part.Keeps (part.ideWrite lba buf) [] [lba] where
  writes := Volume.writes_ideWrite part lba buf
  inodeBitmapLba := rfl
  record n inTable _ := by
    refine recordAt_congr inTable fun sec _ upper => ?_
    have below := layout.tableBelow
    have above : sec < part.inodeTableLba + 608 := upper
    exact ideWrite_other _ _ (by omega)

theorem Volume.keeps_setBlockBit (part : Volume) (bit : Nat) (value : Bool) :
    part.Keeps (part.setBlockBit bit value) [] [] :=
  ⟨Volume.writes_setBlockBit part bit value, rfl, fun _ _ _ => rfl⟩

theorem Volume.keeps_setInodeBit (part : Volume) (bit : Nat) (value : Bool) :
    part.Keeps (part.setInodeBit bit value) [] [] :=
  ⟨⟨rfl, rfl, rfl, rfl, fun _ _ _ => rfl⟩, rfl, fun _ _ _ => rfl⟩

theorem Volume.keeps_syncBlock (layout : part.Layout) (inside : bit < 8 * part.blockBitmap.btmpBytesLen) :
    part.Keeps (part.bitmapSync bit .block) [] [] where
  writes := Volume.writes_bitmapSync layout.toWellFormed inside
  inodeBitmapLba := rfl
  record n inTable _ := by
    refine recordAt_congr inTable fun sec inside' _ => ?_
    have below := layout.blockBitmapBelow bit inside
    have above : part.inodeTableLba ≤ sec := inside'
    have other : sec < part.blockBitmapLba + bit / 4096 ∨ part.blockBitmapLba + bit / 4096 + 1 ≤ sec := by
      omega
    have kept := ideWrite_other part.disk
      (fun i => UInt8.ofBitVec (part.blockBitmap.bits (bit / 4096 * 512 + i))) other
    exact kept

theorem Volume.keeps_syncInode (layout : part.Layout) (inTable : bit < 4096) :
    part.Keeps (part.bitmapSync bit .inode) [] [] := by
  have isFirst : bit / 4096 = 0 := Nat.div_eq_of_lt inTable
  have below := layout.inodeBitmapBelow
  have behind := layout.tableBelow
  have same : ∀ sec, part.inodeTableLba ≤ sec → (part.bitmapSync bit .inode).disk sec = part.disk sec := by
    intro sec above
    have other : sec < part.inodeBitmapLba + bit / 4096 ∨ part.inodeBitmapLba + bit / 4096 + 1 ≤ sec := by
      omega
    have kept := ideWrite_other part.disk
      (fun i => UInt8.ofBitVec (part.inodeBitmap.bits (bit / 4096 * 512 + i))) other
    exact kept
  refine ⟨⟨rfl, rfl, rfl, rfl, fun sec inData _ => same sec (by omega)⟩, rfl, fun n isSlot _ => ?_⟩
  exact recordAt_congr isSlot fun sec above _ => same sec above

/-! ### Writes to the table -/

/-- An inode lies in the sectors of the table, also where it takes two of them. -/
theorem inodeLocate_inside {inodeTableLba : Nat} {pos : InodePosition} (inTable : n < 4096)
    (located : inodeLocate inodeTableLba n = some pos) :
    pos.secLba + InodeTable.secs pos ≤ inodeTableLba + 608 := by
  rw [inodeLocate, if_pos inTable] at located
  cases located
  unfold InodeTable.secs
  by_cases straddles : 512 - n * inodeSize % 512 < inodeSize
  · rw [if_pos (decide_eq_true straddles)]
    simp only [inodeSize] at *
    omega
  · rw [if_neg (by simpa using straddles)]
    simp only [inodeSize] at *
    omega

/-- The record of another slot, when the bytes of one are replaced. -/
theorem recordAt_patched {disk disk' : Disk} {inodeTableLba : Nat} {src : Buf}
    (patched : Patched disk disk' (slotAddr inodeTableLba n) inodeSize src) {other : Nat} (ne : other ≠ n) :
    recordAt disk' inodeTableLba other = recordAt disk inodeTableLba other := by
  unfold recordAt
  apply InodeTable.ofBytes_congr
  intro k small
  rw [Nat.zero_add, patched, if_neg (InodeTable.slotAddr_disjoint ne small)]

theorem recordAt_patched_self {disk disk' : Disk} {inodeTableLba : Nat} {src : Buf}
    (patched : Patched disk disk' (slotAddr inodeTableLba n) inodeSize src) :
    recordAt disk' inodeTableLba n = Inode.ofBytes src 0 := by
  unfold recordAt
  apply InodeTable.ofBytes_congr
  intro k small
  rw [Nat.zero_add, patched, if_pos ⟨Nat.le_add_right _ _, by omega⟩, Nat.add_sub_cancel_left]

/-- `inode_sync` writes to the slot that the low byte of the number names. -/
theorem Volume.inodeSync_eq_some (layout : part.Layout) (isRun : part.inodeSync inode = some part') :
    part.Keeps part' [inode.iNo.toNat % 256] [] ∧
      part'.record (inode.iNo.toNat % 256) = pureInode inode ∧
      part'.blockBitmap = part.blockBitmap ∧ part'.inodeBitmap = part.inodeBitmap := by
  obtain ⟨synced, isSynced, sameLba, _, patched⟩ := InodeTable.inodeSync_spec part.inodeTable inode
  obtain ⟨other, isOther, behind⟩ := InodeTable.inodeSync_behind part.inodeTable inode
  cases isSynced.symm.trans isOther
  unfold Volume.inodeSync at isRun
  rw [isSynced] at isRun
  cases isRun
  refine ⟨⟨⟨rfl, rfl, rfl, rfl, fun sec inData _ => ?_⟩, rfl, fun n _ notIn => ?_⟩, ?_, rfl, rfl⟩
  · exact behind sec (layout.tableBelow.trans inData)
  · exact recordAt_patched patched (by simpa using notIn)
  · exact (recordAt_patched_self patched).trans (InodeTable.ofBytes_bytes (pureInode inode))

theorem Volume.inodeDelete_eq_some (layout : part.Layout) (inTable : n < 4096)
    (isRun : part.inodeDelete n = some part') :
    part.Keeps part' [n] [] ∧ part'.blockBitmap = part.blockBitmap ∧ part'.inodeBitmap = part.inodeBitmap := by
  obtain ⟨deleted, isDeleted, patched⟩ := InodeTable.inodeDelete_spec part.inodeTable inTable
  obtain ⟨pos, located, addr, inside, upper⟩ := @InodeTable.inodeLocate_spec part.inodeTableLba n inTable
  have below := layout.tableBelow
  have behind : ∀ sec, part.dataStartLba ≤ sec → deleted.disk sec = part.disk sec := by
    intro sec inData
    unfold InodeTable.inodeDelete at isDeleted
    obtain ⟨pos', isPos, isDeleted⟩ := Option.bind_eq_some_iff.mp isDeleted
    cases located.symm.trans isPos
    split at isDeleted
    · cases isDeleted
      apply ideWrite_other
      have above := inodeLocate_inside inTable located
      omega
    · cases isDeleted
  unfold Volume.inodeDelete at isRun
  rw [isDeleted] at isRun
  cases isRun
  refine ⟨⟨⟨rfl, rfl, rfl, rfl, fun sec inData _ => behind sec inData⟩, rfl, fun other _ notIn => ?_⟩, rfl, rfl⟩
  exact recordAt_patched patched (by simpa using notIn)

end ZyOs.Fs
