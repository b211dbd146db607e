import ZyOs.Fs.DeleteEnds
import ZyOs.Fs.InodeRecords

/-!
Contract: what `delete_dir_entry` leaves of a volume when it returns.

Owns:
- `Removal`: the directory has lost the entry, and the block of it when the entry was
  alone there; `inode_sync` has written the slot that the low byte of the number of
  the directory names;
- that a deletion is a removal, or finds no entry and changes nothing.
-/

namespace ZyOs.Fs

open ZyOs.Kernel
open InodeTable (Inode pureInode)

variable {part part' part'' : Volume} {inode inode' : Inode} {entry : DirEntry} {lba other n fuel : Nat}
  {slots slots' lbas lbas' : List Nat}

/-! ### Bits and blocks -/

theorem Volume.Keeps.mono (keeps : part.Keeps part' slots lbas) (moreSlots : ∀ n ∈ slots, n ∈ slots')
    (moreLbas : ∀ lba ∈ lbas, lba ∈ lbas') : part.Keeps part' slots' lbas' where
  writes := ⟨keeps.writes.dataStartLba, keeps.writes.blockBitmapLba, keeps.writes.inodeTableLba,
    keeps.writes.bytesLen, fun sec inData notIn => keeps.writes.disk sec inData fun mem => notIn (moreLbas sec mem)⟩
  inodeBitmapLba := keeps.inodeBitmapLba
  record n inTable notIn := keeps.record n inTable fun mem => notIn (moreSlots n mem)

/-- A block is in use by its bit in memory. -/
theorem Volume.Keeps.inUse_iff (keeps : part.Keeps part' slots lbas)
    (bitmap : part'.blockBitmap = part.blockBitmap) : part'.InUse lba ↔ part.InUse lba := by
  constructor
  · intro inUse
    refine ⟨?_, ?_, ?_⟩
    · rw [← keeps.writes.dataStartLba]
      exact inUse.inData
    · rw [← keeps.writes.dataStartLba, ← bitmap]
      exact inUse.inside
    · rw [← keeps.writes.dataStartLba, ← bitmap]
      exact inUse.bit
  · exact fun inUse => inUse.of_sameBitmap keeps.writes bitmap

theorem Volume.keeps_freeBlock (layout : part.Layout)
    (inside : lba - part.dataStartLba < 8 * part.blockBitmap.btmpBytesLen) :
    part.Keeps (part.freeBlock lba) [] [] :=
  (Volume.keeps_setBlockBit part _ false).trans
    (Volume.keeps_syncBlock ((Volume.keeps_setBlockBit part _ false).layout layout) inside)

theorem inUse_freeBlock_iff (inData : part.dataStartLba ≤ lba) :
    (part.freeBlock lba).InUse other ↔ part.InUse other ∧ other ≠ lba := by
  have bits : bitmapScanTest (part.freeBlock lba).blockBitmap (other - part.dataStartLba) =
      if other - part.dataStartLba = lba - part.dataStartLba then false
      else bitmapScanTest part.blockBitmap (other - part.dataStartLba) :=
    bitmapScanTest_bitmapSet part.blockBitmap _ _ false
  constructor
  · intro otherInUse
    have isSet : bitmapScanTest (part.freeBlock lba).blockBitmap (other - part.dataStartLba) = true :=
      otherInUse.bit
    have ne : other - part.dataStartLba ≠ lba - part.dataStartLba := by
      intro same
      rw [bits, if_pos same] at isSet
      cases isSet
    rw [bits, if_neg ne] at isSet
    exact ⟨⟨otherInUse.inData, otherInUse.inside, isSet⟩, fun same => ne (by rw [same])⟩
  · rintro ⟨otherInUse, ne⟩
    have otherInData := otherInUse.inData
    refine ⟨otherInUse.inData, otherInUse.inside, ?_⟩
    show bitmapScanTest (part.freeBlock lba).blockBitmap (other - part.dataStartLba) = true
    rw [bits, if_neg (by omega)]
    exact otherInUse.bit

theorem length_allBlocks (disk : Disk) (inode : Inode) : (allBlocks disk (searchInode inode)).length = 140 := by
  rw [allBlocks_eq, List.length_append, directBlocks, List.length_map, List.length_range, tableBlocks]
  split
  · rw [List.length_map, List.length_range]
  · rw [List.length_replicate]

/-- A block of a directory has an index. -/
theorem exists_getD_of_mem {disk : Disk} (mem : lba ∈ dirBlocks disk inode) :
    ∃ blockIdx < 140, (allBlocks disk (searchInode inode)).getD blockIdx 0 = lba ∧ lba ≠ 0 := by
  obtain ⟨isListed, isBlock⟩ := List.mem_filter.mp mem
  obtain ⟨blockIdx, inside, isLba⟩ := List.mem_iff_getElem.mp isListed
  refine ⟨blockIdx, ?_, ?_, by simpa using isBlock⟩
  · rw [← length_allBlocks disk inode]
    exact inside
  · rw [List.getD_eq_getElem?_getD, List.getElem?_eq_getElem inside, isLba, Option.getD_some]

/-! ### The removal -/

/-- The entry is gone from the directory. Where it was alone in its block, the block is
given back, and else its slot is cleared. -/
structure Removal (part part' : Volume) (inode inode' : Inode) (entry : DirEntry) (lba : Nat) : Prop where
  isBlock : lba ∈ dirBlocks part.disk inode
  isLive : entry ∈ liveAt (ideRead part.disk lba 1)
  keeps : part.Keeps part' [inode.iNo.toNat % 256]
    (if Alone (ideRead part.disk lba 1) entry.iNo then [] else [lba])
  inUse : ∀ other, part'.InUse other ↔
    part.InUse other ∧ ¬ (other = lba ∧ Alone (ideRead part.disk lba 1) entry.iNo)
  inodeBitmap : part'.inodeBitmap = part.inodeBitmap
  record : part'.record (inode.iNo.toNat % 256) = pureInode inode'
  iNo : inode'.iNo = inode.iNo
  iSectors : ¬ Alone (ideRead part.disk lba 1) entry.iNo → inode'.iSectors = inode.iSectors
  directory : IsDirectory part' inode'
  loses : (liveEntries part.disk inode).Perm (entry :: liveEntries part'.disk inode')

/-- `inode_sync` at the end of a removal. -/
theorem Removal.synced (layout : part.Layout) (isRun : part'.inodeSync inode' = some part'')
    (removal : part.Keeps part' []
      (if Alone (ideRead part.disk lba 1) entry.iNo then [] else [lba]))
    (isBlock : lba ∈ dirBlocks part.disk inode) (isLive : entry ∈ liveAt (ideRead part.disk lba 1))
    (inUse : ∀ other, part'.InUse other ↔
      part.InUse other ∧ ¬ (other = lba ∧ Alone (ideRead part.disk lba 1) entry.iNo))
    (inodeBitmap : part'.inodeBitmap = part.inodeBitmap) (iNo : inode'.iNo = inode.iNo)
    (iSectors : ¬ Alone (ideRead part.disk lba 1) entry.iNo → inode'.iSectors = inode.iSectors)
    (directory : IsDirectory part' inode')
    (loses : (liveEntries part.disk inode).Perm (entry :: liveEntries part'.disk inode')) :
    Removal part part'' inode inode' entry lba := by
  obtain ⟨keeps, record, blockBitmap, inodeBitmap'⟩ := Volume.inodeSync_eq_some (removal.layout layout) isRun
  obtain ⟨directory', sameLive⟩ := directory.congr keeps.writes blockBitmap
  rw [iNo] at keeps record
  refine ⟨isBlock, isLive, ?_, fun other => ?_, inodeBitmap'.trans inodeBitmap, record, iNo, iSectors,
    directory', ?_⟩
  · have both := removal.trans keeps
    rw [List.append_nil] at both
    exact both
  · rw [keeps.inUse_iff blockBitmap]
    exact inUse other
  · rw [sameLive]
    exact loses

theorem alone_iff {buf : Buf} (isIn : n ∈ numbersAt buf) : Alone buf n ↔
    ((List.range dirEntrysPerSec).filter (properSlot buf)).length = 1 ∧
      (List.range dirEntrysPerSec).any (dotSlot buf) = false := by
  rw [← numbersAt_length, Alone]
  constructor
  · rintro ⟨isOnly, noDot⟩
    exact ⟨by rw [isOnly]; rfl, noDot⟩
  · rintro ⟨isOne, noDot⟩
    obtain ⟨only, isOnly⟩ := List.length_eq_one_iff.mp isOne
    rw [isOnly] at isIn ⊢
    exact ⟨by rw [List.mem_singleton.mp isIn], noDot⟩

/-! ### `delete_dir_entry` -/

theorem finishDelete_eq_some {done : Bool} (isRun : finishDelete part inode = some (part', inode', done)) :
    part.inodeSync (subEntrySize inode) = some part' ∧ inode' = subEntrySize inode ∧ done = true := by
  unfold finishDelete at isRun
  obtain ⟨_, _, isRun⟩ := Option.bind_eq_some_iff.mp isRun
  obtain ⟨synced, isSynced, isEnd⟩ := Option.bind_eq_some_iff.mp isRun
  cases isEnd
  exact ⟨isSynced, rfl, rfl⟩

/-- The deletion in the block of the entry. A block of the table is not given back: the
loop that counts its blocks does not end. -/
theorem IsDirectory.removal (isDir : IsDirectory part inode) (layout : part.Layout) {blockIdx idx : Nat}
    (isBlock : (allBlocks part.disk (searchInode inode)).getD blockIdx 0 ≠ 0) (inside : idx < dirEntrysPerSec)
    (isMatch : matchesSlot (ideRead part.disk ((allBlocks part.disk (searchInode inode)).getD blockIdx 0) 1)
      n idx = true) {result : Volume × Inode}
    (isRun : Fs.deleteAt fuel part inode (allBlocks part.disk (searchInode inode)) blockIdx idx = some result)
    (isSynced : result.1.inodeSync (subEntrySize result.2) = some part') :
    Removal part part' inode (subEntrySize result.2)
      (dirEntryAt (ideRead part.disk ((allBlocks part.disk (searchInode inode)).getD blockIdx 0) 1) idx)
      ((allBlocks part.disk (searchInode inode)).getD blockIdx 0) := by
  have mem := mem_dirBlocks_of_getD isBlock
  have inUse := isDir.inUse _ (List.mem_append_right _ mem)
  have isIn := mem_numbersAt inside isMatch
  simp only [matchesSlot, properSlot, decide_eq_true_eq] at isMatch
  obtain ⟨⟨isLive, proper⟩, isNumber⟩ := isMatch
  have isEntry := mem_liveAt.mpr ⟨idx, inside, isLive, rfl⟩
  have isAlone := alone_iff isIn
  rw [← isNumber] at isAlone
  unfold Fs.deleteAt at isRun
  dsimp only at isRun
  split at isRun
  · rename_i onlyOne
    have alone := isAlone.mpr onlyOne
    by_cases direct : blockIdx < 12
    · rw [allBlocks_getD direct] at *
      rw [dropBlock_direct direct, allBlocks_getD direct] at isRun
      cases isRun
      have notFirst : sectorOf inode blockIdx ≠ sectorOf inode 0 := by
        intro isFirst
        rw [isFirst, isDir.any_dotSlot] at onlyOne
        cases onlyOne.2
      have single := isDir.single_entry mem notFirst inside isLive onlyOne.1
      obtain ⟨directory, loses⟩ := isDir.dropBlock layout.toWellFormed direct isBlock notFirst single proper
      refine Removal.synced layout isSynced ?_ mem isEntry (fun other => ?_) rfl rfl (absurd alone) directory loses
      · rw [if_pos alone]
        exact Volume.keeps_freeBlock layout inUse.inside
      · have freed := @inUse_freeBlock_iff part _ other inUse.inData
        simp only [alone, and_true]
        exact freed
    · rw [dropBlock_indirect direct] at isRun
      cases isRun
  · rename_i notOnly
    have notAlone := mt isAlone.mp notOnly
    cases isRun
    obtain ⟨directory, loses⟩ := isDir.clearEntry mem inside isLive proper
    refine Removal.synced layout isSynced ?_ mem isEntry (fun other => ?_) rfl rfl (fun _ => rfl) directory loses
    · rw [if_neg notAlone]
      exact Volume.keeps_ideWrite layout inUse.inData _
    · simp only [notAlone, and_false, not_false_eq_true, and_true]
      exact (Volume.keeps_ideWrite layout inUse.inData _).inUse_iff rfl

/-- A deletion that finds the entry is a removal of it. -/
theorem deleteDirEntry_removal (isDir : IsDirectory part inode) (layout : part.Layout)
    (mem : entry ∈ liveEntries part.disk inode) (proper : entry.isProper = true) {done : Bool}
    (isRun : deleteDirEntry fuel part inode entry.iNo = some (part', inode', done)) :
    done = true ∧ ∃ lba, Removal part part' inode inode' entry lba := by
  obtain ⟨lba, isBlock, isEntry⟩ := List.mem_flatMap.mp mem
  obtain ⟨slot, slotInside, slotLive, isSlot⟩ := mem_liveAt.mp isEntry
  obtain ⟨target, small, isTarget, isUsed⟩ := exists_getD_of_mem isBlock
  have slotMatch : matchesSlot (ideRead part.disk lba 1) entry.iNo slot = true := by
    simp [matchesSlot, properSlot, slotLive, isSlot, proper]
  have targetMatch := slotMatch
  rw [← isTarget] at isUsed targetMatch
  obtain ⟨blockIdx, _, isUsed', idx, inside, isMatch, isLoop⟩ :=
    deleteLoop_stops isDir fuel (Nat.zero_le target) (show target < 0 + 140 by omega) isUsed slotInside targetMatch
  rw [deleteDirEntry_eq, List.range_eq_range', isLoop] at isRun
  obtain ⟨result, isDeleted, isFinished⟩ := Option.bind_eq_some_iff.mp isRun
  obtain ⟨isSynced, isAfter, isDone⟩ := finishDelete_eq_some isFinished
  -- the slot in which the loop stops is that of the entry
  have isBlock' := mem_dirBlocks_of_getD isUsed'
  have sameBlock := isDir.block_unique isBlock isBlock' slotInside slotMatch inside isMatch
  have removal := isDir.removal layout isUsed' inside isMatch isDeleted isSynced
  rw [← sameBlock] at removal isMatch
  rw [isDir.slot_unique isBlock idx (List.mem_range.mpr inside) slot (List.mem_range.mpr slotInside) isMatch
    slotMatch, isSlot, ← isAfter] at removal
  exact ⟨isDone, lba, removal⟩

/-- A deletion that finds no entry changes nothing. -/
theorem deleteDirEntry_missing (isDir : IsDirectory part inode)
    (missing : ∀ entry ∈ liveEntries part.disk inode, entry.isProper = true → entry.iNo ≠ n) :
    deleteDirEntry fuel part inode n = some (part, inode, false) := by
  have passes : ∀ idxs, deleteLoop fuel part inode n (allBlocks part.disk (searchInode inode)) idxs =
      some (part, inode, false) := by
    intro idxs
    induction idxs with
    | nil => rfl
    | cons blockIdx idxs inductionHypothesis =>
        by_cases notBlock : (allBlocks part.disk (searchInode inode)).getD blockIdx 0 = 0
        · rw [deleteLoop_absent notBlock]
          exact inductionHypothesis
        · have mem := mem_dirBlocks_of_getD notBlock
          have isScan := @scanSector_eq (ideRead part.disk
            ((allBlocks part.disk (searchInode inode)).getD blockIdx 0) 1) n _ List.nodup_range
            (isDir.slot_unique mem) ⟨0, false, none⟩ fun isFound => absurd rfl isFound
          rw [deleteLoop_passed notBlock isScan]
          · exact inductionHypothesis
          · rw [Option.none_or, List.find?_eq_none]
            intro idx inside isMatch
            simp only [matchesSlot, properSlot, decide_eq_true_eq] at isMatch
            obtain ⟨⟨isLive, proper⟩, isNumber⟩ := isMatch
            refine missing _ (List.mem_flatMap.mpr ⟨_, mem, ?_⟩) proper isNumber
            exact mem_liveAt.mpr ⟨idx, List.mem_range.mp inside, isLive, rfl⟩
  exact passes (List.range 140)

end ZyOs.Fs
