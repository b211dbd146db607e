import ZyOs.Fs.InodeRelease
import ZyOs.Fs.VolumeTree

/-!
Contract: what the tree on a volume is after an entry has been taken out of a directory
and its inode has been released.

Owns:
- `Deletion`: the two steps, and what they leave of the tree;
- that the other directories keep their entries, the directory loses one, and the blocks
  of the inode are free.

`inode_sync` finds the slot of the directory by the low byte of its number. A directory
from 256 on is written to the slot of another inode, and its own record stays.
-/

namespace ZyOs.Fs

open ZyOs.Kernel

variable {part part₁ part' : Volume} {inode inode' node : InodeTable.Inode} {entry other : DirEntry} {dir lba n : Nat}
  {slots lbas : List Nat}

/-! ### What is kept -/

/-- The blocks of an inode are the same where its table is not written. -/
theorem dirBlocks_kept (keeps : part.Keeps part' slots lbas)
    (own : ∀ lba ∈ ownBlocks part.disk inode, part.dataStartLba ≤ lba ∧ lba ∉ lbas) :
    dirBlocks part'.disk inode = dirBlocks part.disk inode := by
  refine dirBlocks_congr rfl rfl fun isTable => ?_
  obtain ⟨inData, notIn⟩ := own _ (table_mem_ownBlocks isTable)
  exact keeps.writes.disk _ inData notIn

theorem ownBlocks_kept (keeps : part.Keeps part' slots lbas)
    (own : ∀ lba ∈ ownBlocks part.disk inode, part.dataStartLba ≤ lba ∧ lba ∉ lbas) :
    ownBlocks part'.disk inode = ownBlocks part.disk inode := by
  unfold ownBlocks
  rw [dirBlocks_kept keeps own]

/-- A directory has the same entries where neither its record nor its blocks are written. -/
theorem dirAt_kept (keeps : part.Keeps part' slots lbas) (inTable : n < 4096) (notIn : n ∉ slots)
    (own : ∀ lba ∈ ownBlocks part.disk (part.record n), part.dataStartLba ≤ lba ∧ lba ∉ lbas) :
    dirAt part'.disk part'.inodeTableLba n = dirAt part.disk part.inodeTableLba n := by
  rw [dirAt_eq inTable, dirAt_eq inTable, keeps.record n inTable notIn, dirBlocks_kept keeps own]
  congr 1
  apply List.flatMap_congr
  intro lba mem
  obtain ⟨inData, isKept⟩ := own lba (List.mem_append_right _ mem)
  rw [ideRead_congr (keeps.writes.disk lba inData isKept)]

/-- A record without blocks has no entries. -/
theorem dirAt_empty (inTable : n < 4096) (isZero : (part.record n).iSectors = fun _ => 0) :
    dirAt part.disk part.inodeTableLba n = [] := by
  have sectors : ∀ idx, sectorOf (part.record n) idx = 0 := by
    intro idx
    unfold sectorOf
    rw [isZero]
    rfl
  have noBlocks : dirBlocks part.disk (part.record n) = [] := by
    unfold dirBlocks
    rw [List.filter_eq_nil_iff]
    intro lba mem
    rw [allBlocks_eq, tableBlocks, if_neg (by simp [sectors])] at mem
    rcases List.mem_append.mp mem with mem | mem
    · obtain ⟨idx, _, isSector⟩ := List.mem_map.mp mem
      rw [← isSector, sectors]
      simp
    · rw [List.eq_of_mem_replicate mem]
      simp
  rw [dirAt_eq inTable, noBlocks]
  rfl

/-- The entries that are left. -/
theorem IsDirectory.mem_of_loses (isDir : IsDirectory part inode) (proper : entry.isProper = true)
    (loses : (liveEntries part.disk inode).Perm (entry :: liveEntries part'.disk inode')) :
    other ∈ liveEntries part'.disk inode' ↔
      other ∈ liveEntries part.disk inode ∧ ¬ (other.isProper = true ∧ other.iNo = entry.iNo) := by
  have numbers := isDir.numbers
  rw [((loses.filter DirEntry.isProper).map DirEntry.iNo).nodup_iff, List.filter_cons_of_pos proper,
    List.map_cons, List.nodup_cons] at numbers
  rw [loses.mem_iff, List.mem_cons]
  constructor
  · intro mem
    refine ⟨.inr mem, ?_⟩
    rintro ⟨isProper, sameNo⟩
    exact numbers.1 (List.mem_map.mpr ⟨other, List.mem_filter.mpr ⟨mem, isProper⟩, sameNo⟩)
  · rintro ⟨isEntry | mem, notIt⟩
    · rw [isEntry] at notIt
      exact absurd ⟨proper, rfl⟩ notIt
    · exact mem

/-! ### The deletion -/

/-- The entry is taken out of the directory. -/
structure Loss (tree : VolumeTree part) (dir : Nat) (entry : DirEntry) (lba : Nat) (part₁ : Volume)
    (inode inode' : InodeTable.Inode) : Prop where
  isDir : tree.isDir dir
  mem : entry ∈ dirAt part.disk part.inodeTableLba dir
  proper : entry.isProper = true
  ne : entry.iNo ≠ dir
  same : SameNode inode (part.record dir)
  removal : Removal part part₁ inode inode' entry lba

/-- The entry is taken out of the directory, and its inode is released. -/
structure Deletion (tree : VolumeTree part) (dir : Nat) (entry : DirEntry) (lba : Nat) (part₁ part' : Volume)
    (inode inode' node : InodeTable.Inode) : Prop extends Loss tree dir entry lba part₁ inode inode' where
  sameNode : SameNode node (part.record entry.iNo)
  released : part₁.Released part' node entry.iNo

variable {tree : VolumeTree part}

theorem VolumeTree.own_inData (tree : VolumeTree part) (isObject : tree.IsObject n) :
    ∀ lba ∈ ownBlocks part.disk (part.record n), part.dataStartLba ≤ lba :=
  fun _ mem => (tree.object_inUse isObject mem).inData

namespace Loss

variable (loss : Loss tree dir entry lba part₁ inode inode')

include loss

theorem isObject : tree.IsObject entry.iNo := tree.object_of_entry loss.isDir loss.mem

theorem dirNo : inode.iNo.toNat = dir := by
  rw [loss.same.iNo]
  exact tree.record_iNo (.inl loss.isDir)

theorem isBlock : lba ∈ ownBlocks part.disk (part.record dir) := by
  have mem := loss.removal.isBlock
  rw [dirBlocks_of_sectors part.disk loss.same.iSectors] at mem
  exact List.mem_append_right _ mem

/-- The block of the entry belongs to the directory only. -/
theorem notOwn (isObject : tree.IsObject n) (ne : n ≠ dir) : lba ∉ ownBlocks part.disk (part.record n) :=
  fun mem => tree.apart n dir isObject (.inl loss.isDir) ne lba mem loss.isBlock

theorem keepsFirst : part.Keeps part₁ [dir % 256] [lba] := by
  have keeps := loss.removal.keeps
  rw [loss.dirNo] at keeps
  refine keeps.mono (fun _ mem => mem) fun other mem => ?_
  split at mem
  · cases mem
  · exact mem

theorem ownBlocks_node (sameNode : SameNode node (part.record entry.iNo)) :
    ownBlocks part₁.disk node = ownBlocks part.disk (part.record entry.iNo) := by
  rw [ownBlocks_of_sectors part₁.disk sameNode.iSectors]
  refine ownBlocks_kept loss.keepsFirst fun other mem => ?_
  refine ⟨tree.own_inData loss.isObject other mem, fun isLba => ?_⟩
  rw [List.mem_singleton.mp isLba] at mem
  exact loss.notOwn loss.isObject loss.ne mem

theorem inUse_node (sameNode : SameNode node (part.record entry.iNo)) :
    ∀ other ∈ ownBlocks part₁.disk node, part₁.InUse other := by
  intro other mem
  rw [loss.ownBlocks_node sameNode] at mem
  rw [loss.removal.inUse]
  refine ⟨tree.object_inUse loss.isObject mem, ?_⟩
  rintro ⟨isLba, _⟩
  rw [isLba] at mem
  exact loss.notOwn loss.isObject loss.ne mem

/-- The record of the entry is what it was, unless `inode_sync` has put the directory into
its slot. -/
theorem record_node (isNo : (part₁.record entry.iNo).iNo.toNat = entry.iNo) :
    part₁.record entry.iNo = part.record entry.iNo := by
  apply loss.keepsFirst.record entry.iNo (tree.object_lt loss.isObject)
  intro isSlot
  have record := loss.removal.record
  rw [loss.dirNo, ← List.mem_singleton.mp isSlot] at record
  rw [record] at isNo
  have sameNo : inode'.iNo.toNat = dir := by
    rw [loss.removal.iNo, loss.dirNo]
  exact loss.ne (isNo.symm.trans sameNo)

/-- The entry is alone in its block. -/
theorem alone_iff : (∃ other ∈ dirBlocks part.disk (part.record dir), Alone (ideRead part.disk other 1) entry.iNo) ↔
    Alone (ideRead part.disk lba 1) entry.iNo := by
  rw [← dirBlocks_of_sectors part.disk loss.same.iSectors]
  constructor
  · rintro ⟨other, isBlock, alone⟩
    have isDir := (tree.directory dir loss.isDir).of_sameNode loss.same
    have isIn : entry.iNo ∈ numbersAt (ideRead part.disk lba 1) :=
      List.mem_map.mpr ⟨entry, List.mem_filter.mpr ⟨loss.removal.isLive, loss.proper⟩, rfl⟩
    have isIn' : entry.iNo ∈ numbersAt (ideRead part.disk other 1) := by
      rw [alone.1]
      exact List.mem_singleton_self _
    obtain ⟨idx, inside, isMatch⟩ := mem_numbersAt_iff.mp isIn
    obtain ⟨idx', inside', isMatch'⟩ := mem_numbersAt_iff.mp isIn'
    rw [isDir.block_unique loss.removal.isBlock isBlock (List.mem_range.mp inside) isMatch
      (List.mem_range.mp inside') isMatch']
    exact alone
  · exact fun alone => ⟨lba, loss.removal.isBlock, alone⟩

end Loss

namespace Deletion

variable (deletion : Deletion tree dir entry lba part₁ part' inode inode' node)

include deletion

theorem keeps : part.Keeps part' [dir % 256, entry.iNo] [lba] :=
  deletion.keepsFirst.trans deletion.released.keeps

/-- The blocks that are in use. -/
theorem inUse_iff (other : Nat) : part'.InUse other ↔
    part.InUse other ∧ ¬ (other = lba ∧ Alone (ideRead part.disk lba 1) entry.iNo) ∧
      other ∉ ownBlocks part.disk (part.record entry.iNo) := by
  rw [deletion.released.inUse, deletion.removal.inUse, deletion.ownBlocks_node deletion.sameNode,
    and_assoc]

theorem inodeBit (other : Nat) : bitmapScanTest part'.inodeBitmap other =
    if other = entry.iNo then false else bitmapScanTest part.inodeBitmap other := by
  rw [deletion.released.inodeBit, deletion.removal.inodeBitmap]

/-! Records and entries. -/

theorem record_other (isObject : tree.IsObject n) (ne : n ≠ entry.iNo) (noSlot : n ≠ dir % 256) :
    part'.record n = part.record n := by
  refine deletion.keeps.record n (tree.object_lt isObject) ?_
  simp [ne, noSlot]

theorem disk_other (isObject : tree.IsObject n) (ne : n ≠ dir) {other : Nat}
    (mem : other ∈ ownBlocks part.disk (part.record n)) : part'.disk other = part.disk other := by
  refine deletion.keeps.writes.disk other (tree.own_inData isObject other mem) fun isLba => ?_
  rw [List.mem_singleton.mp isLba] at mem
  exact deletion.notOwn isObject ne mem

theorem dirAt_other (isDir : tree.isDir n) (ne : n ≠ dir) (notIt : n ≠ entry.iNo) (noSlot : n ≠ dir % 256) :
    dirAt part'.disk part'.inodeTableLba n = dirAt part.disk part.inodeTableLba n := by
  refine dirAt_kept deletion.keeps (tree.dir_lt isDir) (by simp [notIt, noSlot]) fun other mem => ?_
  refine ⟨tree.own_inData (.inl isDir) other mem, fun isLba => ?_⟩
  rw [List.mem_singleton.mp isLba] at mem
  exact deletion.notOwn (.inl isDir) ne mem

theorem dirAt_released : dirAt part'.disk part'.inodeTableLba entry.iNo = [] :=
  dirAt_empty (tree.object_lt deletion.isObject) deletion.released.iSectors

/-- The entries behind a record that has the blocks of the directory. -/
theorem mem_dirAt (inTable : n < 4096) (notIt : n ≠ entry.iNo)
    (sameSectors : (part₁.record n).iSectors = inode'.iSectors) :
    other ∈ dirAt part'.disk part'.inodeTableLba n ↔
      other ∈ dirAt part.disk part.inodeTableLba dir ∧
        ¬ (other.isProper = true ∧ other.iNo = entry.iNo) := by
  have isDir := (tree.directory dir deletion.isDir).of_sameNode deletion.same
  have blocks := dirBlocks_of_sectors part₁.disk sameSectors
  have own := ownBlocks_of_sectors part₁.disk sameSectors
  rw [dirAt_kept deletion.released.keeps inTable (by simpa using notIt), mem_dirAt_iff inTable,
    liveEntries_of_sectors part₁.disk sameSectors, isDir.mem_of_loses deletion.proper deletion.removal.loses,
    tree.mem_dirAt deletion.isDir, liveEntries_of_sectors part.disk deletion.same.iSectors]
  · exact and_right_comm
  · rw [blocks]
    exact deletion.removal.directory.cleared
  · rw [own]
    exact fun block mem => ⟨(deletion.removal.directory.inUse block mem).inData, List.not_mem_nil⟩

/-- The directory has lost its entry, unless the record still lists the block that was
given back. -/
theorem mem_dirAt_dir (noDrop : dir < 256 ∨ ¬ Alone (ideRead part.disk lba 1) entry.iNo) :
    other ∈ dirAt part'.disk part'.inodeTableLba dir ↔
      other ∈ dirAt part.disk part.inodeTableLba dir ∧
        ¬ (other.isProper = true ∧ other.iNo = entry.iNo) := by
  apply deletion.mem_dirAt (tree.dir_lt deletion.isDir) deletion.ne.symm
  have record := deletion.removal.record
  rw [deletion.dirNo] at record
  by_cases isSlot : dir % 256 = dir
  · rw [isSlot] at record
    rw [record]
    rfl
  · have notAlone := noDrop.resolve_left fun small => isSlot (Nat.mod_eq_of_lt small)
    rw [deletion.keepsFirst.record dir (tree.dir_lt deletion.isDir) (by simpa using Ne.symm isSlot),
      deletion.removal.iSectors notAlone, deletion.same.iSectors]

/-- The slot that `inode_sync` has written has the entries of the directory. -/
theorem mem_dirAt_slot (notIt : dir % 256 ≠ entry.iNo) :
    other ∈ dirAt part'.disk part'.inodeTableLba (dir % 256) ↔
      other ∈ dirAt part.disk part.inodeTableLba dir ∧
        ¬ (other.isProper = true ∧ other.iNo = entry.iNo) := by
  have record := deletion.removal.record
  rw [deletion.dirNo] at record
  refine deletion.mem_dirAt (by omega) notIt ?_
  rw [record]
  rfl

theorem record_slot (notIt : dir % 256 ≠ entry.iNo) : (part'.record (dir % 256)).iNo.toNat = dir := by
  have record := deletion.removal.record
  rw [deletion.dirNo] at record
  rw [deletion.released.keeps.record (dir % 256) (by omega) (by simpa using notIt), record]
  show inode'.iNo.toNat = dir
  rw [deletion.removal.iNo, deletion.dirNo]

/-- The record of a directory from 256 on still lists the block of the entry. -/
theorem mem_dirAt_stale (large : 256 ≤ dir) (alone : Alone (ideRead part.disk lba 1) entry.iNo) :
    dirAt part'.disk part'.inodeTableLba dir = dirAt part.disk part.inodeTableLba dir := by
  have keeps := deletion.removal.keeps
  rw [deletion.dirNo, if_pos alone] at keeps
  have notIt := deletion.ne
  refine dirAt_kept (keeps.trans deletion.released.keeps) (tree.dir_lt deletion.isDir) ?_ fun other mem => ?_
  · simp only [List.cons_append, List.nil_append, List.mem_cons, List.not_mem_nil, or_false]
    omega
  · exact ⟨tree.own_inData (.inl deletion.isDir) other mem, List.not_mem_nil⟩

/-! Paths. -/

/-- No directory that is reached gains an entry, where `inode_sync` writes the slot of
none but `dir`. -/
theorem subset (noDrop : dir < 256 ∨ ¬ Alone (ideRead part.disk lba 1) entry.iNo)
    (slotFree : ∀ n, ReachesDir part.disk part.inodeTableLba n → n ≠ entry.iNo → n = dir % 256 → n = dir) :
    ∀ n, ReachesDir part.disk part.inodeTableLba n → ∀ other ∈ dirAt part'.disk part.inodeTableLba n,
      other ∈ dirAt part.disk part.inodeTableLba n := by
  intro n reaches other mem
  have isDir := tree.dir_of_reaches reaches
  rw [← deletion.keeps.writes.inodeTableLba] at mem
  by_cases isIt : n = entry.iNo
  · rw [isIt, deletion.dirAt_released] at mem
    cases mem
  · by_cases same : n = dir
    · rw [same] at mem ⊢
      exact ((deletion.mem_dirAt_dir noDrop).mp mem).1
    · rw [deletion.dirAt_other isDir same isIt fun isSlot => same (slotFree n reaches isIt isSlot)] at mem
      exact mem

/-- No directory that is reached loses an entry, but for those of the inode. -/
theorem kept (noDrop : dir < 256 ∨ ¬ Alone (ideRead part.disk lba 1) entry.iNo)
    (slotFree : ∀ n, ReachesDir part.disk part.inodeTableLba n → n ≠ entry.iNo → n = dir % 256 → n = dir) :
    ∀ n, ReachesDir part.disk part.inodeTableLba n → n ≠ entry.iNo →
      ∀ other ∈ dirAt part.disk part.inodeTableLba n, other.iNo ≠ entry.iNo →
        other ∈ dirAt part'.disk part.inodeTableLba n := by
  intro n reaches notIt other mem ne
  have isDir := tree.dir_of_reaches reaches
  rw [← deletion.keeps.writes.inodeTableLba]
  by_cases same : n = dir
  · rw [same] at mem ⊢
    refine (deletion.mem_dirAt_dir noDrop).mpr ⟨mem, ?_⟩
    rintro ⟨_, sameNo⟩
    exact ne sameNo
  · rw [deletion.dirAt_other isDir same notIt fun isSlot => same (slotFree n reaches notIt isSlot)]
    exact mem

end Deletion

end ZyOs.Fs
