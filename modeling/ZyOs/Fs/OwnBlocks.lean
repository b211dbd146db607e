import ZyOs.Fs.DeleteEnds

/-!
Contract: what the calls on a directory do to its blocks, whatever its entries are.

Owns: for each way in which `sync_dir_entry` and `delete_dir_entry` change a
directory, that its blocks stay its own, which blocks they are afterwards, and that
the others have the bytes that they had.

Does not own: names and numbers of entries; `i_size`.
-/

namespace ZyOs.Fs

open ZyOs.Kernel ZyOs.Lib
open InodeTable (Inode)

variable {part part' : Volume} {inode inode' : Inode} {entry : DirEntry} {lba : Nat}

/-- The blocks of a directory are in use, and each is listed once. -/
structure OwnsBlocks (part : Volume) (inode : Inode) : Prop where
  nodup : (ownBlocks part.disk inode).Nodup
  inUse : ∀ lba ∈ ownBlocks part.disk inode, part.InUse lba

theorem IsDirectory.ownsBlocks (isDir : IsDirectory part inode) : OwnsBlocks part inode :=
  ⟨isDir.nodup, isDir.inUse⟩

theorem sectorOf_congr (same : inode'.iSectors = inode.iSectors) (idx : Nat) :
    sectorOf inode' idx = sectorOf inode idx := by
  unfold sectorOf
  rw [same]

theorem directBlocks_congr (same : inode'.iSectors = inode.iSectors) :
    directBlocks inode' = directBlocks inode := by
  unfold directBlocks
  rw [funext (sectorOf_congr same)]

theorem tableBlock_congr (same : sectorOf inode' 12 = sectorOf inode 12) :
    tableBlock inode' = tableBlock inode := by
  unfold tableBlock
  rw [same]

namespace OwnsBlocks

variable (owns : OwnsBlocks part inode)

include owns

theorem blocks_nodup : (dirBlocks part.disk inode).Nodup := (List.nodup_append.mp owns.nodup).2.1

theorem table_ne (mem : lba ∈ dirBlocks part.disk inode) (isTable : sectorOf inode 12 ≠ 0) :
    sectorOf inode 12 ≠ lba := by
  apply (List.nodup_append.mp owns.nodup).2.2 (sectorOf inode 12)
  · rw [tableBlock, if_pos isTable]
    exact List.mem_singleton_self _
  · exact mem

theorem notMem_of_allocated (allocated : part.Allocated part' lba) : lba ∉ ownBlocks part.disk inode :=
  fun mem => allocated.wasFree (owns.inUse lba mem)

/-- Two places in the directory have two blocks. -/
theorem index_unique {i j : Nat} (isBlock : (allBlocks part.disk (searchInode inode)).getD i 0 ≠ 0)
    (same : (allBlocks part.disk (searchInode inode)).getD i 0 =
      (allBlocks part.disk (searchInode inode)).getD j 0) : i = j := by
  have apart := List.pairwise_filter.mp owns.blocks_nodup
  rw [List.pairwise_iff_getElem] at apart
  have inside : ∀ k, (allBlocks part.disk (searchInode inode)).getD k 0 ≠ 0 →
      ∃ small : k < (allBlocks part.disk (searchInode inode)).length,
        (allBlocks part.disk (searchInode inode)).getD k 0 = (allBlocks part.disk (searchInode inode))[k] := by
    intro k ne
    by_cases small : k < (allBlocks part.disk (searchInode inode)).length
    · exact ⟨small, (List.getElem_eq_getD 0).symm⟩
    · rw [List.getD_eq_getElem?_getD, List.getElem?_eq_none (Nat.not_lt.mp small)] at ne
      exact absurd rfl ne
  obtain ⟨iSmall, isI⟩ := inside i isBlock
  obtain ⟨jSmall, isJ⟩ := inside j (same ▸ isBlock)
  rw [isI] at isBlock same
  rw [isJ] at same
  rcases Nat.lt_trichotomy i j with before | isSame | behind
  · exact absurd same (apart i j iSmall jSmall before (by simpa using isBlock)
      (by rw [← same]; simpa using isBlock))
  · exact isSame
  · exact absurd same.symm (apart j i jSmall iSmall behind (by rw [← same]; simpa using isBlock)
      (by simpa using isBlock))

/-- A write outside the blocks of the directory. -/
theorem frame {written : List Nat} (writes : part.Writes part' written)
    (notOwn : ∀ lba ∈ ownBlocks part.disk inode, lba ∉ written)
    (kept : ∀ lba ∈ ownBlocks part.disk inode, part'.InUse lba)
    (same : inode'.iSectors = inode.iSectors) :
    OwnsBlocks part' inode' ∧ dirBlocks part'.disk inode' = dirBlocks part.disk inode ∧
      ∀ lba ∈ ownBlocks part.disk inode, part'.disk lba = part.disk lba := by
  have sameDisk : ∀ lba ∈ ownBlocks part.disk inode, part'.disk lba = part.disk lba :=
    fun lba mem => writes.disk lba (owns.inUse lba mem).inData (notOwn lba mem)
  have blocks : dirBlocks part'.disk inode' = dirBlocks part.disk inode :=
    dirBlocks_congr (directBlocks_congr same) (sectorOf_congr same 12) fun isTable =>
      sameDisk _ (table_mem_ownBlocks isTable)
  have own : ownBlocks part'.disk inode' = ownBlocks part.disk inode := by
    unfold ownBlocks
    rw [blocks, tableBlock_congr (sectorOf_congr same 12)]
  refine ⟨⟨?_, ?_⟩, blocks, sameDisk⟩
  · rw [own]
    exact owns.nodup
  · rw [own]
    exact kept

/-- A write to one of the blocks. -/
theorem putBlock (mem : lba ∈ dirBlocks part.disk inode) (buf : Buf)
    (same : inode'.iSectors = inode.iSectors) :
    OwnsBlocks (part.ideWrite lba buf) inode' ∧
      dirBlocks (part.ideWrite lba buf).disk inode' = dirBlocks part.disk inode ∧
      ∀ other ∈ ownBlocks part.disk inode, other ≠ lba →
        (part.ideWrite lba buf).disk other = part.disk other := by
  have writes := Volume.writes_ideWrite part lba buf
  have sameDisk : ∀ other ∈ ownBlocks part.disk inode, other ≠ lba →
      (part.ideWrite lba buf).disk other = part.disk other := by
    intro other isOther ne
    exact writes.disk other (owns.inUse other isOther).inData (by simpa using ne)
  have blocks : dirBlocks (part.ideWrite lba buf).disk inode' = dirBlocks part.disk inode :=
    dirBlocks_congr (directBlocks_congr same) (sectorOf_congr same 12) fun isTable =>
      sameDisk _ (table_mem_ownBlocks isTable) (owns.table_ne mem isTable)
  have own : ownBlocks (part.ideWrite lba buf).disk inode' = ownBlocks part.disk inode := by
    unfold ownBlocks
    rw [blocks, tableBlock_congr (sectorOf_congr same 12)]
  refine ⟨⟨?_, ?_⟩, blocks, sameDisk⟩
  · rw [own]
    exact owns.nodup
  · rw [own]
    exact fun other isOwn => (owns.inUse other isOwn).of_sameBitmap writes rfl

/-- A new direct block. -/
theorem newDirect (wellFormed : part.WellFormed) (allocated : part.Allocated part' lba) {blockIdx : Nat}
    (direct : blockIdx < 12) (notBlock : sectorOf inode blockIdx = 0) (buf : Buf)
    (same : inode'.iSectors = (setSector inode blockIdx lba).iSectors) :
    OwnsBlocks (part'.ideWrite lba buf) inode' ∧
      allBlocks (part'.ideWrite lba buf).disk (searchInode inode') =
        (allBlocks part.disk (searchInode inode)).set blockIdx lba ∧
      (dirBlocks (part'.ideWrite lba buf).disk inode').Perm (lba :: dirBlocks part.disk inode) ∧
      ∀ old ∈ ownBlocks part.disk inode, (part'.ideWrite lba buf).disk old = part.disk old := by
  have wellFormed' := allocated.writes.wellFormed wellFormed
  have small := allocated.inUse.lt wellFormed'
  have notZero := allocated.inUse.pos wellFormed'
  have notOwn := owns.notMem_of_allocated allocated
  have writes := allocated.writes.trans (Volume.writes_ideWrite part' lba buf)
  have sameDisk : ∀ old ∈ ownBlocks part.disk inode,
      (part'.ideWrite lba buf).disk old = part.disk old := by
    intro old isOld
    apply writes.disk old (owns.inUse old isOld).inData
    simp only [List.nil_append, List.mem_singleton]
    exact fun isLba => notOwn (isLba ▸ isOld)
  have isTable : sectorOf inode' 12 = sectorOf inode 12 := by
    rw [sectorOf_congr same, sectorOf_setSector inode (by omega) (by decide) small, if_neg (by omega)]
  have isSet : allBlocks (part'.ideWrite lba buf).disk (searchInode inode') =
      (allBlocks part.disk (searchInode inode)).set blockIdx lba := by
    rw [← allBlocks_setSector direct small fun isTable => sameDisk _ (table_mem_ownBlocks isTable),
      allBlocks_eq, allBlocks_eq, directBlocks_congr same,
      tableBlocks_congr (sectorOf_congr same 12) fun _ => rfl]
  have blocks : (dirBlocks (part'.ideWrite lba buf).disk inode').Perm
      (lba :: dirBlocks part.disk inode) := by
    unfold dirBlocks
    rw [isSet]
    exact set_filter_perm_cons (allBlocks_getElem? direct) (by simp [notBlock]) (by simp [notZero])
  have own : (ownBlocks (part'.ideWrite lba buf).disk inode').Perm
      (lba :: ownBlocks part.disk inode) := by
    unfold ownBlocks
    rw [tableBlock_congr isTable]
    exact (blocks.append_left _).trans List.perm_middle
  refine ⟨⟨?_, fun block isOwn => ?_⟩, isSet, blocks, sameDisk⟩
  · rw [own.nodup_iff]
    exact List.nodup_cons.mpr ⟨notOwn, owns.nodup⟩
  · have inUse : part'.InUse block := by
      rcases List.mem_cons.mp (own.mem_iff.mp isOwn) with rfl | old
      · exact allocated.inUse
      · exact allocated.others block (owns.inUse block old)
    exact inUse.of_sameBitmap (Volume.writes_ideWrite part' lba buf) rfl

/-- A new table with a first block; a table that was there before is left behind. -/
theorem newTable (wellFormed : part.WellFormed) {tableLba : Nat} {part₁ part₂ : Volume}
    (allocated₁ : part.Allocated part₁ tableLba) (allocated₂ : part₁.Allocated part₂ lba) :
    OwnsBlocks (part₂.putTable tableLba lba (directBlocks inode) entry)
        (addEntrySize (setSector inode 12 tableLba)) ∧
      dirBlocks (part₂.putTable tableLba lba (directBlocks inode) entry).disk
          (addEntrySize (setSector inode 12 tableLba)) = (directBlocks inode).filter (· ≠ 0) ++ [lba] ∧
      ∀ old ∈ ownBlocks part.disk inode,
        (part₂.putTable tableLba lba (directBlocks inode) entry).disk old = part.disk old := by
  have wellFormed₁ := allocated₁.writes.wellFormed wellFormed
  have wellFormed₂ := allocated₂.writes.wellFormed wellFormed₁
  have tableSmall := allocated₁.inUse.lt wellFormed₁
  have tableNe := allocated₁.inUse.pos wellFormed₁
  have small := allocated₂.inUse.lt wellFormed₂
  have ne := allocated₂.inUse.pos wellFormed₂
  have apart : tableLba ≠ lba := fun isSame => allocated₂.wasFree (isSame ▸ allocated₁.inUse)
  have tableNotOwn := owns.notMem_of_allocated allocated₁
  have notOwn : lba ∉ ownBlocks part.disk inode := fun mem =>
    allocated₂.wasFree (allocated₁.others lba (owns.inUse lba mem))
  have putWrites : part₂.Writes (part₂.putTable tableLba lba (directBlocks inode) entry)
      ([tableLba] ++ [lba]) :=
    (Volume.writes_ideWrite part₂ tableLba _).trans (Volume.writes_ideWrite _ lba _)
  have writes := (allocated₁.writes.trans allocated₂.writes).trans putWrites
  have blocks := @dirBlocks_putTable part₂ inode entry lba tableLba tableSmall tableNe small ne apart
  have isSector : sectorOf (addEntrySize (setSector inode 12 tableLba)) 12 = tableLba := by
    show sectorOf (setSector inode 12 tableLba) 12 = _
    rw [sectorOf_setSector inode (by decide) (by decide) tableSmall, if_pos rfl]
  have own : ownBlocks (part₂.putTable tableLba lba (directBlocks inode) entry).disk
      (addEntrySize (setSector inode 12 tableLba)) =
        tableLba :: ((directBlocks inode).filter (· ≠ 0) ++ [lba]) := by
    rw [ownBlocks, tableBlock, isSector, if_pos tableNe, blocks]
    rfl
  have isOwn : ∀ old ∈ (directBlocks inode).filter (· ≠ 0), old ∈ dirBlocks part.disk inode := by
    intro old mem
    rw [dirBlocks, allBlocks_eq, List.filter_append]
    exact List.mem_append_left _ mem
  have nodup := owns.blocks_nodup
  rw [dirBlocks, allBlocks_eq, List.filter_append] at nodup
  refine ⟨⟨?_, fun block mem => ?_⟩, blocks, fun old isOld => ?_⟩
  · rw [own, List.nodup_cons, List.mem_append, List.mem_singleton, not_or]
    refine ⟨⟨fun mem => tableNotOwn (List.mem_append_right _ (isOwn _ mem)), apart⟩, ?_⟩
    rw [List.nodup_append]
    refine ⟨(List.nodup_append.mp nodup).1, List.nodup_singleton lba, fun old isOld new isNew => ?_⟩
    rintro rfl
    exact notOwn (List.mem_singleton.mp isNew ▸ List.mem_append_right _ (isOwn _ isOld))
  · have inUse : part₂.InUse block := by
      rw [own] at mem
      rcases List.mem_cons.mp mem with rfl | mem
      · exact allocated₂.others _ allocated₁.inUse
      · rcases List.mem_append.mp mem with old | isLba
        · have before := owns.inUse block (List.mem_append_right _ (isOwn _ old))
          exact allocated₂.others block (allocated₁.others block before)
        · rw [List.mem_singleton.mp isLba]
          exact allocated₂.inUse
    exact inUse.of_sameBitmap putWrites rfl
  · apply writes.disk old (owns.inUse old isOld).inData
    simp only [List.nil_append, List.mem_append, List.mem_singleton, not_or]
    exact ⟨fun isTable => tableNotOwn (isTable ▸ isOld), fun isLba => notOwn (isLba ▸ isOld)⟩

/-- The table is given up, and nothing is written. -/
theorem dropTable (writes : part.Writes part' []) (bitmap : part'.blockBitmap = part.blockBitmap) :
    OwnsBlocks part' (setSector inode 12 0) ∧
      dirBlocks part'.disk (setSector inode 12 0) = (directBlocks inode).filter (· ≠ 0) ∧
      ∀ old ∈ ownBlocks part.disk inode, part'.disk old = part.disk old := by
  have isSector : sectorOf (setSector inode 12 0) 12 = 0 := by
    rw [sectorOf_setSector inode (by decide) (by decide) (by decide), if_pos rfl]
  have blocks : dirBlocks part'.disk (setSector inode 12 0) = (directBlocks inode).filter (· ≠ 0) := by
    rw [dirBlocks_direct isSector, directBlocks_setTable inode (by decide)]
  have own : ownBlocks part'.disk (setSector inode 12 0) = (directBlocks inode).filter (· ≠ 0) := by
    rw [ownBlocks, tableBlock, if_neg (by simpa using isSector), blocks]
    rfl
  have nodup := owns.blocks_nodup
  rw [dirBlocks, allBlocks_eq, List.filter_append] at nodup
  refine ⟨⟨?_, fun block mem => ?_⟩, blocks, fun old isOld => ?_⟩
  · rw [own]
    exact (List.nodup_append.mp nodup).1
  · rw [own] at mem
    have isOwn : block ∈ ownBlocks part.disk inode := by
      rw [ownBlocks, dirBlocks, allBlocks_eq, List.filter_append]
      exact List.mem_append_right _ (List.mem_append_left _ mem)
    exact (owns.inUse block isOwn).of_sameBitmap writes bitmap
  · exact writes.disk old (owns.inUse old isOld).inData List.not_mem_nil

/-- A direct block is given back. -/
theorem freeDirect (wellFormed : part.WellFormed) {blockIdx : Nat} (direct : blockIdx < 12)
    (isBlock : sectorOf inode blockIdx ≠ 0)
    (same : inode'.iSectors = (setSector inode blockIdx 0).iSectors) :
    OwnsBlocks (part.freeBlock (sectorOf inode blockIdx)) inode' ∧
      (dirBlocks part.disk inode).Perm (sectorOf inode blockIdx ::
        dirBlocks (part.freeBlock (sectorOf inode blockIdx)).disk inode') ∧
      ∀ old ∈ ownBlocks part.disk inode,
        (part.freeBlock (sectorOf inode blockIdx)).disk old = part.disk old := by
  have mem : sectorOf inode blockIdx ∈ dirBlocks part.disk inode :=
    sectorOf_mem_dirBlocks direct isBlock
  have inUse := owns.inUse _ (List.mem_append_right _ mem)
  have writes := writes_freeBlock wellFormed inUse
  have sameDisk : ∀ old ∈ ownBlocks part.disk inode,
      (part.freeBlock (sectorOf inode blockIdx)).disk old = part.disk old :=
    fun old isOld => writes.disk old (owns.inUse old isOld).inData List.not_mem_nil
  have zeroSmall : 0 < 2 ^ 32 := by decide
  have isTable : sectorOf inode' 12 = sectorOf inode 12 := by
    rw [sectorOf_congr same, sectorOf_setSector inode (by omega) (by decide) zeroSmall, if_neg (by omega)]
  have isSet : allBlocks (part.freeBlock (sectorOf inode blockIdx)).disk (searchInode inode') =
      (allBlocks part.disk (searchInode inode)).set blockIdx 0 := by
    rw [← allBlocks_setSector direct zeroSmall fun isTable => sameDisk _ (table_mem_ownBlocks isTable),
      allBlocks_eq, allBlocks_eq, directBlocks_congr same,
      tableBlocks_congr (sectorOf_congr same 12) fun _ => rfl]
  have blocks : (dirBlocks part.disk inode).Perm (sectorOf inode blockIdx ::
      dirBlocks (part.freeBlock (sectorOf inode blockIdx)).disk inode') := by
    have isOld := @allBlocks_getElem? inode part.disk blockIdx direct
    have inside : blockIdx < (allBlocks part.disk (searchInode inode)).length :=
      (List.getElem?_eq_some_iff.mp isOld).1
    have isZero : ((allBlocks part.disk (searchInode inode)).set blockIdx 0)[blockIdx]? = some 0 :=
      List.getElem?_set_self inside
    have back : ((allBlocks part.disk (searchInode inode)).set blockIdx 0).set blockIdx
        (sectorOf inode blockIdx) = allBlocks part.disk (searchInode inode) := by
      rw [List.set_set, ← (List.getElem?_eq_some_iff.mp isOld).2, List.set_getElem_self]
    have step := @set_filter_perm_cons Nat _ blockIdx 0 (sectorOf inode blockIdx)
      (fun lba => decide (lba ≠ 0)) isZero (by simp) (by simpa using isBlock)
    rw [back] at step
    unfold dirBlocks
    rw [isSet]
    exact step
  have own : (ownBlocks part.disk inode).Perm (sectorOf inode blockIdx ::
      ownBlocks (part.freeBlock (sectorOf inode blockIdx)).disk inode') := by
    unfold ownBlocks
    rw [tableBlock_congr isTable]
    exact (blocks.append_left _).trans List.perm_middle
  have nodup := owns.nodup
  rw [own.nodup_iff, List.nodup_cons] at nodup
  refine ⟨⟨nodup.2, fun block isOwn => ?_⟩, blocks, sameDisk⟩
  have ne : block ≠ sectorOf inode blockIdx := fun isBlock => nodup.1 (isBlock ▸ isOwn)
  exact inUse_freeBlock wellFormed inUse
    (owns.inUse block (own.mem_iff.mpr (List.mem_cons_of_mem _ isOwn))) ne

end OwnsBlocks

end ZyOs.Fs
