import ZyOs.Fs.OwnBlocks

/-!
Contract: how `i_size` counts the entries of a directory, and which blocks have one.

`i_size` may count more than there is: an insertion makes a new table when the direct
blocks are full, and what the old one listed is lost but stays counted. Such a
directory is never found empty again, so it is enough that `i_size` counts no less,
and that each block but the first has an entry while it counts exactly.

Owns: `Accounted`, and that each change of a directory keeps it.

Does not own: what the entries are; names and numbers may repeat.
-/

namespace ZyOs.Fs

open ZyOs.Kernel ZyOs.Lib
open InodeTable (Inode)

variable {part part' part'' : Volume} {inode inode' : Inode} {entry : DirEntry} {disk disk' : Disk}
  {lba : Nat} {buf : Buf}

/-! ### Counting entries -/

/-- The entries in one block. -/
def liveIn (disk : Disk) (lba : Nat) : Nat := (liveAt (ideRead disk lba 1)).length

/-- The entries of a directory. -/
def liveCount (disk : Disk) (inode : Inode) : Nat := (liveEntries disk inode).length

/-- The blocks that the table lists. -/
def listedBlocks (disk : Disk) (inode : Inode) : List Nat := (tableBlocks disk inode).filter (· ≠ 0)

theorem dirBlocks_split (disk : Disk) (inode : Inode) :
    dirBlocks disk inode = (directBlocks inode).filter (· ≠ 0) ++ listedBlocks disk inode := by
  rw [dirBlocks, allBlocks_eq, List.filter_append, listedBlocks]

theorem liveIn_congr (same : disk' lba = disk lba) : liveIn disk' lba = liveIn disk lba := by
  unfold liveIn
  rw [ideRead_congr same]

theorem liveCount_of_perm {blocks : List Nat} (isPerm : (dirBlocks disk inode).Perm blocks) :
    liveCount disk inode = (blocks.map (liveIn disk)).sum := by
  rw [liveCount, liveEntries, List.length_flatMap]
  exact (isPerm.map _).sum_nat

theorem sum_liveIn_congr {blocks : List Nat} (same : ∀ lba ∈ blocks, disk' lba = disk lba) :
    (blocks.map (liveIn disk')).sum = (blocks.map (liveIn disk)).sum := by
  rw [List.map_congr_left fun lba mem => liveIn_congr (same lba mem)]

/-- Only one block has changed. -/
theorem liveCount_change (nodup : (dirBlocks disk inode).Nodup)
    (blocks : dirBlocks disk' inode' = dirBlocks disk inode) (mem : lba ∈ dirBlocks disk inode)
    (same : ∀ other ∈ dirBlocks disk inode, other ≠ lba → disk' other = disk other) :
    liveCount disk' inode' + liveIn disk lba = liveCount disk inode + liveIn disk' lba := by
  have isPerm := List.perm_cons_erase mem
  have others : (((dirBlocks disk inode).erase lba).map (liveIn disk')).sum =
      (((dirBlocks disk inode).erase lba).map (liveIn disk)).sum := by
    apply sum_liveIn_congr
    intro other isOther
    obtain ⟨ne, isIn⟩ := nodup.mem_erase_iff.mp isOther
    exact same other isIn ne
  have isPerm' : (dirBlocks disk' inode').Perm (lba :: (dirBlocks disk inode).erase lba) := by
    rw [blocks]
    exact isPerm
  rw [liveCount_of_perm isPerm', liveCount_of_perm isPerm, List.map_cons, List.sum_cons,
    List.map_cons, List.sum_cons, others]
  omega

/-- A block is added. -/
theorem liveCount_add (blocks : (dirBlocks disk' inode').Perm (lba :: dirBlocks disk inode))
    (same : ∀ old ∈ dirBlocks disk inode, disk' old = disk old) :
    liveCount disk' inode' = liveIn disk' lba + liveCount disk inode := by
  rw [liveCount_of_perm blocks, List.map_cons, List.sum_cons, sum_liveIn_congr same,
    ← liveCount_of_perm (List.Perm.refl _)]

/-! ### One sector -/

/-- A free slot is written: at most one entry more, and none less. -/
theorem liveAt_put {idx : Nat} (inside : idx < dirEntrysPerSec) (isFree : fTypeAt buf idx = 0) :
    (liveAt (memcpy buf (idx * dirEntrySize) entry.bytes dirEntrySize)).length ≤ (liveAt buf).length + 1 ∧
      ∀ other ∈ liveAt buf, other ∈ liveAt (memcpy buf (idx * dirEntrySize) entry.bytes dirEntrySize) := by
  by_cases isLive : fTypeAt (memcpy buf (idx * dirEntrySize) entry.bytes dirEntrySize) idx = 0
  · -- the entry has no type, and the slot stays free
    have sameIdxs : liveIdxs (memcpy buf (idx * dirEntrySize) entry.bytes dirEntrySize) = liveIdxs buf := by
      apply List.filter_congr
      intro other _
      by_cases isIdx : other = idx
      · rw [isIdx, isLive, isFree]
      · rw [(sameSlot_memcpy isIdx).fTypeAt]
    have same : liveAt (memcpy buf (idx * dirEntrySize) entry.bytes dirEntrySize) = liveAt buf := by
      unfold liveAt
      rw [sameIdxs]
      apply List.map_congr_left
      intro other mem
      have ne : other ≠ idx := fun isIdx => (mem_liveIdxs.mp mem).2 (isIdx ▸ isFree)
      exact (sameSlot_memcpy ne).dirEntryAt
    rw [same]
    exact ⟨Nat.le_succ _, fun _ mem => mem⟩
  · have gain := liveAt_gain inside isFree isLive fun other _ ne => sameSlot_memcpy ne
    exact ⟨gain.length_eq.le, fun other mem => gain.mem_iff.mpr (List.mem_cons_of_mem _ mem)⟩

theorem liveIn_ideWrite (part : Volume) (lba : Nat) (buf : Buf) :
    liveIn (part.ideWrite lba buf).disk lba = (liveAt buf).length :=
  congrArg List.length (liveAt_ideWrite part.disk lba buf)

theorem liveIn_newSector_le (part : Volume) (lba : Nat) (entry : DirEntry) :
    liveIn (part.ideWrite lba (newSector entry)).disk lba ≤ 1 := by
  have put := (@liveAt_put entry (fun _ => 0) 0 (by decide) rfl).1
  rw [liveIn_ideWrite, newSector_eq]
  rw [liveAt_zero] at put
  exact put

/-! ### What the calls keep up -/

/-- The blocks of a directory are its own, and the first has `.` and `..`. -/
structure Standing (part : Volume) (inode : Inode) : Prop where
  owns : OwnsBlocks part inode
  first : sectorOf inode 0 ≠ 0
  self : ∃ entry ∈ liveAt (ideRead part.disk (sectorOf inode 0) 1), entry.name = [dot]
  up : ∃ entry ∈ liveAt (ideRead part.disk (sectorOf inode 0) 1), entry.name = [dot, dot]

/-- Each block but the first has an entry, and a table lists a block. -/
structure Occupied (disk : Disk) (inode : Inode) : Prop where
  blocks : ∀ lba ∈ dirBlocks disk inode, lba ≠ sectorOf inode 0 → liveIn disk lba ≠ 0
  table : sectorOf inode 12 ≠ 0 → listedBlocks disk inode ≠ []

/-- `i_size` counts at least the entries; while it counts no more, the blocks are occupied. -/
def Counts (disk : Disk) (inode : Inode) : Prop :=
  ∃ count, inode.iSize.toNat = dirEntrySize * count ∧ liveCount disk inode ≤ count ∧
    (liveCount disk inode = count → Occupied disk inode)

/-- `i_size` has wrapped around. Every change of the directory now fails an `ASSERT`. -/
def Wrapped (inode : Inode) : Prop :=
  inode.iSize.toNat % dirEntrySize ≠ 0 ∧ inode.iSize.toNat < dirEntrySize

def Accounted (part : Volume) (inode : Inode) : Prop :=
  Wrapped inode ∨ (Standing part inode ∧ Counts part.disk inode)

theorem two_le_length {α : Type} {xs : List α} {a b : α} (ne : a ≠ b) (isA : a ∈ xs) (isB : b ∈ xs) :
    2 ≤ xs.length := by
  match xs, isA, isB with
  | [only], isA, isB => exact absurd ((List.mem_singleton.mp isA).trans (List.mem_singleton.mp isB).symm) ne
  | _ :: _ :: _, _, _ => exact Nat.le_add_left 2 _

theorem Standing.two_le (standing : Standing part inode) : 2 ≤ liveIn part.disk (sectorOf inode 0) := by
  obtain ⟨self, isSelf, selfName⟩ := standing.self
  obtain ⟨up, isUp, upName⟩ := standing.up
  refine two_le_length (fun same => ?_) isSelf isUp
  rw [same, upName] at selfName
  exact absurd selfName (by decide)

theorem Standing.first_mem (standing : Standing part inode) :
    sectorOf inode 0 ∈ dirBlocks part.disk inode :=
  sectorOf_mem_dirBlocks (by decide) standing.first

/-- A directory of two entries has its first block only. -/
theorem Accounted.single_block (accounted : Accounted part inode)
    (isEmpty : inode.iSize.toNat = dirEntrySize * 2) :
    ∀ idx, 1 ≤ idx → idx ≤ 12 → sectorOf inode idx = 0 := by
  rcases accounted with wrapped | ⟨standing, count, isSize, atMost, exact⟩
  · have small := wrapped.2
    omega
  have isTwo : count = 2 := by
    rw [isSize] at isEmpty
    exact Nat.eq_of_mul_eq_mul_left (by decide) isEmpty
  subst isTwo
  have isPerm := List.perm_cons_erase standing.first_mem
  have total := liveCount_of_perm isPerm
  rw [List.map_cons, List.sum_cons] at total
  have twoLe := standing.two_le
  have occupied := exact (by omega)
  -- there is nothing left for the other blocks
  have noOther : (dirBlocks part.disk inode).erase (sectorOf inode 0) = [] := by
    rw [List.eq_nil_iff_forall_not_mem]
    intro lba mem
    obtain ⟨ne, isIn⟩ := standing.owns.blocks_nodup.mem_erase_iff.mp mem
    have noneLeft : (((dirBlocks part.disk inode).erase (sectorOf inode 0)).map (liveIn part.disk)).sum = 0 := by
      omega
    exact occupied.blocks lba isIn ne
      (List.sum_eq_zero_iff_forall_eq_nat.mp noneLeft _ (List.mem_map_of_mem mem))
  rw [noOther] at isPerm
  have isOnly : dirBlocks part.disk inode = [sectorOf inode 0] := List.perm_singleton.mp isPerm
  intro idx low high
  by_contra isBlock
  by_cases direct : idx < 12
  · have mem := @sectorOf_mem_dirBlocks inode part.disk idx direct isBlock
    rw [isOnly, List.mem_singleton] at mem
    rw [← @allBlocks_getD inode part.disk idx direct] at isBlock mem
    rw [← @allBlocks_getD inode part.disk 0 (by decide)] at mem
    have isZero := standing.owns.index_unique isBlock mem
    omega
  · obtain rfl : idx = 12 := by omega
    have listed := List.length_pos_iff.mpr (occupied.table isBlock)
    have isDirect : sectorOf inode 0 ∈ (directBlocks inode).filter (· ≠ 0) := by
      rw [List.mem_filter]
      exact ⟨List.mem_map.mpr ⟨0, by decide, rfl⟩, by simpa using standing.first⟩
    have oneDirect := List.length_pos_of_mem isDirect
    have lengths := congrArg List.length (dirBlocks_split part.disk inode)
    rw [isOnly, List.length_append, List.length_singleton] at lengths
    omega

/-! ### The counts of a change -/

theorem Standing.of_owns (standing : Standing part inode) (owns : OwnsBlocks part' inode')
    (sameFirst : sectorOf inode' 0 = sectorOf inode 0)
    (keeps : ∀ entry ∈ liveAt (ideRead part.disk (sectorOf inode 0) 1), entry.isProper = false →
      entry ∈ liveAt (ideRead part'.disk (sectorOf inode 0) 1)) : Standing part' inode' where
  owns := owns
  first := by
    rw [sameFirst]
    exact standing.first
  self := by
    obtain ⟨self, mem, isDot⟩ := standing.self
    rw [sameFirst]
    exact ⟨self, keeps self mem (by simp [DirEntry.isProper, isDot]), isDot⟩
  up := by
    obtain ⟨up, mem, isDotDot⟩ := standing.up
    rw [sameFirst]
    exact ⟨up, keeps up mem (by simp [DirEntry.isProper, isDotDot]), isDotDot⟩

/-- The first block is as it was. -/
theorem Standing.of_sameFirst (standing : Standing part inode) (owns : OwnsBlocks part' inode')
    (sameFirst : sectorOf inode' 0 = sectorOf inode 0)
    (same : part'.disk (sectorOf inode 0) = part.disk (sectorOf inode 0)) : Standing part' inode' := by
  apply standing.of_owns owns sameFirst
  intro entry mem _
  rw [ideRead_congr same]
  exact mem

theorem Counts.grow (counts : Counts disk inode)
    (size : inode'.iSize = inode.iSize + UInt32.ofNat dirEntrySize)
    (more : liveCount disk' inode' ≤ liveCount disk inode + 1)
    (occupied : liveCount disk' inode' = liveCount disk inode + 1 → Occupied disk inode →
      Occupied disk' inode') : Wrapped inode' ∨ Counts disk' inode' := by
  obtain ⟨count, isSize, atMost, exact⟩ := counts
  have isSize' : inode'.iSize.toNat = (dirEntrySize * count + dirEntrySize) % 2 ^ 32 := by
    rw [size, UInt32.toNat_add, isSize]
    rfl
  have below := inode.iSize.toNat_lt
  rw [isSize] at below
  by_cases fits : dirEntrySize * count + dirEntrySize < 2 ^ 32
  · rw [Nat.mod_eq_of_lt fits] at isSize'
    refine .inr ⟨count + 1, isSize', by omega, fun same => occupied (by omega) (exact (by omega))⟩
  · left
    unfold Wrapped
    simp only [dirEntrySize] at *
    omega

theorem Counts.shrink (counts : Counts disk inode)
    (size : inode'.iSize = inode.iSize - UInt32.ofNat dirEntrySize)
    (less : liveCount disk' inode' < liveCount disk inode)
    (occupied : liveCount disk' inode' + 1 = liveCount disk inode → Occupied disk inode →
      Occupied disk' inode') : Counts disk' inode' := by
  obtain ⟨count, isSize, atMost, exact⟩ := counts
  obtain ⟨count, rfl⟩ : ∃ left, count = left + 1 := ⟨count - 1, by omega⟩
  have enough : UInt32.ofNat dirEntrySize ≤ inode.iSize := by
    rw [UInt32.le_iff_toNat_le, isSize, UInt32.toNat_ofNat']
    simp only [dirEntrySize]
    omega
  refine ⟨count, ?_, by omega, fun same => occupied (by omega) (exact (by omega))⟩
  rw [size, UInt32.toNat_sub_of_le _ _ enough, isSize, UInt32.toNat_ofNat']
  simp only [dirEntrySize]
  omega

theorem Counts.lose (counts : Counts disk inode) (size : inode'.iSize = inode.iSize)
    (less : liveCount disk' inode' ≤ liveCount disk inode)
    (occupied : liveCount disk' inode' = liveCount disk inode → Occupied disk inode →
      Occupied disk' inode') : Counts disk' inode' := by
  obtain ⟨count, isSize, atMost, exact⟩ := counts
  refine ⟨count, by rw [size, isSize], by omega, fun same => occupied (by omega) (exact (by omega))⟩

/-- The table is where it was. -/
theorem OwnsBlocks.listed_congr (sameTable : sectorOf inode' 12 = sectorOf inode 12)
    (same : ∀ old ∈ ownBlocks disk inode, disk' old = disk old) :
    listedBlocks disk' inode' = listedBlocks disk inode := by
  unfold listedBlocks
  rw [tableBlocks_congr sameTable fun isTable => same _ (table_mem_ownBlocks isTable)]

/-- The numbers of entries of a table and of the direct blocks. -/
theorem liveCount_split (disk : Disk) (inode : Inode) :
    liveCount disk inode = (((directBlocks inode).filter (· ≠ 0)).map (liveIn disk)).sum +
      ((listedBlocks disk inode).map (liveIn disk)).sum := by
  rw [liveCount_of_perm (List.Perm.of_eq (dirBlocks_split disk inode)), List.map_append, List.sum_append]

theorem direct_mem_dirBlocks (mem : lba ∈ (directBlocks inode).filter (· ≠ 0)) :
    lba ∈ dirBlocks disk inode := by
  rw [dirBlocks_split]
  exact List.mem_append_left _ mem

/-- One block is written, and its entries `.` and `..` stay. -/
theorem Standing.putBlock (standing : Standing part inode) (mem : lba ∈ dirBlocks part.disk inode)
    (sameSectors : inode'.iSectors = inode.iSectors)
    (keeps : ∀ entry ∈ liveAt (ideRead part.disk lba 1), entry.isProper = false → entry ∈ liveAt buf) :
    Standing (part.ideWrite lba buf) inode' ∧
      liveCount (part.ideWrite lba buf).disk inode' + liveIn part.disk lba =
        liveCount part.disk inode + (liveAt buf).length ∧
      (Occupied part.disk inode → (liveAt buf).length ≠ 0 → Occupied (part.ideWrite lba buf).disk inode') := by
  obtain ⟨owns, blocks, same⟩ := standing.owns.putBlock mem buf sameSectors
  have sameBlock : ∀ other ∈ dirBlocks part.disk inode, other ≠ lba →
      (part.ideWrite lba buf).disk other = part.disk other :=
    fun other isOther => same other (List.mem_append_right _ isOther)
  have change := liveCount_change standing.owns.blocks_nodup blocks mem sameBlock
  rw [liveIn_ideWrite] at change
  refine ⟨standing.of_owns owns (sectorOf_congr sameSectors 0) fun entry isLive notProper => ?_, change,
    fun occupied some => ⟨fun other isOther notFirst => ?_, fun isTable => ?_⟩⟩
  · by_cases isLba : sectorOf inode 0 = lba
    · rw [isLba] at isLive ⊢
      have isIn := keeps entry isLive notProper
      rw [← liveAt_ideWrite part.disk lba] at isIn
      exact isIn
    · rw [ideRead_congr (sameBlock _ standing.first_mem isLba)]
      exact isLive
  · rw [blocks] at isOther
    rw [sectorOf_congr sameSectors] at notFirst
    by_cases isLba : other = lba
    · rw [isLba, liveIn_ideWrite]
      exact some
    · rw [liveIn_congr (sameBlock other isOther isLba)]
      exact occupied.blocks other isOther notFirst
  · rw [sectorOf_congr sameSectors] at isTable
    have sameTable := same _ (table_mem_ownBlocks isTable) (standing.owns.table_ne mem isTable)
    unfold listedBlocks
    rw [tableBlocks_congr (sectorOf_congr sameSectors 12) fun _ => sameTable]
    exact occupied.table isTable

/-! ### Insertions -/

/-- An entry in a slot of a block. -/
theorem Standing.putEntry (standing : Standing part inode) (counts : Counts part.disk inode)
    (mem : lba ∈ dirBlocks part.disk inode) {idx : Nat} (inside : idx < dirEntrysPerSec)
    (isFree : fTypeAt (ideRead part.disk lba 1) idx = 0) :
    Accounted (part.putEntry lba idx entry) (addEntrySize inode) := by
  obtain ⟨more, keeps⟩ := @liveAt_put entry (ideRead part.disk lba 1) idx inside isFree
  obtain ⟨standing', change, occupied⟩ := @Standing.putBlock part inode (addEntrySize inode) lba _ standing mem
    rfl fun other isLive _ => keeps other isLive
  have before : liveIn part.disk lba = (liveAt (ideRead part.disk lba 1)).length := rfl
  have counts' : Wrapped (addEntrySize inode) ∨
      Counts (part.putEntry lba idx entry).disk (addEntrySize inode) := by
    unfold Volume.putEntry
    exact counts.grow rfl (by omega) fun added isOccupied => occupied isOccupied (by omega)
  exact counts'.imp_right fun counts' => ⟨standing', counts'⟩

/-- An entry in a new direct block. -/
theorem Standing.newDirect (standing : Standing part inode) (counts : Counts part.disk inode)
    (wellFormed : part.WellFormed) (allocated : part.Allocated part' lba) {blockIdx : Nat}
    (direct : blockIdx < 12) (notBlock : sectorOf inode blockIdx = 0) :
    Accounted (part'.ideWrite lba (newSector entry)) (addEntrySize (setSector inode blockIdx lba)) := by
  have small := allocated.inUse.lt (allocated.writes.wellFormed wellFormed)
  obtain ⟨owns, _, blocks, same⟩ := @OwnsBlocks.newDirect part part' inode
    (addEntrySize (setSector inode blockIdx lba)) lba standing.owns wellFormed allocated blockIdx direct
    notBlock (newSector entry) rfl
  have notZero : blockIdx ≠ 0 := fun isZero => standing.first (isZero ▸ notBlock)
  have sameSector : ∀ idx < 13, idx ≠ blockIdx →
      sectorOf (addEntrySize (setSector inode blockIdx lba)) idx = sectorOf inode idx := by
    intro idx inside ne
    show sectorOf (setSector inode blockIdx lba) idx = _
    rw [sectorOf_setSector inode (by omega) inside small, if_neg ne]
  have sameBlock : ∀ old ∈ dirBlocks part.disk inode,
      (part'.ideWrite lba (newSector entry)).disk old = part.disk old :=
    fun old isOld => same old (List.mem_append_right _ isOld)
  have change := liveCount_add blocks sameBlock
  have atMostOne := liveIn_newSector_le part' lba entry
  have standing' := standing.of_sameFirst owns (sameSector 0 (by decide) (Ne.symm notZero))
    (sameBlock _ standing.first_mem)
  have occupied' : liveCount (part'.ideWrite lba (newSector entry)).disk
        (addEntrySize (setSector inode blockIdx lba)) = liveCount part.disk inode + 1 →
      Occupied part.disk inode → Occupied (part'.ideWrite lba (newSector entry)).disk
        (addEntrySize (setSector inode blockIdx lba)) := by
    refine fun added occupied => ⟨fun other isOther notFirst => ?_, fun isTable => ?_⟩
    · rw [sameSector 0 (by decide) (Ne.symm notZero)] at notFirst
      rcases List.mem_cons.mp (blocks.mem_iff.mp isOther) with rfl | old
      · omega
      · rw [liveIn_congr (sameBlock other old)]
        exact occupied.blocks other old notFirst
    · have sameTable := sameSector 12 (by decide) (by omega)
      rw [OwnsBlocks.listed_congr sameTable same]
      rw [sameTable] at isTable
      exact occupied.table isTable
  exact (counts.grow rfl (by omega) occupied').imp_right fun counts' => ⟨standing', counts'⟩

/-- An entry in a new block of a new table. The entries of an old table are lost. -/
theorem Standing.newTable (standing : Standing part inode) (counts : Counts part.disk inode)
    (wellFormed : part.WellFormed) {tableLba : Nat} {part₁ part₂ : Volume}
    (allocated₁ : part.Allocated part₁ tableLba) (allocated₂ : part₁.Allocated part₂ lba) :
    Accounted (part₂.putTable tableLba lba (directBlocks inode) entry)
      (addEntrySize (setSector inode 12 tableLba)) := by
  have small := allocated₁.inUse.lt (allocated₁.writes.wellFormed wellFormed)
  obtain ⟨owns, blocks, same⟩ := @OwnsBlocks.newTable part inode entry lba standing.owns wellFormed tableLba
    part₁ part₂ allocated₁ allocated₂
  have sameFirst : sectorOf (addEntrySize (setSector inode 12 tableLba)) 0 = sectorOf inode 0 := by
    show sectorOf (setSector inode 12 tableLba) 0 = _
    rw [sectorOf_setSector inode (by decide) (by decide) small, if_neg (by decide)]
  have sameBlock : ∀ old ∈ dirBlocks part.disk inode,
      (part₂.putTable tableLba lba (directBlocks inode) entry).disk old = part.disk old :=
    fun old isOld => same old (List.mem_append_right _ isOld)
  have sameDirect : ∀ old ∈ (directBlocks inode).filter (· ≠ 0),
      (part₂.putTable tableLba lba (directBlocks inode) entry).disk old = part.disk old :=
    fun old isOld => sameBlock old (direct_mem_dirBlocks isOld)
  have change := liveCount_of_perm (List.Perm.of_eq blocks)
  rw [List.map_append, List.sum_append, sum_liveIn_congr sameDirect, List.map_singleton,
    List.sum_singleton] at change
  have before := liveCount_split part.disk inode
  have atMostOne : liveIn (part₂.putTable tableLba lba (directBlocks inode) entry).disk lba ≤ 1 :=
    liveIn_newSector_le _ lba entry
  have standing' := standing.of_sameFirst owns sameFirst (sameBlock _ standing.first_mem)
  have occupied' : liveCount (part₂.putTable tableLba lba (directBlocks inode) entry).disk
        (addEntrySize (setSector inode 12 tableLba)) = liveCount part.disk inode + 1 →
      Occupied part.disk inode → Occupied (part₂.putTable tableLba lba (directBlocks inode) entry).disk
        (addEntrySize (setSector inode 12 tableLba)) := by
    refine fun added occupied => ⟨fun other isOther notFirst => ?_, fun _ isNil => ?_⟩
    · rw [sameFirst] at notFirst
      rw [blocks] at isOther
      rcases List.mem_append.mp isOther with old | isNew
      · rw [liveIn_congr (sameDirect other old)]
        exact occupied.blocks other (direct_mem_dirBlocks old) notFirst
      · rw [List.mem_singleton.mp isNew]
        omega
    · have isDirect : directBlocks (addEntrySize (setSector inode 12 tableLba)) = directBlocks inode :=
        directBlocks_setTable inode small
      have split := dirBlocks_split (part₂.putTable tableLba lba (directBlocks inode) entry).disk
        (addEntrySize (setSector inode 12 tableLba))
      rw [blocks, isDirect, isNil, List.append_nil] at split
      exact absurd (congrArg List.length split) (by simp)
  exact (counts.grow rfl (by omega) occupied').imp_right fun counts' => ⟨standing', counts'⟩

/-- A table that is given up. -/
theorem Standing.dropTable (standing : Standing part inode) (counts : Counts part.disk inode)
    (writes : part.Writes part' []) (bitmap : part'.blockBitmap = part.blockBitmap) :
    Standing part' (setSector inode 12 0) ∧ Counts part'.disk (setSector inode 12 0) := by
  obtain ⟨owns, blocks, same⟩ := standing.owns.dropTable writes bitmap
  have sameFirst : sectorOf (setSector inode 12 0) 0 = sectorOf inode 0 := by
    rw [sectorOf_setSector inode (by decide) (by decide) (by decide), if_neg (by decide)]
  have noTable : sectorOf (setSector inode 12 0) 12 = 0 := by
    rw [sectorOf_setSector inode (by decide) (by decide) (by decide), if_pos rfl]
  have sameDirect : ∀ old ∈ (directBlocks inode).filter (· ≠ 0), part'.disk old = part.disk old :=
    fun old isOld => same old (List.mem_append_right _ (direct_mem_dirBlocks isOld))
  have change := liveCount_of_perm (List.Perm.of_eq blocks)
  rw [sum_liveIn_congr sameDirect] at change
  have before := liveCount_split part.disk inode
  refine ⟨standing.of_sameFirst owns sameFirst (same _ (List.mem_append_right _ standing.first_mem)),
    counts.lose rfl (by omega)
      fun _ occupied => ⟨fun other isOther notFirst => ?_, fun isTable => absurd noTable isTable⟩⟩
  rw [sameFirst] at notFirst
  rw [blocks] at isOther
  rw [liveIn_congr (sameDirect other isOther)]
  exact occupied.blocks other (direct_mem_dirBlocks isOther) notFirst

/-! ### Deletions -/

theorem properSlot_of_matches {idx n : Nat} (isMatch : matchesSlot buf n idx = true) :
    fTypeAt buf idx ≠ 0 ∧ (dirEntryAt buf idx).isProper = true := by
  simp only [matchesSlot, properSlot, decide_eq_true_eq] at isMatch
  exact isMatch.1

/-- A block that is not given back has a second entry: a proper one, or `.`. -/
theorem two_le_liveAt {idx : Nat} (inside : idx < dirEntrysPerSec) (isLive : fTypeAt buf idx ≠ 0)
    (isProper : (dirEntryAt buf idx).isProper = true)
    (another : ¬(((List.range dirEntrysPerSec).filter (properSlot buf)).length = 1 ∧
      (List.range dirEntrysPerSec).any (dotSlot buf) = false)) : 2 ≤ (liveAt buf).length := by
  have isSlot : idx ∈ (List.range dirEntrysPerSec).filter (properSlot buf) :=
    List.mem_filter.mpr ⟨List.mem_range.mpr inside, decide_eq_true ⟨isLive, isProper⟩⟩
  rw [liveAt, List.length_map]
  by_cases isOne : ((List.range dirEntrysPerSec).filter (properSlot buf)).length = 1
  · have isDot : (List.range dirEntrysPerSec).any (dotSlot buf) = true := by
      by_contra noDot
      exact another ⟨isOne, by simpa using noDot⟩
    obtain ⟨other, otherInside, isDotSlot⟩ := List.any_eq_true.mp isDot
    simp only [dotSlot, decide_eq_true_eq] at isDotSlot
    refine two_le_length (fun same => ?_) (mem_liveIdxs.mpr ⟨inside, isLive⟩)
      (mem_liveIdxs.mpr ⟨List.mem_range.mp otherInside, isDotSlot.1⟩)
    rw [same] at isProper
    simp [DirEntry.isProper, isDotSlot.2] at isProper
  · have some := List.length_pos_of_mem isSlot
    have atMost : ((List.range dirEntrysPerSec).filter (properSlot buf)).length ≤ (liveIdxs buf).length := by
      rw [liveIdxs, ← List.countP_eq_length_filter, ← List.countP_eq_length_filter]
      apply List.countP_mono_left
      intro other _ isProperSlot
      simp only [properSlot, decide_eq_true_eq] at isProperSlot
      exact decide_eq_true isProperSlot.1
    omega

/-- The slot of an entry is cleared, in a block that has another. -/
theorem Standing.clearEntry (standing : Standing part inode) (counts : Counts part.disk inode)
    (mem : lba ∈ dirBlocks part.disk inode) {idx n : Nat} (inside : idx < dirEntrysPerSec)
    (isMatch : matchesSlot (ideRead part.disk lba 1) n idx = true)
    (another : ¬(((List.range dirEntrysPerSec).filter (properSlot (ideRead part.disk lba 1))).length = 1 ∧
      (List.range dirEntrysPerSec).any (dotSlot (ideRead part.disk lba 1)) = false)) :
    Standing (part.clearEntry lba idx) (subEntrySize inode) ∧
      Counts (part.clearEntry lba idx).disk (subEntrySize inode) := by
  obtain ⟨isLive, isProper⟩ := properSlot_of_matches isMatch
  have two := two_le_liveAt inside isLive isProper another
  have loses := @liveAt_clearEntry part lba idx inside isLive
  have isRead : liveAt (ideRead (part.clearEntry lba idx).disk lba 1) =
      liveAt (memset (ideRead part.disk lba 1) (idx * dirEntrySize) 0 dirEntrySize) :=
    liveAt_ideWrite part.disk lba _
  rw [isRead] at loses
  have left := loses.length_eq
  rw [List.length_cons] at left
  have before : liveIn part.disk lba = (liveAt (ideRead part.disk lba 1)).length := rfl
  obtain ⟨standing', change, occupied⟩ := @Standing.putBlock part inode (subEntrySize inode) lba
    (memset (ideRead part.disk lba 1) (idx * dirEntrySize) 0 dirEntrySize) standing mem rfl (by
      intro other isOther notProper
      rcases List.mem_cons.mp (loses.mem_iff.mp isOther) with isEntry | rest
      · rw [isEntry, isProper] at notProper
        cases notProper
      · exact rest)
  refine ⟨standing', counts.shrink rfl ?_ fun _ isOccupied => occupied isOccupied (by omega)⟩
  unfold Volume.clearEntry
  omega

/-- A direct block is given back, with what it holds. -/
theorem Standing.freeDirect (standing : Standing part inode) (counts : Counts part.disk inode)
    (wellFormed : part.WellFormed) {blockIdx : Nat} (direct : blockIdx < 12)
    (isBlock : sectorOf inode blockIdx ≠ 0) (notFirst : blockIdx ≠ 0)
    (some : liveIn part.disk (sectorOf inode blockIdx) ≠ 0) :
    Standing (part.freeBlock (sectorOf inode blockIdx)) (subEntrySize (setSector inode blockIdx 0)) ∧
      Counts (part.freeBlock (sectorOf inode blockIdx)).disk
        (subEntrySize (setSector inode blockIdx 0)) := by
  obtain ⟨owns, blocks, same⟩ := @OwnsBlocks.freeDirect part inode
    (subEntrySize (setSector inode blockIdx 0)) standing.owns wellFormed blockIdx direct isBlock rfl
  have sameSector : ∀ idx < 13, idx ≠ blockIdx →
      sectorOf (subEntrySize (setSector inode blockIdx 0)) idx = sectorOf inode idx := by
    intro idx inside ne
    show sectorOf (setSector inode blockIdx 0) idx = _
    rw [sectorOf_setSector inode (by omega) inside (by decide), if_neg ne]
  have sameBlock : ∀ old ∈ dirBlocks part.disk inode,
      (part.freeBlock (sectorOf inode blockIdx)).disk old = part.disk old :=
    fun old isOld => same old (List.mem_append_right _ isOld)
  have isOld : ∀ old ∈ dirBlocks (part.freeBlock (sectorOf inode blockIdx)).disk
      (subEntrySize (setSector inode blockIdx 0)), old ∈ dirBlocks part.disk inode :=
    fun old mem => blocks.mem_iff.mpr (List.mem_cons_of_mem _ mem)
  have change := liveCount_add blocks fun old mem => (sameBlock old (isOld old mem)).symm
  have standing' := standing.of_sameFirst owns (sameSector 0 (by decide) (Ne.symm notFirst))
    (sameBlock _ standing.first_mem)
  refine ⟨standing', counts.shrink rfl (by omega) fun _ occupied => ⟨fun other isOther ne => ?_,
    fun isTable => ?_⟩⟩
  · rw [sameSector 0 (by decide) (Ne.symm notFirst)] at ne
    rw [liveIn_congr (sameBlock other (isOld other isOther))]
    exact occupied.blocks other (isOld other isOther) ne
  · have sameTable := sameSector 12 (by decide) (by omega)
    rw [OwnsBlocks.listed_congr sameTable same]
    rw [sameTable] at isTable
    exact occupied.table isTable

end ZyOs.Fs
