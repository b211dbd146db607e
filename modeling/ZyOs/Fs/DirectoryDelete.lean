import ZyOs.Fs.DirectoryInsert

/-!
Contract: what `delete_dir_entry` does to the live entries of a directory.

Owns: that a deletion of an entry in a direct block keeps `IsDirectory` and takes
that entry away: its slot is cleared, or its block is given back when it was the
only entry there.

An entry in a block of the table is the only one of its block, and the deletion of
it does not end.
-/

namespace ZyOs.Fs

open ZyOs.Kernel ZyOs.Lib
open InodeTable (Inode)

variable {part part' : Volume} {inode inode' : Inode} {entry : DirEntry} {disk disk' : Disk} {lba : Nat}

/-! ### The scan of a sector -/

/-- A slot with an entry other than `.` and `..`. -/
def properSlot (buf : Buf) (idx : Nat) : Bool := fTypeAt buf idx ≠ 0 ∧ (dirEntryAt buf idx).isProper

/-- A slot with such an entry that has the number. -/
def matchesSlot (buf : Buf) (inodeNo idx : Nat) : Bool :=
  properSlot buf idx ∧ (dirEntryAt buf idx).iNo = inodeNo

def dotSlot (buf : Buf) (idx : Nat) : Bool := fTypeAt buf idx ≠ 0 ∧ (dirEntryAt buf idx).name = [dot]

/-- The scan counts the proper slots, and finds the one that matches. -/
theorem scanSector_eq {buf : Buf} {inodeNo : Nat} {idxs : List Nat} (nodup : idxs.Nodup)
    (single : ∀ idx ∈ idxs, ∀ other ∈ idxs, matchesSlot buf inodeNo idx = true →
      matchesSlot buf inodeNo other = true → idx = other)
    {scan : SectorScan}
    (once : scan.dirEntryFound ≠ none → ∀ idx ∈ idxs, matchesSlot buf inodeNo idx = false) :
    scanSector buf inodeNo idxs scan =
      some ⟨scan.dirEntryCnt + (idxs.filter (properSlot buf)).length,
        scan.isDirFirstBlock || idxs.any (dotSlot buf),
        scan.dirEntryFound.or (idxs.find? (matchesSlot buf inodeNo))⟩ := by
  induction idxs generalizing scan with
  | nil => simp [scanSector]
  | cons idx idxs inductionHypothesis =>
      obtain ⟨notMem, nodup⟩ := List.nodup_cons.mp nodup
      have single' : ∀ idx ∈ idxs, ∀ other ∈ idxs, matchesSlot buf inodeNo idx = true →
          matchesSlot buf inodeNo other = true → idx = other :=
        fun idx mem other otherMem =>
          single idx (List.mem_cons_of_mem _ mem) other (List.mem_cons_of_mem _ otherMem)
      have once' : scan.dirEntryFound ≠ none → ∀ idx ∈ idxs, matchesSlot buf inodeNo idx = false :=
        fun isFound idx mem => once isFound idx (List.mem_cons_of_mem _ mem)
      unfold scanSector
      dsimp only
      by_cases isLive : fTypeAt buf idx ≠ 0
      · rw [if_pos isLive]
        by_cases isDot : (dirEntryAt buf idx).name = [dot]
        · have notProper : properSlot buf idx = false := by
            simp [properSlot, DirEntry.isProper, isDot]
          have notMatch : matchesSlot buf inodeNo idx = false := by simp [matchesSlot, notProper]
          have isDotSlot : dotSlot buf idx = true := by simp [dotSlot, isLive, isDot]
          have rest := @inductionHypothesis nodup single' { scan with isDirFirstBlock := true } once'
          rw [if_pos isDot, rest,
            List.filter_cons_of_neg (by simp [notProper]), List.any_cons, isDotSlot,
            List.find?_cons_of_neg (by simp [notMatch])]
          simp
        · have notDot : dotSlot buf idx = false := by simp [dotSlot, isDot]
          rw [if_neg isDot, List.any_cons, notDot, Bool.false_or]
          by_cases proper : (dirEntryAt buf idx).name ≠ [dot] ∧ (dirEntryAt buf idx).name ≠ [dot, dot]
          · have isProper : properSlot buf idx = true := by
              simp [properSlot, DirEntry.isProper, isLive, proper]
            rw [if_pos proper, List.filter_cons_of_pos isProper, List.length_cons]
            by_cases isNumber : (dirEntryAt buf idx).iNo = inodeNo
            · have isMatch : matchesSlot buf inodeNo idx = true := by
                simp [matchesSlot, isProper, isNumber]
              have notFound : scan.dirEntryFound = none := by
                by_contra isFound
                have notMatch := once isFound idx List.mem_cons_self
                rw [isMatch] at notMatch
                cases notMatch
              have noOther : ∀ other ∈ idxs, matchesSlot buf inodeNo other = false := by
                intro other mem
                by_contra isOther
                have same := single idx List.mem_cons_self other (List.mem_cons_of_mem _ mem) isMatch
                  (by simpa using isOther)
                exact notMem (same ▸ mem)
              rw [if_pos isNumber, if_pos notFound, inductionHypothesis nodup single' fun _ => noOther,
                List.find?_cons_of_pos isMatch, notFound]
              simp only [Option.none_or, Option.some_or]
              congr 2
              omega
            · have notMatch : matchesSlot buf inodeNo idx = false := by simp [matchesSlot, isNumber]
              have rest := @inductionHypothesis nodup single'
                { scan with dirEntryCnt := scan.dirEntryCnt + 1 } once'
              rw [if_neg isNumber, rest, List.find?_cons_of_neg (by simp [notMatch])]
              dsimp only
              congr 2
              omega
          · have notProper : properSlot buf idx = false := by
              simp only [properSlot, DirEntry.isProper, proper, decide_false]
              simp
            have notMatch : matchesSlot buf inodeNo idx = false := by simp [matchesSlot, notProper]
            rw [if_neg proper, inductionHypothesis nodup single' once',
              List.filter_cons_of_neg (by simp [notProper]),
              List.find?_cons_of_neg (by simp [notMatch])]
      · have notProper : properSlot buf idx = false := by simp [properSlot, isLive]
        have notMatch : matchesSlot buf inodeNo idx = false := by simp [matchesSlot, notProper]
        have notDot : dotSlot buf idx = false := by simp [dotSlot, isLive]
        rw [if_neg isLive, inductionHypothesis nodup single' once', List.any_cons, notDot,
          Bool.false_or, List.filter_cons_of_neg (by simp [notProper]),
          List.find?_cons_of_neg (by simp [notMatch])]

/-! ### One entry for a number -/

/-- The numbers of the proper entries of a sector. -/
def numbersAt (buf : Buf) : List Nat := ((liveAt buf).filter DirEntry.isProper).map DirEntry.iNo

theorem numbersAt_eq (buf : Buf) :
    numbersAt buf = ((List.range dirEntrysPerSec).filter (properSlot buf)).map fun idx =>
      (dirEntryAt buf idx).iNo := by
  unfold numbersAt liveAt liveIdxs
  rw [List.filter_map, List.filter_filter, List.map_map]
  congr 1
  apply List.filter_congr
  intro idx _
  by_cases isLive : fTypeAt buf idx = 0
  · simp [properSlot, isLive]
  · simp [properSlot, isLive]

theorem mem_numbersAt {buf : Buf} {inodeNo idx : Nat} (inside : idx < dirEntrysPerSec)
    (isMatch : matchesSlot buf inodeNo idx = true) : inodeNo ∈ numbersAt buf := by
  simp only [matchesSlot, decide_eq_true_eq] at isMatch
  rw [numbersAt_eq]
  exact List.mem_map.mpr
    ⟨idx, List.mem_filter.mpr ⟨List.mem_range.mpr inside, isMatch.1⟩, isMatch.2⟩

theorem IsDirectory.numbers_blocks (isDir : IsDirectory part inode) :
    ((dirBlocks part.disk inode).flatMap fun lba => numbersAt (ideRead part.disk lba 1)).Nodup := by
  have numbers := isDir.numbers
  unfold liveEntries at numbers
  rw [List.filter_flatMap, List.map_flatMap] at numbers
  exact numbers

/-- In a sector one slot matches. -/
theorem IsDirectory.slot_unique (isDir : IsDirectory part inode)
    (mem : lba ∈ dirBlocks part.disk inode) {inodeNo : Nat} :
    ∀ idx ∈ List.range dirEntrysPerSec, ∀ other ∈ List.range dirEntrysPerSec,
      matchesSlot (ideRead part.disk lba 1) inodeNo idx = true →
      matchesSlot (ideRead part.disk lba 1) inodeNo other = true → idx = other := by
  intro idx inside other otherInside isMatch otherMatch
  have nodup := (List.nodup_flatMap.mp isDir.numbers_blocks).1 lba mem
  rw [numbersAt_eq] at nodup
  simp only [matchesSlot, decide_eq_true_eq] at isMatch otherMatch
  exact List.inj_on_of_nodup_map nodup (List.mem_filter.mpr ⟨inside, isMatch.1⟩)
    (List.mem_filter.mpr ⟨otherInside, otherMatch.1⟩) (isMatch.2.trans otherMatch.2.symm)

/-- The slots that match are in one block. -/
theorem IsDirectory.block_unique (isDir : IsDirectory part inode)
    (mem : lba ∈ dirBlocks part.disk inode) {lba' : Nat} (mem' : lba' ∈ dirBlocks part.disk inode)
    {inodeNo idx idx' : Nat} (inside : idx < dirEntrysPerSec)
    (isMatch : matchesSlot (ideRead part.disk lba 1) inodeNo idx = true)
    (inside' : idx' < dirEntrysPerSec)
    (isMatch' : matchesSlot (ideRead part.disk lba' 1) inodeNo idx' = true) : lba = lba' := by
  by_contra apart
  have disjoint := (List.nodup_flatMap.mp isDir.numbers_blocks).2
  have symmetric : Std.Symm (Function.onFun List.Disjoint fun lba =>
      numbersAt (ideRead part.disk lba 1)) := ⟨fun _ _ apart _ inFirst inSecond => apart inSecond inFirst⟩
  exact disjoint.forall mem mem' apart (mem_numbersAt inside isMatch) (mem_numbersAt inside' isMatch')

/-! ### The invariant after a deletion -/

/-- A proper entry has been taken out of a directory. -/
theorem IsDirectory.lose (isDir : IsDirectory part inode) (proper : entry.isProper = true)
    (loses : (liveEntries part.disk inode).Perm (entry :: liveEntries part'.disk inode'))
    (nodup : (ownBlocks part'.disk inode').Nodup)
    (inUse : ∀ lba ∈ ownBlocks part'.disk inode', part'.InUse lba)
    (cleared : ∀ lba ∈ dirBlocks part'.disk inode', Cleared (ideRead part'.disk lba 1))
    (size : inode'.iSize = inode.iSize - UInt32.ofNat dirEntrySize)
    (sameFirst : sectorOf inode' 0 = sectorOf inode 0)
    (origin : ∀ lba ∈ dirBlocks part'.disk inode', ∀ other ∈ liveAt (ideRead part'.disk lba 1),
      lba ∈ dirBlocks part.disk inode ∧ other ∈ liveAt (ideRead part.disk lba 1))
    (keeps : ∀ other ∈ liveAt (ideRead part.disk (sectorOf inode 0) 1), other.isProper = false →
      other ∈ liveAt (ideRead part'.disk (sectorOf inode 0) 1)) :
    IsDirectory part' inode' where
  nodup := nodup
  inUse := inUse
  cleared := cleared
  names := by
    have names := isDir.names
    rw [(loses.map DirEntry.name).nodup_iff, List.map_cons] at names
    exact (List.nodup_cons.mp names).2
  numbers := by
    have numbers := isDir.numbers
    rw [((loses.filter DirEntry.isProper).map DirEntry.iNo).nodup_iff,
      List.filter_cons_of_pos proper, List.map_cons] at numbers
    exact (List.nodup_cons.mp numbers).2
  size := by
    have atMost := length_liveEntries_le part.disk inode
    have perSec : dirEntrysPerSec = 21 := by decide
    have isSize := isDir.size
    rw [loses.length_eq, List.length_cons] at isSize atMost
    have enough : UInt32.ofNat dirEntrySize ≤ inode.iSize := by
      rw [UInt32.le_iff_toNat_le, isSize, UInt32.toNat_ofNat']
      simp only [dirEntrySize]
      omega
    rw [size, UInt32.toNat_sub_of_le _ _ enough, isSize, UInt32.toNat_ofNat']
    simp only [dirEntrySize]
    omega
  first := by
    rw [sameFirst]
    exact isDir.first
  self := by
    obtain ⟨self, mem, isDot⟩ := isDir.self
    rw [sameFirst]
    exact ⟨self, keeps self mem (by simp [DirEntry.isProper, isDot]), isDot⟩
  up := by
    obtain ⟨up, mem, isDotDot⟩ := isDir.up
    rw [sameFirst]
    exact ⟨up, keeps up mem (by simp [DirEntry.isProper, isDotDot]), isDotDot⟩
  dotsFirst := by
    intro lba mem notFirst other isOther
    rw [sameFirst] at notFirst
    obtain ⟨oldBlock, oldEntry⟩ := origin lba mem other isOther
    exact isDir.dotsFirst lba oldBlock notFirst other oldEntry

theorem SameSlot.symm {buf buf' : Buf} {idx : Nat} (same : SameSlot buf buf' idx) :
    SameSlot buf' buf idx :=
  fun k small => (same k small).symm

theorem liveAt_clearEntry {idx : Nat} (inside : idx < dirEntrysPerSec)
    (isLive : fTypeAt (ideRead part.disk lba 1) idx ≠ 0) :
    (liveAt (ideRead part.disk lba 1)).Perm
      (dirEntryAt (ideRead part.disk lba 1) idx ::
        liveAt (ideRead (part.clearEntry lba idx).disk lba 1)) := by
  have isRead : liveAt (ideRead (part.clearEntry lba idx).disk lba 1) =
      liveAt (memset (ideRead part.disk lba 1) (idx * dirEntrySize) 0 dirEntrySize) :=
    liveAt_ideWrite _ _ _
  rw [isRead]
  exact liveAt_gain inside (fTypeAt_clear _ idx) isLive fun other _ ne => (sameSlot_memcpy ne).symm

theorem cleared_clear {buf : Buf} {idx : Nat} (cleared : Cleared buf) :
    Cleared (memset buf (idx * dirEntrySize) 0 dirEntrySize) := by
  intro other inside isFree
  by_cases isIdx : other = idx
  · rw [isIdx]
    exact name_clear buf idx
  · have same := @sameSlot_memcpy buf (fun _ => 0) idx other isIdx
    unfold memset at isFree ⊢
    rw [same.dirEntryAt]
    rw [same.fTypeAt] at isFree
    exact cleared other inside isFree

/-- The slot of an entry is cleared. -/
theorem IsDirectory.clearEntry (isDir : IsDirectory part inode)
    (mem : lba ∈ dirBlocks part.disk inode) {idx : Nat} (inside : idx < dirEntrysPerSec)
    (isLive : fTypeAt (ideRead part.disk lba 1) idx ≠ 0)
    (proper : (dirEntryAt (ideRead part.disk lba 1) idx).isProper = true) :
    IsDirectory (part.clearEntry lba idx) (subEntrySize inode) ∧
      (liveEntries part.disk inode).Perm (dirEntryAt (ideRead part.disk lba 1) idx ::
        liveEntries (part.clearEntry lba idx).disk (subEntrySize inode)) := by
  have writes := Volume.writes_ideWrite part lba
    (memset (ideRead part.disk lba 1) (idx * dirEntrySize) 0 dirEntrySize)
  have same : ∀ other ∈ ownBlocks part.disk inode, other ≠ lba →
      (part.clearEntry lba idx).disk other = part.disk other := by
    intro other isOther ne
    exact writes.disk other (isDir.inUse other isOther).inData (by simpa using ne)
  have blocks : dirBlocks (part.clearEntry lba idx).disk (subEntrySize inode) =
      dirBlocks part.disk inode :=
    dirBlocks_congr rfl rfl fun isTable =>
      same _ (table_mem_ownBlocks isTable) (isDir.table_ne mem isTable)
  have sameBlock : ∀ other ∈ dirBlocks part.disk inode, other ≠ lba →
      (part.clearEntry lba idx).disk other = part.disk other :=
    fun other isOther => same other (List.mem_append_right _ isOther)
  have slots := @liveAt_clearEntry part lba idx inside isLive
  have loses : (liveEntries part.disk inode).Perm (dirEntryAt (ideRead part.disk lba 1) idx ::
      liveEntries (part.clearEntry lba idx).disk (subEntrySize inode)) := by
    have nodup : (dirBlocks (part.clearEntry lba idx).disk (subEntrySize inode)).Nodup := by
      rw [blocks]
      exact isDir.blocks_nodup
    have isIn : lba ∈ dirBlocks (part.clearEntry lba idx).disk (subEntrySize inode) := by
      rw [blocks]
      exact mem
    apply liveEntries_gain nodup blocks.symm isIn slots
    intro other isOther ne
    rw [blocks] at isOther
    exact (sameBlock other isOther ne).symm
  have own : ownBlocks (part.clearEntry lba idx).disk (subEntrySize inode) =
      ownBlocks part.disk inode := by
    unfold ownBlocks
    rw [blocks]
    rfl
  refine ⟨isDir.lose proper loses ?_ ?_ ?_ rfl rfl ?_ ?_, loses⟩
  · rw [own]
    exact isDir.nodup
  · rw [own]
    exact fun block isOwn => (isDir.inUse block isOwn).of_sameBitmap writes rfl
  · rw [blocks]
    intro other isOther
    by_cases isLba : other = lba
    · rw [isLba]
      exact cleared_ideWrite (cleared_clear (isDir.cleared _ mem)) _ _
    · rw [ideRead_congr (sameBlock other isOther isLba)]
      exact isDir.cleared other isOther
  · rw [blocks]
    intro other isOther live isIn
    refine ⟨isOther, ?_⟩
    by_cases isLba : other = lba
    · rw [isLba] at isIn ⊢
      exact slots.mem_iff.mpr (List.mem_cons_of_mem _ isIn)
    · rw [ideRead_congr (sameBlock other isOther isLba)] at isIn
      exact isIn
  · intro other isIn notProper
    by_cases isLba : sectorOf inode 0 = lba
    · rw [isLba] at isIn ⊢
      rcases List.mem_cons.mp (slots.mem_iff.mp isIn) with isEntry | rest
      · rw [← isEntry, notProper] at proper
        cases proper
      · exact rest
    · rw [ideRead_congr (sameBlock _ (sectorOf_mem_dirBlocks (by decide) isDir.first) isLba)]
      exact isIn

/-! ### A block that is given back -/

/-- The volume after a block is given back. -/
def Volume.freeBlock (part : Volume) (lba : Nat) : Volume :=
  (part.setBlockBit (lba - part.dataStartLba) false).bitmapSync (lba - part.dataStartLba) .block

theorem writes_freeBlock (wellFormed : part.WellFormed) (inUse : part.InUse lba) :
    part.Writes (part.freeBlock lba) [] :=
  (Volume.writes_setBlockBit part _ false).trans
    (Volume.writes_bitmapSync ((Volume.writes_setBlockBit part _ false).wellFormed wellFormed)
      inUse.inside)

theorem inUse_freeBlock (wellFormed : part.WellFormed) (inUse : part.InUse lba) {other : Nat}
    (otherInUse : part.InUse other) (ne : other ≠ lba) : (part.freeBlock lba).InUse other := by
  apply otherInUse.congr (writes_freeBlock wellFormed inUse)
  have bits : bitmapScanTest (part.freeBlock lba).blockBitmap (other - part.dataStartLba) =
      if other - part.dataStartLba = lba - part.dataStartLba then false
      else bitmapScanTest part.blockBitmap (other - part.dataStartLba) :=
    bitmapScanTest_bitmapSet part.blockBitmap _ _ false
  have inData := inUse.inData
  have otherInData := otherInUse.inData
  rw [bits, if_neg (by omega)]

/-- A directory without one of its blocks. -/
theorem dirBlocks_setSector_zero {blockIdx : Nat} (direct : blockIdx < 12) (isBlock : sectorOf inode blockIdx ≠ 0)
    (sameTable : sectorOf inode 12 ≠ 0 → disk' (sectorOf inode 12) = disk (sectorOf inode 12)) :
    (dirBlocks disk inode).Perm (sectorOf inode blockIdx ::
      dirBlocks disk' (subEntrySize (setSector inode blockIdx 0))) := by
  have isSet : allBlocks disk' (searchInode (subEntrySize (setSector inode blockIdx 0))) =
      (allBlocks disk (searchInode inode)).set blockIdx 0 :=
    allBlocks_setSector direct (by decide) sameTable
  have isOld := @allBlocks_getElem? inode disk blockIdx direct
  have inside : blockIdx < (allBlocks disk (searchInode inode)).length :=
    (List.getElem?_eq_some_iff.mp isOld).1
  have isZero : ((allBlocks disk (searchInode inode)).set blockIdx 0)[blockIdx]? = some 0 :=
    List.getElem?_set_self inside
  have back : ((allBlocks disk (searchInode inode)).set blockIdx 0).set blockIdx
      (sectorOf inode blockIdx) = allBlocks disk (searchInode inode) := by
    rw [List.set_set, ← (List.getElem?_eq_some_iff.mp isOld).2, List.set_getElem_self]
  have step := @set_filter_perm_cons Nat _ blockIdx 0 (sectorOf inode blockIdx)
    (fun lba => decide (lba ≠ 0)) isZero (by simp) (by simpa using isBlock)
  rw [back] at step
  unfold dirBlocks
  rw [isSet]
  exact step

/-- The block of an entry is given back, when it has no other. -/
theorem IsDirectory.dropBlock (isDir : IsDirectory part inode) (wellFormed : part.WellFormed)
    {blockIdx : Nat} (direct : blockIdx < 12) (isBlock : sectorOf inode blockIdx ≠ 0)
    (notFirst : sectorOf inode blockIdx ≠ sectorOf inode 0)
    (single : liveAt (ideRead part.disk (sectorOf inode blockIdx) 1) = [entry])
    (proper : entry.isProper = true) :
    IsDirectory (part.freeBlock (sectorOf inode blockIdx))
        (subEntrySize (setSector inode blockIdx 0)) ∧
      (liveEntries part.disk inode).Perm (entry ::
        liveEntries (part.freeBlock (sectorOf inode blockIdx)).disk
          (subEntrySize (setSector inode blockIdx 0))) := by
  have mem : sectorOf inode blockIdx ∈ dirBlocks part.disk inode :=
    sectorOf_mem_dirBlocks direct isBlock
  have inUse := isDir.inUse _ (List.mem_append_right _ mem)
  have writes := writes_freeBlock wellFormed inUse
  have same : ∀ other ∈ ownBlocks part.disk inode,
      (part.freeBlock (sectorOf inode blockIdx)).disk other = part.disk other := by
    intro other isOther
    exact writes.disk other (isDir.inUse other isOther).inData List.not_mem_nil
  have zeroSmall : 0 < 2 ^ 32 := by decide
  have sameSector : ∀ other < 13, other ≠ blockIdx →
      sectorOf (subEntrySize (setSector inode blockIdx 0)) other = sectorOf inode other := by
    intro other inside ne
    show sectorOf (setSector inode blockIdx 0) other = _
    rw [sectorOf_setSector inode (by omega) inside zeroSmall, if_neg ne]
  have blocks : (dirBlocks part.disk inode).Perm (sectorOf inode blockIdx ::
      dirBlocks (part.freeBlock (sectorOf inode blockIdx)).disk
        (subEntrySize (setSector inode blockIdx 0))) :=
    dirBlocks_setSector_zero direct isBlock fun isTable => same _ (table_mem_ownBlocks isTable)
  have sub : ∀ other ∈ dirBlocks (part.freeBlock (sectorOf inode blockIdx)).disk
      (subEntrySize (setSector inode blockIdx 0)), other ∈ dirBlocks part.disk inode :=
    fun other isOther => blocks.mem_iff.mpr (List.mem_cons_of_mem _ isOther)
  have sameBlock : ∀ other ∈ dirBlocks part.disk inode,
      (part.freeBlock (sectorOf inode blockIdx)).disk other = part.disk other :=
    fun other isOther => same other (List.mem_append_right _ isOther)
  have own : (ownBlocks part.disk inode).Perm (sectorOf inode blockIdx ::
      ownBlocks (part.freeBlock (sectorOf inode blockIdx)).disk
        (subEntrySize (setSector inode blockIdx 0))) := by
    have table : tableBlock (subEntrySize (setSector inode blockIdx 0)) = tableBlock inode := by
      unfold tableBlock
      rw [sameSector 12 (by decide) (by omega)]
    unfold ownBlocks
    rw [table]
    exact (blocks.append_left _).trans List.perm_middle
  have loses := liveEntries_newBlock blocks
    (fun old isOld => (sameBlock old (sub old isOld)).symm) (List.Perm.of_eq single)
  have nodup := isDir.nodup
  rw [own.nodup_iff, List.nodup_cons] at nodup
  refine ⟨isDir.lose proper loses nodup.2 ?_ ?_ rfl ?_ ?_ ?_, loses⟩
  · intro block isOwn
    have ne : block ≠ sectorOf inode blockIdx := fun isBlock => nodup.1 (isBlock ▸ isOwn)
    have isOld : block ∈ ownBlocks part.disk inode := own.mem_iff.mpr (List.mem_cons_of_mem _ isOwn)
    exact inUse_freeBlock wellFormed inUse (isDir.inUse block isOld) ne
  · intro block isIn
    rw [ideRead_congr (sameBlock block (sub block isIn))]
    exact isDir.cleared block (sub block isIn)
  · exact sameSector 0 (by decide) fun isZero => notFirst (by rw [isZero])
  · intro block isIn other isLive
    rw [ideRead_congr (sameBlock block (sub block isIn))] at isLive
    exact ⟨sub block isIn, isLive⟩
  · intro other isLive _
    rw [ideRead_congr (sameBlock _ (sectorOf_mem_dirBlocks (by decide) isDir.first))]
    exact isLive

/-! ### `delete_dir_entry` -/

/-- What the loop does in the block where it finds the entry. -/
def deleteAt (fuel : Nat) (part : Volume) (inode : Inode) (blocks : List Nat) (blockIdx idx : Nat) :
    Option (Volume × Inode) :=
  let ioBuf := ideRead part.disk (blocks.getD blockIdx 0) 1
  if ((List.range dirEntrysPerSec).filter (properSlot ioBuf)).length = 1 ∧
      (List.range dirEntrysPerSec).any (dotSlot ioBuf) = false then
    Fs.dropBlock fuel part inode blocks blockIdx
  else
    some (part.clearEntry (blocks.getD blockIdx 0) idx, inode)

/-! ### The two ways not to return -/

@[simp] theorem toOption_orAssert {α : Type} (result : Option α) : (orAssert result).toOption = result := by
  cases result with
  | none => rfl
  | some a => rfl

theorem toOption_bind {α β : Type} (first : Except Stop α) (next : α → Except Stop β) :
    (first >>= next).toOption = first.toOption >>= fun a => (next a).toOption := by
  cases first with
  | error stop => rfl
  | ok a => rfl

/-- The index of the loop stays below 140. -/
theorem countIndirect_none (allBlocks : List Nat) (fuel indirectBlocks : Nat) :
    countIndirect allBlocks fuel 12 indirectBlocks = none := by
  induction fuel generalizing indirectBlocks with
  | zero => rfl
  | succ fuel inductionHypothesis => exact inductionHypothesis _

/-- A direct block is given back. -/
theorem dropBlock_direct {fuel blockIdx : Nat} {blocks : List Nat} (direct : blockIdx < 12) :
    dropBlock fuel part inode blocks blockIdx =
      some (part.freeBlock (blocks.getD blockIdx 0), setSector inode blockIdx 0) := by
  unfold dropBlock dropRun
  dsimp only
  rw [if_pos direct]
  rfl

/-- A block of the table is not: the loop that counts does not end. -/
theorem dropBlock_indirect {fuel blockIdx : Nat} {blocks : List Nat} (indirect : ¬ blockIdx < 12) :
    dropBlock fuel part inode blocks blockIdx = none := by
  unfold dropBlock dropRun
  dsimp only
  rw [if_neg indirect, countIndirect_none]
  rfl

theorem deleteLoop_absent {fuel inodeNo blockIdx : Nat} {blocks rest : List Nat}
    (notBlock : blocks.getD blockIdx 0 = 0) :
    deleteLoop fuel part inode inodeNo blocks (blockIdx :: rest) =
      deleteLoop fuel part inode inodeNo blocks rest := by
  unfold deleteLoop
  rw [deleteLoopRun]
  simp only [if_pos notBlock]

/-- A scan that fails its `ASSERT`. -/
theorem deleteLoop_failed {fuel inodeNo blockIdx : Nat} {blocks rest : List Nat}
    (isBlock : blocks.getD blockIdx 0 ≠ 0)
    (isScan : scanSector (ideRead part.disk (blocks.getD blockIdx 0) 1) inodeNo
      (List.range dirEntrysPerSec) ⟨0, false, none⟩ = none) :
    deleteLoop fuel part inode inodeNo blocks (blockIdx :: rest) = none := by
  unfold deleteLoop
  rw [deleteLoopRun]
  simp only [if_neg isBlock, isScan]
  rfl

theorem mem_dirBlocks_of_getD {blockIdx : Nat}
    (isBlock : (allBlocks disk (searchInode inode)).getD blockIdx 0 ≠ 0) :
    (allBlocks disk (searchInode inode)).getD blockIdx 0 ∈ dirBlocks disk inode := by
  apply List.mem_filter.mpr
  refine ⟨?_, by simpa using isBlock⟩
  rw [List.getD_eq_getElem?_getD] at isBlock ⊢
  cases isElem : (allBlocks disk (searchInode inode))[blockIdx]? with
  | none =>
      rw [isElem] at isBlock
      exact absurd rfl isBlock
  | some lba => exact List.mem_of_getElem? isElem

theorem deleteLoop_passed {fuel inodeNo blockIdx : Nat} {blocks rest : List Nat} {scan : SectorScan}
    (isBlock : blocks.getD blockIdx 0 ≠ 0)
    (isScan : scanSector (ideRead part.disk (blocks.getD blockIdx 0) 1) inodeNo
      (List.range dirEntrysPerSec) ⟨0, false, none⟩ = some scan)
    (notFound : scan.dirEntryFound = none) :
    deleteLoop fuel part inode inodeNo blocks (blockIdx :: rest) =
      deleteLoop fuel part inode inodeNo blocks rest := by
  unfold deleteLoop
  rw [deleteLoopRun]
  simp only [if_neg isBlock, isScan, notFound]

theorem deleteLoop_found {fuel inodeNo blockIdx idx : Nat} {blocks rest : List Nat}
    {scan : SectorScan} (isBlock : blocks.getD blockIdx 0 ≠ 0)
    (isScan : scanSector (ideRead part.disk (blocks.getD blockIdx 0) 1) inodeNo
      (List.range dirEntrysPerSec) ⟨0, false, none⟩ = some scan)
    (isFound : scan.dirEntryFound = some idx) (counted : 1 ≤ scan.dirEntryCnt) :
    deleteLoop fuel part inode inodeNo blocks (blockIdx :: rest) =
      (if scan.dirEntryCnt = 1 ∧ scan.isDirFirstBlock = false then
        Fs.dropBlock fuel part inode blocks blockIdx
      else
        some (part.clearEntry (blocks.getD blockIdx 0) idx, inode)).bind fun result =>
          finishDelete result.1 result.2 := by
  have passes : orAssert (guard (1 ≤ scan.dirEntryCnt) : Option Unit) = .ok () := by
    simp only [counted, guard_true]
    rfl
  unfold deleteLoop
  rw [deleteLoopRun]
  simp only [if_neg isBlock, isScan, isFound]
  unfold deleteAtRun
  rw [passes]
  change ((takeOutRun fuel part inode blocks blockIdx scan idx) >>= fun result =>
    orAssert (finishDelete result.1 result.2)).toOption = _
  simp only [toOption_bind, toOption_orAssert]
  unfold takeOutRun
  split
  · rfl
  · rfl

theorem deleteDirEntry_eq (fuel : Nat) (part : Volume) (inode : Inode) (inodeNo : Nat) :
    deleteDirEntry fuel part inode inodeNo =
      deleteLoop fuel part inode inodeNo (allBlocks part.disk (searchInode inode)) (List.range 140) :=
  rfl

/-- The loop stops in the first block that has the entry. -/
theorem deleteLoop_stops (isDir : IsDirectory part inode) (fuel : Nat) {inodeNo count start target : Nat}
    (low : start ≤ target) (high : target < start + count)
    (isTarget : (allBlocks part.disk (searchInode inode)).getD target 0 ≠ 0) {idx : Nat}
    (inside : idx < dirEntrysPerSec)
    (isMatch : matchesSlot (ideRead part.disk ((allBlocks part.disk (searchInode inode)).getD target 0) 1)
      inodeNo idx = true) :
    ∃ blockIdx ≤ target, (allBlocks part.disk (searchInode inode)).getD blockIdx 0 ≠ 0 ∧
      ∃ idx < dirEntrysPerSec, matchesSlot
        (ideRead part.disk ((allBlocks part.disk (searchInode inode)).getD blockIdx 0) 1) inodeNo idx =
          true ∧
      deleteLoop fuel part inode inodeNo (allBlocks part.disk (searchInode inode))
          (List.range' start count) =
        (deleteAt fuel part inode (allBlocks part.disk (searchInode inode)) blockIdx idx).bind
          fun result => finishDelete result.1 result.2 := by
  induction count generalizing start with
  | zero => omega
  | succ count inductionHypothesis =>
      rw [List.range'_succ]
      -- a block without the entry is passed, and then the target lies behind it
      have passes : start ≠ target →
          ∃ blockIdx ≤ target, (allBlocks part.disk (searchInode inode)).getD blockIdx 0 ≠ 0 ∧
            ∃ idx < dirEntrysPerSec, matchesSlot
              (ideRead part.disk ((allBlocks part.disk (searchInode inode)).getD blockIdx 0) 1)
                inodeNo idx = true ∧
            deleteLoop fuel part inode inodeNo (allBlocks part.disk (searchInode inode))
                (List.range' (start + 1) count) = _ :=
        fun ne => inductionHypothesis (by omega) (by omega)
      by_cases notBlock : (allBlocks part.disk (searchInode inode)).getD start 0 = 0
      · rw [deleteLoop_absent notBlock]
        exact passes fun isStart => isTarget (isStart ▸ notBlock)
      · have isIn := mem_dirBlocks_of_getD notBlock
        have isScan := @scanSector_eq (ideRead part.disk
          ((allBlocks part.disk (searchInode inode)).getD start 0) 1) inodeNo _ List.nodup_range
          (isDir.slot_unique isIn) ⟨0, false, none⟩ fun isFound => absurd rfl isFound
        simp only [Nat.zero_add, Bool.false_or, Option.none_or] at isScan
        cases isFound : (List.range dirEntrysPerSec).find? (matchesSlot
            (ideRead part.disk ((allBlocks part.disk (searchInode inode)).getD start 0) 1) inodeNo) with
        | none =>
            rw [deleteLoop_passed notBlock isScan isFound]
            refine passes fun isStart => ?_
            have differs := List.find?_eq_none.mp isFound idx (List.mem_range.mpr inside)
            rw [isStart, isMatch] at differs
            exact absurd rfl differs
        | some found =>
            have foundInside : found < dirEntrysPerSec :=
              List.mem_range.mp (List.mem_of_find?_eq_some isFound)
            have foundMatch := List.find?_some isFound
            have counted : 1 ≤ ((List.range dirEntrysPerSec).filter (properSlot
                (ideRead part.disk ((allBlocks part.disk (searchInode inode)).getD start 0) 1))).length := by
              apply @List.length_pos_of_mem _ found
              apply List.mem_filter.mpr
              simp only [matchesSlot, decide_eq_true_eq] at foundMatch
              exact ⟨List.mem_range.mpr foundInside, foundMatch.1⟩
            refine ⟨start, low, notBlock, found, foundInside, foundMatch, ?_⟩
            exact deleteLoop_found notBlock isScan isFound counted

/-- A write outside the data area keeps a directory and its entries. -/
theorem IsDirectory.congr (isDir : IsDirectory part inode) (writes : part.Writes part' [])
    (bitmap : part'.blockBitmap = part.blockBitmap) :
    IsDirectory part' inode ∧ liveEntries part'.disk inode = liveEntries part.disk inode := by
  have same : ∀ lba ∈ ownBlocks part.disk inode, part'.disk lba = part.disk lba :=
    fun lba mem => writes.disk lba (isDir.inUse lba mem).inData List.not_mem_nil
  have blocks : dirBlocks part'.disk inode = dirBlocks part.disk inode :=
    dirBlocks_congr rfl rfl fun isTable => same _ (table_mem_ownBlocks isTable)
  have reads : ∀ lba ∈ dirBlocks part.disk inode, ideRead part'.disk lba 1 = ideRead part.disk lba 1 :=
    fun lba mem => ideRead_congr (same lba (List.mem_append_right _ mem))
  have live : liveEntries part'.disk inode = liveEntries part.disk inode := by
    unfold liveEntries
    rw [blocks]
    apply List.flatMap_congr
    intro lba mem
    rw [reads lba mem]
  have own : ownBlocks part'.disk inode = ownBlocks part.disk inode := by
    unfold ownBlocks
    rw [blocks]
  have first := reads _ (sectorOf_mem_dirBlocks (show 0 < 12 by decide) isDir.first)
  refine ⟨⟨?_, ?_, ?_, ?_, ?_, ?_, isDir.first, ?_, ?_, ?_⟩, live⟩
  · rw [own]
    exact isDir.nodup
  · rw [own]
    exact fun lba mem => (isDir.inUse lba mem).of_sameBitmap writes bitmap
  · rw [blocks]
    intro lba mem
    rw [reads lba mem]
    exact isDir.cleared lba mem
  · rw [live]
    exact isDir.names
  · rw [live]
    exact isDir.numbers
  · rw [live]
    exact isDir.size
  · rw [first]
    exact isDir.self
  · rw [first]
    exact isDir.up
  · rw [blocks]
    intro lba mem
    rw [reads lba mem]
    exact isDir.dotsFirst lba mem

/-- A sector without dots, whose only proper slot is this one. -/
theorem IsDirectory.single_entry (isDir : IsDirectory part inode)
    (mem : lba ∈ dirBlocks part.disk inode) (notFirst : lba ≠ sectorOf inode 0) {idx : Nat}
    (inside : idx < dirEntrysPerSec) (isLive : fTypeAt (ideRead part.disk lba 1) idx ≠ 0)
    (one : ((List.range dirEntrysPerSec).filter (properSlot (ideRead part.disk lba 1))).length = 1) :
    liveAt (ideRead part.disk lba 1) = [dirEntryAt (ideRead part.disk lba 1) idx] := by
  have allProper : (liveAt (ideRead part.disk lba 1)).filter DirEntry.isProper =
      liveAt (ideRead part.disk lba 1) :=
    List.filter_eq_self.mpr (isDir.dotsFirst lba mem notFirst)
  have length : (liveAt (ideRead part.disk lba 1)).length = 1 := by
    have sameLength := congrArg List.length (numbersAt_eq (ideRead part.disk lba 1))
    rw [numbersAt, List.length_map, List.length_map, allProper, one] at sameLength
    exact sameLength
  have isIn : dirEntryAt (ideRead part.disk lba 1) idx ∈ liveAt (ideRead part.disk lba 1) :=
    mem_liveAt.mpr ⟨idx, inside, isLive, rfl⟩
  obtain ⟨only, isOnly⟩ := List.length_eq_one_iff.mp length
  rw [isOnly] at isIn ⊢
  rw [List.mem_singleton.mp isIn]

/-- The first block has the entry `.`. -/
theorem IsDirectory.any_dotSlot (isDir : IsDirectory part inode) :
    (List.range dirEntrysPerSec).any (dotSlot (ideRead part.disk (sectorOf inode 0) 1)) = true := by
  obtain ⟨self, mem, isDot⟩ := isDir.self
  obtain ⟨idx, inside, isLive, rfl⟩ := mem_liveAt.mp mem
  apply List.any_eq_true.mpr
  exact ⟨idx, List.mem_range.mpr inside, by simp [dotSlot, isLive, isDot]⟩

theorem allBlocks_getD {blockIdx : Nat} (direct : blockIdx < 12) :
    (allBlocks disk (searchInode inode)).getD blockIdx 0 = sectorOf inode blockIdx := by
  rw [List.getD_eq_getElem?_getD, allBlocks_getElem? direct, Option.getD_some]

/-- The entry is taken out of a direct block. -/
theorem IsDirectory.deleteAt (isDir : IsDirectory part inode) (wellFormed : part.WellFormed)
    (fuel : Nat) {blockIdx idx : Nat} (direct : blockIdx < 12) (isBlock : sectorOf inode blockIdx ≠ 0)
    (inside : idx < dirEntrysPerSec)
    (isLive : fTypeAt (ideRead part.disk (sectorOf inode blockIdx) 1) idx ≠ 0)
    (proper : (dirEntryAt (ideRead part.disk (sectorOf inode blockIdx) 1) idx).isProper = true) :
    ∃ part' inode', Fs.deleteAt fuel part inode (allBlocks part.disk (searchInode inode)) blockIdx idx =
        some (part', inode') ∧ inode'.iSize = inode.iSize ∧ part'.WellFormed ∧
      IsDirectory part' (subEntrySize inode') ∧
      (liveEntries part.disk inode).Perm
        (dirEntryAt (ideRead part.disk (sectorOf inode blockIdx) 1) idx ::
          liveEntries part'.disk (subEntrySize inode')) := by
  have mem : sectorOf inode blockIdx ∈ dirBlocks part.disk inode :=
    sectorOf_mem_dirBlocks direct isBlock
  unfold Fs.deleteAt
  rw [allBlocks_getD direct]
  dsimp only
  split
  · rename_i onlyOne
    have notFirst : sectorOf inode blockIdx ≠ sectorOf inode 0 := by
      intro isFirst
      rw [isFirst, isDir.any_dotSlot] at onlyOne
      cases onlyOne.2
    have single := isDir.single_entry mem notFirst inside isLive onlyOne.1
    have inUse := isDir.inUse _ (List.mem_append_right _ mem)
    refine ⟨part.freeBlock (sectorOf inode blockIdx), setSector inode blockIdx 0, ?_, rfl,
      (writes_freeBlock wellFormed inUse).wellFormed wellFormed,
      isDir.dropBlock wellFormed direct isBlock notFirst single proper⟩
    rw [dropBlock_direct direct, allBlocks_getD direct]
  · exact ⟨part.clearEntry (sectorOf inode blockIdx) idx, inode, rfl, rfl,
      (Volume.writes_ideWrite _ _ _).wellFormed wellFormed,
      isDir.clearEntry mem inside isLive proper⟩

/-- An entry with this number lies in a direct block: the condition of a deletion. -/
def InDirect (part : Volume) (inode : Inode) (inodeNo : Nat) : Prop :=
  ∃ blockIdx < 12, sectorOf inode blockIdx ≠ 0 ∧
    ∃ entry ∈ liveAt (ideRead part.disk (sectorOf inode blockIdx) 1),
      entry.isProper = true ∧ entry.iNo = inodeNo

/-- `delete_dir_entry` takes an entry out of a direct block. -/
theorem deleteDirEntry_spec (isDir : IsDirectory part inode) (wellFormed : part.WellFormed)
    {inodeNo : Nat} (inDirect : InDirect part inode inodeNo) (fuel : Nat) :
    ∃ part' inode' entry, deleteDirEntry fuel part inode inodeNo = some (part', inode', true) ∧
      entry.isProper = true ∧ entry.iNo = inodeNo ∧ part'.WellFormed ∧ IsDirectory part' inode' ∧
      (liveEntries part.disk inode).Perm (entry :: liveEntries part'.disk inode') := by
  obtain ⟨target, isDirect, isTarget, entry, mem, isEntry, isEntryNo⟩ := inDirect
  obtain ⟨slot, slotInside, slotLive, rfl⟩ := mem_liveAt.mp mem
  have isSlot : matchesSlot (ideRead part.disk (sectorOf inode target) 1) inodeNo slot = true := by
    simp [matchesSlot, properSlot, slotLive, isEntry, isEntryNo]
  have sameBlock : (allBlocks part.disk (searchInode inode)).getD target 0 = sectorOf inode target :=
    allBlocks_getD isDirect
  rw [← sameBlock] at isTarget isSlot
  obtain ⟨blockIdx, before, isBlock, idx, inside, isMatch, isLoop⟩ :=
    deleteLoop_stops isDir fuel (Nat.zero_le target) (show target < 0 + 140 by omega) isTarget slotInside isSlot
  have direct : blockIdx < 12 := by omega
  rw [allBlocks_getD direct] at isBlock isMatch
  simp only [matchesSlot, properSlot, decide_eq_true_eq] at isMatch
  obtain ⟨⟨isLive, proper⟩, isNumber⟩ := isMatch
  obtain ⟨part₁, inode₁, isDeleted, sameSize, wellFormed₁, isDir₁, loses⟩ :=
    isDir.deleteAt wellFormed fuel direct isBlock inside isLive proper
  have enough : dirEntrySize ≤ inode₁.iSize.toNat := by
    rw [sameSize, isDir.size, loses.length_eq, List.length_cons]
    exact Nat.le_mul_of_pos_right _ (Nat.succ_pos _)
  obtain ⟨part', isSynced, writes, bitmap⟩ := Volume.inodeSync_spec wellFormed₁ (subEntrySize inode₁)
  obtain ⟨isDir', sameLive⟩ := isDir₁.congr writes bitmap
  refine ⟨part', subEntrySize inode₁, _, ?_, proper, isNumber, writes.wellFormed wellFormed₁, isDir', ?_⟩
  · rw [deleteDirEntry_eq, List.range_eq_range', isLoop, isDeleted]
    simp only [Option.bind_some, finishDelete, enough, guard_true, Option.bind_eq_bind, isSynced]
    rfl
  · rw [sameLive]
    exact loses

end ZyOs.Fs
