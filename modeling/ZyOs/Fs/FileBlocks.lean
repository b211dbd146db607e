import Mathlib.Data.List.GetD
import ZyOs.Fs.FileLimits
import ZyOs.Fs.InodeRelease
import ZyOs.Fs.OwnBlocks

/-!
Contract: the blocks of a regular file, and which of them each part of `file_write`
adds.

Owns:
- `HoldsBlocks`: the blocks that `i_sectors` and the table name, in their order, each
  once and in use;
- `Takes`: what a row of allocations changes on a volume;
- that `file_write` adds the blocks that it allocates, the table among them, and writes
  to the blocks of its file only.

Does not own: the bytes in the blocks.
-/

namespace ZyOs.Fs

open ZyOs.Kernel
open InodeTable (pureInode)

variable {part part' part'' : Volume} {inode inode' : InodeTable.Inode} {bs new new' : List Nat} {lba bit k first : Nat}

/-! ### Allocations -/

/-- The blocks in `new` are taken, and nothing else changes. -/
structure Takes (part part' : Volume) (new : List Nat) : Prop where
  keeps : part.Keeps part' [] []
  nodup : new.Nodup
  wasFree : ∀ lba ∈ new, ¬ part.InUse lba
  inUse : ∀ lba, part'.InUse lba ↔ part.InUse lba ∨ lba ∈ new

theorem Volume.Keeps.none {lbas : List Nat} (keeps : part.Keeps part' [] []) : part.Keeps part' [] lbas :=
  keeps.mono (fun _ mem => mem) fun _ mem => absurd mem List.not_mem_nil

theorem Takes.refl (part : Volume) : Takes part part [] where
  keeps := ⟨⟨rfl, rfl, rfl, rfl, fun _ _ _ => rfl⟩, rfl, fun _ _ _ => rfl⟩
  nodup := List.nodup_nil
  wasFree _ mem := absurd mem List.not_mem_nil
  inUse _ := by simp

theorem Takes.trans (left : Takes part part' new) (right : Takes part' part'' new') :
    Takes part part'' (new ++ new') where
  keeps := left.keeps.trans right.keeps
  nodup := by
    refine List.nodup_append.mpr ⟨left.nodup, right.nodup, fun lba mem other isOther same => ?_⟩
    exact right.wasFree other isOther ((left.inUse other).mpr (.inr (same ▸ mem)))
  wasFree lba mem := by
    rcases List.mem_append.mp mem with mem | mem
    · exact left.wasFree lba mem
    · exact fun inUse => right.wasFree lba mem ((left.inUse lba).mpr (.inl inUse))
  inUse lba := by
    rw [right.inUse, left.inUse, List.mem_append, or_assoc]

/-- `block_bitmap_alloc`. -/
theorem takes_setBlockBit (found : firstClear part.blockBitmap = some bit) :
    Takes part (part.setBlockBit bit true) [part.dataStartLba + bit] := by
  obtain ⟨inside, clear, _⟩ := firstClear_some found
  have bits : ∀ i, bitmapScanTest (part.setBlockBit bit true).blockBitmap i =
      if i = bit then true else bitmapScanTest part.blockBitmap i :=
    fun i => bitmapScanTest_bitmapSet part.blockBitmap bit i true
  refine ⟨Volume.keeps_setBlockBit part bit true, List.nodup_singleton _, ?_, fun lba => ?_⟩
  · rintro lba mem inUse
    rw [List.mem_singleton.mp mem] at inUse
    have isSet := inUse.bit
    rw [Nat.add_sub_cancel_left, clear] at isSet
    cases isSet
  · rw [List.mem_singleton]
    constructor
    · intro inUse
      have isSet := inUse.bit
      rw [bits] at isSet
      split at isSet
      · rename_i isBit
        have inData := inUse.inData
        have isBit : lba - part.dataStartLba = bit := isBit
        have inData : part.dataStartLba ≤ lba := inData
        exact .inr (by omega)
      · exact .inl ⟨inUse.inData, inUse.inside, isSet⟩
    · rintro (inUse | rfl)
      · refine ⟨inUse.inData, inUse.inside, ?_⟩
        rw [bits]
        split
        · rfl
        · exact inUse.bit
      · refine ⟨Nat.le_add_right _ _, ?_, ?_⟩
        · show part.dataStartLba + bit - part.dataStartLba < _
          rw [Nat.add_sub_cancel_left]
          exact inside
        · show bitmapScanTest _ (part.dataStartLba + bit - part.dataStartLba) = true
          rw [Nat.add_sub_cancel_left, bits, if_pos rfl]

/-- `block_bitmap_alloc` with its `bitmap_sync`. -/
theorem takes_synced (layout : part.Layout) (found : firstClear part.blockBitmap = some bit) :
    Takes part ((part.setBlockBit bit true).bitmapSync bit .block) [part.dataStartLba + bit] := by
  obtain ⟨inside, _, _⟩ := firstClear_some found
  have taken := takes_setBlockBit found
  have synced := Volume.keeps_syncBlock (taken.keeps.layout layout) inside
  refine ⟨taken.keeps.trans synced, taken.nodup, taken.wasFree, fun lba => ?_⟩
  rw [synced.inUse_iff rfl]
  exact taken.inUse lba

/-! ### Lists of blocks -/

/-- `new` is written from index `first` on. -/
def overlay (old : Nat → Nat) (first : Nat) (new : List Nat) (idx : Nat) : Nat :=
  if first ≤ idx ∧ idx < first + new.length then new.getD (idx - first) 0 else old idx

theorem overlay_nil (old : Nat → Nat) (first idx : Nat) : overlay old first [] idx = old idx := by
  unfold overlay
  rw [if_neg (by simp)]

theorem overlay_congr {old old' : Nat → Nat} {idx : Nat} (same : old idx = old' idx) :
    overlay old first new idx = overlay old' first new idx := by
  unfold overlay
  rw [same]

theorem overlay_cons (old : Nat → Nat) (first lba : Nat) (new : List Nat) (idx : Nat) :
    overlay (fun i => if i = first then lba else old i) (first + 1) new idx =
      overlay old first (lba :: new) idx := by
  unfold overlay
  rw [List.length_cons]
  by_cases same : idx = first
  · subst same
    rw [if_neg (by omega), if_pos (by omega), Nat.sub_self]
    exact if_pos rfl
  · by_cases behind : first + 1 ≤ idx ∧ idx < first + 1 + new.length
    · obtain ⟨j, rfl⟩ := Nat.exists_eq_add_of_le behind.1
      rw [if_pos behind, if_pos (by omega), show first + 1 + j - (first + 1) = j by omega,
        show first + 1 + j - first = j + 1 by omega]
      rfl
    · rw [if_neg behind, if_neg (show ¬(first ≤ idx ∧ idx < first + (new.length + 1)) by omega)]
      exact if_neg same

/-- Behind the first blocks come the new ones. -/
theorem overlay_append {old : Nat → Nat} {idx : Nat} (isOld : old idx = bs.getD idx 0) :
    overlay old bs.length new idx = (bs ++ new).getD idx 0 := by
  unfold overlay
  by_cases isFirst : idx < bs.length
  · rw [if_neg (by omega), isOld, List.getD_append _ _ _ _ isFirst]
  · rw [List.getD_append_right _ _ _ _ (by omega)]
    split
    · rfl
    · rw [isOld, List.getD_eq_default _ _ (by omega), List.getD_eq_default _ _ (by omega)]

/-- A loop that allocates: the direct blocks go into the inode. -/
theorem allocBlocks_takes {blocks blocks' : List Nat} (layout : part.Layout) (length : blocks.length = 140)
    (fits : first + k ≤ 140)
    (isRun : allocBlocks part inode blocks (List.range' first k) = some (part', inode', blocks', true)) :
    ∃ new, new.length = k ∧ Takes part part' new ∧ inode'.iNo = inode.iNo ∧ inode'.iSize = inode.iSize ∧
      (∀ idx < 12, sectorOf inode' idx = overlay (sectorOf inode) first new idx) ∧
      sectorOf inode' 12 = sectorOf inode 12 ∧
      ∀ idx, blocks'.getD idx 0 = overlay (fun i => blocks.getD i 0) first new idx := by
  induction k generalizing part inode blocks first with
  | zero =>
      cases isRun
      refine ⟨[], rfl, .refl _, rfl, rfl, fun idx _ => ?_, rfl, fun idx => ?_⟩
      · rw [overlay_nil]
      · rw [overlay_nil]
  | succ k inductionHypothesis =>
      rw [List.range'_succ] at isRun
      unfold allocBlocks at isRun
      obtain ⟨⟨part₁, allocated⟩, isAlloc, isRest⟩ := Option.bind_eq_some_iff.mp isRun
      obtain ⟨bit, found, rfl, rfl⟩ := Volume.blockBitmapAlloc_eq_some isAlloc
      obtain ⟨small, ne⟩ := sector_of_firstClear layout.toWellFormed found
      have taken := takes_synced layout found
      have isSet : ∀ idx, (blocks.set first (part.dataStartLba + bit)).getD idx 0 =
          if idx = first then part.dataStartLba + bit else blocks.getD idx 0 := by
        intro idx
        rw [List.getD_eq_getElem?_getD, List.getElem?_set]
        by_cases same : idx = first
        · rw [if_pos same.symm, if_pos same, if_pos (by omega)]
          rfl
        · rw [if_neg (Ne.symm same), if_neg same, ← List.getD_eq_getElem?_getD]
      dsimp only at isRest
      rw [allocated_bit] at isRest
      by_cases isDirect : first < 12
      · rw [if_pos isDirect] at isRest
        obtain ⟨_, _, isRest⟩ := Option.bind_eq_some_iff.mp isRest
        obtain ⟨new, isLength, takes, sameNo, sameSize, sectors, table, listed⟩ :=
          inductionHypothesis (taken.keeps.layout layout) (by rw [List.length_set]; exact length) (by omega)
            isRest
        refine ⟨(part.dataStartLba + bit) :: new, by rw [List.length_cons, isLength], taken.trans takes,
          sameNo, sameSize, fun idx direct => ?_, ?_, fun idx => ?_⟩
        · rw [sectors idx direct, ← overlay_cons]
          exact overlay_congr (sectorOf_setSector inode (by omega) (by omega) small)
        · rw [table, sectorOf_setSector inode (by omega) (by decide) small, if_neg (by omega)]
        · rw [listed idx, funext isSet, overlay_cons]
      · rw [if_neg isDirect] at isRest
        obtain ⟨new, isLength, takes, sameNo, sameSize, sectors, table, listed⟩ :=
          inductionHypothesis (taken.keeps.layout layout) (by rw [List.length_set]; exact length) (by omega)
            isRest
        refine ⟨(part.dataStartLba + bit) :: new, by rw [List.length_cons, isLength], taken.trans takes,
          sameNo, sameSize, fun idx direct => ?_, table, fun idx => ?_⟩
        · rw [sectors idx direct]
          unfold overlay
          rw [if_neg (by omega), if_neg (by omega)]
        · rw [listed idx, funext isSet, overlay_cons]

/-! ### The blocks of a file -/

/-- The table, when there is one, and the other blocks. -/
def fileBlocks (inode : InodeTable.Inode) (bs : List Nat) : List Nat := tableBlock inode ++ bs

/-- The blocks of a file, in the order of its data; each is in use and named once. -/
structure HoldsBlocks (part : Volume) (inode : InodeTable.Inode) (bs : List Nat) : Prop where
  blocks : ∀ idx < 140, (allBlocks part.disk (searchInode inode)).getD idx 0 = bs.getD idx 0
  fits : bs.length ≤ 140
  table : sectorOf inode 12 ≠ 0 ↔ 12 < bs.length
  nodup : (fileBlocks inode bs).Nodup
  inUse : ∀ lba ∈ fileBlocks inode bs, part.InUse lba

theorem table_mem_fileBlocks (isTable : sectorOf inode 12 ≠ 0) : sectorOf inode 12 ∈ fileBlocks inode bs := by
  rw [fileBlocks, tableBlock, if_pos isTable]
  exact List.mem_append_left _ (List.mem_singleton_self _)

theorem fileBlocks_congr (same : inode'.iSectors = inode.iSectors) (bs : List Nat) :
    fileBlocks inode' bs = fileBlocks inode bs := by
  rw [fileBlocks, tableBlock_congr (sectorOf_congr same 12), fileBlocks]

/-- Behind the twelve direct blocks are those of the table. -/
theorem allBlocks_behind {disk : Disk} {idx : Nat} (behind : 12 ≤ idx) :
    (allBlocks disk (searchInode inode)).getD idx 0 = (tableBlocks disk inode).getD (idx - 12) 0 := by
  have length : (directBlocks inode).length = 12 := by simp [directBlocks]
  rw [allBlocks_eq, List.getD_append_right _ _ _ _ (by omega), length]

theorem tableBlocks_getD {disk : Disk} (isTable : sectorOf inode 12 ≠ 0) (inside : k < 128) :
    (tableBlocks disk inode).getD k 0 = word (ideRead disk (sectorOf inode 12) 1) (4 * k) := by
  rw [tableBlocks, if_pos isTable, List.getD_eq_getElem?_getD, List.getElem?_map,
    List.getElem?_range inside]
  rfl

theorem tableBlocks_none {disk : Disk} (noTable : sectorOf inode 12 = 0) (k : Nat) :
    (tableBlocks disk inode).getD k 0 = 0 := by
  rw [tableBlocks, if_neg (not_not.mpr noTable), List.getD_eq_getElem?_getD, List.getElem?_replicate]
  split <;> rfl

namespace HoldsBlocks

variable (holds : HoldsBlocks part inode bs)

include holds

theorem direct {idx : Nat} (isDirect : idx < 12) : sectorOf inode idx = bs.getD idx 0 := by
  rw [← holds.blocks idx (by omega), allBlocks_getD isDirect]

theorem notZero (wellFormed : part.WellFormed) (mem : lba ∈ bs) : lba ≠ 0 :=
  (holds.inUse lba (List.mem_append_right _ mem)).pos wellFormed

theorem table_notMem (isTable : sectorOf inode 12 ≠ 0) : sectorOf inode 12 ∉ bs := by
  intro mem
  refine (List.nodup_append.mp holds.nodup).2.2 _ ?_ _ mem rfl
  rw [tableBlock, if_pos isTable]
  exact List.mem_singleton_self _

theorem allBlocks_eq_append :
    allBlocks part.disk (searchInode inode) = bs ++ List.replicate (140 - bs.length) 0 := by
  have length := length_allBlocks part.disk inode
  have fits := holds.fits
  apply List.ext_getElem
  · rw [length, List.length_append, List.length_replicate]
    omega
  · intro idx inside _
    rw [length] at inside
    have isBlock := holds.blocks idx inside
    rw [List.getD_eq_getElem _ _ (by omega)] at isBlock
    rw [isBlock]
    by_cases isFirst : idx < bs.length
    · rw [List.getElem_append_left isFirst, List.getD_eq_getElem _ _ isFirst]
    · rw [List.getElem_append_right (by omega), List.getElem_replicate, List.getD_eq_default _ _ (by omega)]

/-- The list that `inode_release` goes through. -/
theorem released (wellFormed : part.WellFormed) :
    (Calls.inodeBlocks part inode).filter (· ≠ 0) = fileBlocks inode bs := by
  have noneZero : bs.filter (· ≠ 0) = bs :=
    List.filter_eq_self.mpr fun lba mem => decide_eq_true (holds.notZero wellFormed mem)
  have allZero : (List.replicate (140 - bs.length) 0).filter (· ≠ 0) = [] := by
    simp
  rw [Calls.inodeBlocks, holds.allBlocks_eq_append, List.filter_cons, List.filter_append, noneZero, allZero,
    List.append_nil, fileBlocks, tableBlock]
  by_cases isTable : sectorOf inode 12 ≠ 0
  · rw [if_pos (decide_eq_true isTable), if_pos isTable]
    rfl
  · rw [if_neg (by simpa using isTable), if_neg isTable]
    rfl

/-- A write outside the table. -/
theorem frame {written : List Nat} (writes : part.Writes part' written)
    (notTable : sectorOf inode 12 ≠ 0 → sectorOf inode 12 ∉ written)
    (kept : ∀ lba ∈ fileBlocks inode bs, part'.InUse lba) (same : inode'.iSectors = inode.iSectors) :
    HoldsBlocks part' inode' bs := by
  have sameTable : sectorOf inode 12 ≠ 0 → part'.disk (sectorOf inode 12) = part.disk (sectorOf inode 12) :=
    fun isTable => writes.disk _ (holds.inUse _ (table_mem_fileBlocks isTable)).inData (notTable isTable)
  have sameBlocks : allBlocks part'.disk (searchInode inode') = allBlocks part.disk (searchInode inode) := by
    rw [allBlocks_eq, allBlocks_eq, directBlocks_congr same, tableBlocks_congr (sectorOf_congr same 12) sameTable]
  refine ⟨?_, holds.fits, ?_, ?_, ?_⟩
  · rw [sameBlocks]
    exact holds.blocks
  · rw [sectorOf_congr same]
    exact holds.table
  · rw [fileBlocks_congr same]
    exact holds.nodup
  · rw [fileBlocks_congr same]
    exact kept

/-- Blocks that were taken, and named behind those that were there. -/
theorem grow {part₁ : Volume} {taken : List Nat} (takes : Takes part part₁ taken)
    (inUse : ∀ lba, part'.InUse lba ↔ part₁.InUse lba)
    (blocks : ∀ idx < 140, (allBlocks part'.disk (searchInode inode')).getD idx 0 = (bs ++ new).getD idx 0)
    (fits : (bs ++ new).length ≤ 140) (table : sectorOf inode' 12 ≠ 0 ↔ 12 < (bs ++ new).length)
    (perm : (fileBlocks inode' (bs ++ new)).Perm (taken ++ fileBlocks inode bs)) :
    HoldsBlocks part' inode' (bs ++ new) := by
  refine ⟨blocks, fits, table, ?_, fun lba mem => ?_⟩
  · rw [perm.nodup_iff]
    refine List.nodup_append.mpr ⟨takes.nodup, holds.nodup, fun lba mem other isOther same => ?_⟩
    exact takes.wasFree lba mem (holds.inUse lba (same ▸ isOther))
  · rw [inUse, takes.inUse]
    rcases List.mem_append.mp (perm.mem_iff.mp mem) with mem | mem
    · exact .inr mem
    · exact .inl (holds.inUse lba mem)

end HoldsBlocks

/-! ### Growing files -/

/-- The file has the blocks that were taken besides its own, and some of them were
written. -/
structure Grown (part part' : Volume) (inode inode' : InodeTable.Inode) (bs bs' written : List Nat) : Prop where
  holds : HoldsBlocks part' inode' bs'
  keeps : part.Keeps part' [] written
  isOwn : ∀ lba ∈ written, lba ∈ fileBlocks inode' bs'
  kept : ∀ lba, part.InUse lba → part'.InUse lba
  own : ∀ lba, lba ∈ fileBlocks inode' bs' ↔
    lba ∈ fileBlocks inode bs ∨ (part'.InUse lba ∧ ¬ part.InUse lba)
  iNo : inode'.iNo = inode.iNo

theorem Grown.refl {written : List Nat} (holds : HoldsBlocks part inode bs)
    (isOwn : ∀ lba ∈ written, lba ∈ fileBlocks inode bs) : Grown part part inode inode bs bs written where
  holds := holds
  keeps := (Takes.refl part).keeps.none
  isOwn := isOwn
  kept _ inUse := inUse
  own lba := by
    rw [or_iff_left]
    exact fun both => both.2 both.1
  iNo := rfl

theorem Grown.trans {inode'' : InodeTable.Inode} {bs' bs'' written written' : List Nat}
    (left : Grown part part' inode inode' bs bs' written)
    (right : Grown part' part'' inode' inode'' bs' bs'' written') :
    Grown part part'' inode inode'' bs bs'' (written ++ written') where
  holds := right.holds
  keeps := left.keeps.trans right.keeps
  isOwn lba mem := by
    rcases List.mem_append.mp mem with mem | mem
    · exact (right.own lba).mpr (.inl (left.isOwn lba mem))
    · exact right.isOwn lba mem
  kept lba inUse := right.kept lba (left.kept lba inUse)
  own lba := by
    rw [right.own, left.own, or_assoc]
    refine or_congr_right ⟨?_, ?_⟩
    · rintro (⟨inUse, wasFree⟩ | ⟨inUse, wasFree⟩)
      · exact ⟨right.kept lba inUse, wasFree⟩
      · exact ⟨inUse, fun before => wasFree (left.kept lba before)⟩
    · rintro ⟨inUse, wasFree⟩
      by_cases between : part'.InUse lba
      · exact .inl ⟨between, wasFree⟩
      · exact .inr ⟨inUse, between⟩
  iNo := right.iNo.trans left.iNo

theorem Grown.mono {bs' written written' : List Nat} (grown : Grown part part' inode inode' bs bs' written)
    (more : ∀ lba ∈ written, lba ∈ written') (isOwn : ∀ lba ∈ written', lba ∈ fileBlocks inode' bs') :
    Grown part part' inode inode' bs bs' written' where
  holds := grown.holds
  keeps := grown.keeps.mono (fun _ mem => mem) more
  isOwn := isOwn
  kept := grown.kept
  own := grown.own
  iNo := grown.iNo

theorem tableBlock_own : ∀ lba ∈ tableBlock inode, lba ∈ fileBlocks inode bs :=
  fun _ mem => List.mem_append_left _ mem

/-- Where only the table was written, the blocks of the data have their bytes. -/
theorem Grown.sameBytes (grown : Grown part part' inode inode' bs (bs ++ new) (tableBlock inode'))
    (holds : HoldsBlocks part inode bs) (mem : lba ∈ bs) : part'.disk lba = part.disk lba := by
  refine grown.keeps.writes.disk lba (holds.inUse lba (List.mem_append_right _ mem)).inData fun isTable => ?_
  exact (List.nodup_append.mp grown.holds.nodup).2.2 lba isTable lba (List.mem_append_left _ mem) rfl

/-- Blocks were taken, and some of the file were written. -/
theorem Grown.of_takes {part₁ : Volume} {taken written bs' : List Nat} (takes : Takes part part₁ taken)
    (keeps : part₁.Keeps part' [] written) (inUse : ∀ lba, part'.InUse lba ↔ part₁.InUse lba)
    (perm : (fileBlocks inode' bs').Perm (taken ++ fileBlocks inode bs))
    (isOwn : ∀ lba ∈ written, lba ∈ fileBlocks inode' bs') (holds : HoldsBlocks part' inode' bs')
    (iNo : inode'.iNo = inode.iNo) : Grown part part' inode inode' bs bs' written where
  holds := holds
  keeps := takes.keeps.trans keeps
  isOwn := isOwn
  kept lba before := (inUse lba).mpr ((takes.inUse lba).mpr (.inl before))
  own lba := by
    rw [perm.mem_iff, List.mem_append, inUse, takes.inUse]
    constructor
    · rintro (mem | mem)
      · exact .inr ⟨.inr mem, takes.wasFree lba mem⟩
      · exact .inl mem
    · rintro (mem | ⟨before | mem, wasFree⟩)
      · exact .inr mem
      · exact absurd before wasFree
      · exact .inl mem
  iNo := iNo

/-! ### The table -/

theorem collect_getD {idx : Nat} (inside : k < 140) :
    (collect inode noBlocks k).getD idx 0 = if idx = k then sectorOf inode k else 0 := by
  rw [collect, noBlocks, List.getD_eq_getElem?_getD, List.getElem?_set]
  by_cases same : idx = k
  · rw [if_pos same.symm, if_pos same, if_pos (by rw [List.length_replicate]; exact inside)]
    rfl
  · rw [if_neg (Ne.symm same), if_neg same, List.getElem?_replicate]
    split <;> rfl

theorem readTable_getD {idx : Nat} (isTable : sectorOf inode 12 ≠ 0) (behind : 12 ≤ idx) (inside : idx < 140) :
    (readTable part inode noBlocks).getD idx 0 = (allBlocks part.disk (searchInode inode)).getD idx 0 := by
  have length : (noBlocks.take 12).length = 12 := by decide
  rw [allBlocks_behind behind, tableBlocks_getD isTable (by omega), readTable,
    List.getD_append_right _ _ _ _ (by omega), length, List.getD_eq_getElem?_getD, List.getElem?_map,
    List.getElem?_range (by omega)]
  rfl

/-- The words of a table that was written. -/
theorem word_written (disk : Disk) (lba : Nat) {blocks : List Nat} (inside : k < 128)
    (small : blocks.getD (12 + k) 0 < 2 ^ 32) :
    word (ideRead (ideWrite disk lba (tableBuf blocks) 1) lba 1) (4 * k) = blocks.getD (12 + k) 0 := by
  rw [← @word_wordsBuf (fun i => blocks.getD (12 + i) 0) k small]
  apply InodeTable.word_congr
  intro i smallByte
  have fits : 4 * k + i < sectorSize := by
    simp only [sectorSize]
    omega
  rw [ideRead_apply _ _ fits]
  exact ideWrite_self _ _ _ fits

theorem getD_small {l : List Nat} (small : ∀ lba ∈ l, lba < 2 ^ 32) (idx : Nat) : l.getD idx 0 < 2 ^ 32 := by
  by_cases inside : idx < l.length
  · rw [List.getD_eq_getElem _ _ inside]
    exact small _ (List.getElem_mem inside)
  · rw [List.getD_eq_default _ _ (by omega)]
    decide

/-- The file with new blocks, when its table is written. -/
theorem HoldsBlocks.putTable {part₁ : Volume} {taken blocks : List Nat} (holds : HoldsBlocks part inode bs)
    (layout : part.Layout) (takes : Takes part part₁ taken) (isTable : sectorOf inode' 12 ≠ 0)
    (direct : ∀ idx < 12, sectorOf inode' idx = (bs ++ new).getD idx 0)
    (listed : ∀ idx < 140, 12 ≤ idx → blocks.getD idx 0 = (bs ++ new).getD idx 0)
    (many : 12 < (bs ++ new).length) (fits : (bs ++ new).length ≤ 140)
    (perm : (fileBlocks inode' (bs ++ new)).Perm (taken ++ fileBlocks inode bs))
    (iNo : inode'.iNo = inode.iNo) :
    Grown part (part₁.ideWrite (sectorOf inode' 12) (tableBuf blocks)) inode inode' bs (bs ++ new)
      (tableBlock inode') := by
  have layout₁ := takes.keeps.layout layout
  have inUse₁ : ∀ lba ∈ fileBlocks inode' (bs ++ new), part₁.InUse lba := by
    intro lba mem
    rw [takes.inUse]
    rcases List.mem_append.mp (perm.mem_iff.mp mem) with mem | mem
    · exact .inr mem
    · exact .inl (holds.inUse lba mem)
  have inData := (inUse₁ _ (table_mem_fileBlocks isTable)).inData
  have isBlock : tableBlock inode' = [sectorOf inode' 12] := if_pos isTable
  have keeps := Volume.keeps_ideWrite layout₁ inData (tableBuf blocks)
  rw [← isBlock] at keeps
  have inUse : ∀ lba, (part₁.ideWrite (sectorOf inode' 12) (tableBuf blocks)).InUse lba ↔ part₁.InUse lba :=
    fun lba => keeps.inUse_iff rfl
  have small : ∀ lba ∈ bs ++ new, lba < 2 ^ 32 := fun lba mem =>
    (inUse₁ lba (List.mem_append_right _ mem)).lt layout₁.toWellFormed
  refine .of_takes takes keeps inUse perm tableBlock_own
    (holds.grow takes inUse (fun idx inside => ?_) fits (iff_of_true isTable many) perm) iNo
  by_cases isDirect : idx < 12
  · rw [allBlocks_getD isDirect, direct idx isDirect]
  · have isWord := listed idx inside (by omega)
    obtain ⟨k, rfl⟩ := Nat.exists_eq_add_of_le (Nat.not_lt.mp isDirect)
    rw [allBlocks_behind (by omega), tableBlocks_getD isTable (by omega), Nat.add_sub_cancel_left, ← isWord]
    apply word_written _ _ (by omega)
    rw [isWord]
    exact getD_small small _

/-- The file with new blocks, when it needs no table. -/
theorem HoldsBlocks.putDirect (holds : HoldsBlocks part inode bs) (takes : Takes part part' new)
    (direct : ∀ idx < 12, sectorOf inode' idx = (bs ++ new).getD idx 0)
    (table : sectorOf inode' 12 = sectorOf inode 12) (few : (bs ++ new).length ≤ 12)
    (iNo : inode'.iNo = inode.iNo) : Grown part part' inode inode' bs (bs ++ new) (tableBlock inode') := by
  have fewBefore : bs.length ≤ 12 := by
    rw [List.length_append] at few
    omega
  have noTable : sectorOf inode' 12 = 0 := by
    by_contra isTable
    have many := holds.table.mp (table ▸ isTable)
    omega
  have isBlock : ∀ idx < 140, (allBlocks part'.disk (searchInode inode')).getD idx 0 = (bs ++ new).getD idx 0 := by
    intro idx inside
    by_cases isDirect : idx < 12
    · rw [allBlocks_getD isDirect, direct idx isDirect]
    · rw [allBlocks_behind (by omega), tableBlocks_none noTable, List.getD_eq_default _ _ (by omega)]
  have perm : (fileBlocks inode' (bs ++ new)).Perm (new ++ fileBlocks inode bs) := by
    rw [fileBlocks, tableBlock_congr table, ← List.append_assoc]
    exact List.perm_append_comm
  refine .of_takes takes (Takes.refl part').keeps.none (fun _ => Iff.rfl) perm tableBlock_own ?_ iNo
  refine holds.grow takes (fun _ => Iff.rfl) isBlock (by omega) ?_ perm
  rw [noTable]
  exact iff_of_false (fun ne => ne rfl) (by omega)

/-! ### `file_write` -/

/-- What a part of `file_write` does that allocates up to `willUse` blocks, and which of
them it puts into `all_blocks`. -/
structure Collected (part part' : Volume) (inode inode' : InodeTable.Inode) (bs : List Nat) (willUse : Nat)
    (blocks new : List Nat) : Prop where
  grown : Grown part part' inode inode' bs (bs ++ new) (tableBlock inode')
  length : (bs ++ new).length = willUse
  iSize : inode'.iSize = inode.iSize
  listed : ∀ idx, bs.length - 1 ≤ idx → idx < willUse → blocks.getD idx 0 = (bs ++ new).getD idx 0

variable {hasUsed willUse : Nat} {blocks : List Nat} {written : Option UInt32} {file file' : OpenFile}
  {buf : Buf} {count : UInt32}

/-- The direct blocks are enough. -/
theorem allocDirect_collected (layout : part.Layout) (holds : HoldsBlocks part inode bs)
    (notEmpty : 0 < bs.length) (le : bs.length ≤ willUse) (few : willUse ≤ 12)
    (isRun : allocBlocks part inode (collect inode noBlocks (bs.length - 1))
      (List.range' bs.length (willUse - bs.length)) = some (part', inode', blocks, true)) :
    ∃ new, Collected part part' inode inode' bs willUse blocks new := by
  obtain ⟨new, isLength, takes, sameNo, sameSize, sectors, table, listed⟩ :=
    allocBlocks_takes layout (by simp [collect, noBlocks]) (by omega) isRun
  have length : (bs ++ new).length = willUse := by
    rw [List.length_append, isLength]
    omega
  have grown : Grown part part' inode inode' bs (bs ++ new) (tableBlock inode') := by
    refine holds.putDirect takes (fun idx isDirect => ?_) table (by omega) sameNo
    rw [sectors idx isDirect]
    exact overlay_append (holds.direct isDirect)
  refine ⟨new, grown, length, sameSize, fun idx last inside => ?_⟩
  rw [listed]
  apply overlay_append
  rw [collect_getD (by omega)]
  split
  · rename_i isLast
    rw [isLast, holds.direct (by omega)]
  · rw [List.getD_eq_default _ _ (by omega)]

/-- The first blocks behind the direct ones: a table is made. -/
theorem allocTable_collected (layout : part.Layout) (holds : HoldsBlocks part inode bs) {part₁ : Volume}
    (notEmpty : 0 < bs.length) (fewBefore : bs.length ≤ 12) (many : 12 < willUse) (fits : willUse ≤ 140)
    (found : firstClear part.blockBitmap = some bit)
    (isRun : allocBlocks (part.setBlockBit bit true) (setSector inode 12 (part.dataStartLba + bit))
      (collect inode noBlocks (bs.length - 1)) (List.range' bs.length (willUse - bs.length)) =
        some (part₁, inode', blocks, true)) :
    ∃ new, Collected part (part₁.ideWrite (part.dataStartLba + bit) (tableBuf blocks)) inode inode' bs willUse
      blocks new := by
  have first := takes_setBlockBit found
  obtain ⟨small, ne⟩ := sector_of_firstClear layout.toWellFormed found
  obtain ⟨new, isLength, rest, sameNo, sameSize, sectors, table, listed⟩ :=
    allocBlocks_takes (first.keeps.layout layout) (by simp [collect, noBlocks]) (by omega) isRun
  have takes := first.trans rest
  have length : (bs ++ new).length = willUse := by
    rw [List.length_append, isLength]
    omega
  have noTable : sectorOf inode 12 = 0 := by
    by_contra isTable
    have manyBefore := holds.table.mp isTable
    omega
  have isTable : sectorOf inode' 12 = part.dataStartLba + bit := by
    rw [table, sectorOf_setSector inode (by decide) (by decide) small, if_pos rfl]
  have direct : ∀ idx < 12, sectorOf inode' idx = (bs ++ new).getD idx 0 := by
    intro idx isDirect
    rw [sectors idx isDirect]
    apply overlay_append
    rw [sectorOf_setSector inode (by decide) (by omega) small, if_neg (by omega)]
    exact holds.direct isDirect
  have isListed : ∀ idx, bs.length - 1 ≤ idx → blocks.getD idx 0 = (bs ++ new).getD idx 0 := by
    intro idx last
    rw [listed]
    apply overlay_append
    rw [collect_getD (by omega)]
    split
    · rename_i isLast
      rw [isLast, holds.direct (by omega)]
    · rw [List.getD_eq_default _ _ (by omega)]
  have perm : (fileBlocks inode' (bs ++ new)).Perm (([part.dataStartLba + bit] ++ new) ++ fileBlocks inode bs) := by
    rw [fileBlocks, tableBlock, if_pos (isTable ▸ ne), isTable, fileBlocks, tableBlock, if_neg (not_not.mpr noTable),
      List.nil_append, List.append_assoc]
    exact List.perm_append_comm.append_left _
  have grown := holds.putTable layout takes (isTable ▸ ne) direct (fun idx _ behind => isListed idx (by omega))
    (by omega) (by omega) perm sameNo
  rw [isTable] at grown
  exact ⟨new, grown, length, sameSize, fun idx last _ => isListed idx last⟩

/-- More blocks behind the direct ones. -/
theorem allocIndirect_collected (layout : part.Layout) (holds : HoldsBlocks part inode bs) {part₁ : Volume}
    (manyBefore : 12 < bs.length) (le : bs.length ≤ willUse) (fits : willUse ≤ 140)
    (isRun : allocBlocks part inode (readTable part inode noBlocks)
      (List.range' bs.length (willUse - bs.length)) = some (part₁, inode', blocks, true)) :
    ∃ new, Collected part (part₁.ideWrite (sectorOf inode' 12) (tableBuf blocks)) inode inode' bs willUse
      blocks new := by
  have isTable := holds.table.mpr manyBefore
  obtain ⟨new, isLength, takes, sameNo, sameSize, sectors, table, listed⟩ :=
    allocBlocks_takes layout (by simp [readTable, noBlocks]) (by omega) isRun
  have length : (bs ++ new).length = willUse := by
    rw [List.length_append, isLength]
    omega
  have direct : ∀ idx < 12, sectorOf inode' idx = (bs ++ new).getD idx 0 := by
    intro idx isDirect
    rw [sectors idx isDirect]
    exact overlay_append (holds.direct isDirect)
  have isListed : ∀ idx < 140, 12 ≤ idx → blocks.getD idx 0 = (bs ++ new).getD idx 0 := by
    intro idx inside behind
    rw [listed]
    apply overlay_append
    rw [readTable_getD isTable behind inside]
    exact holds.blocks idx inside
  have perm : (fileBlocks inode' (bs ++ new)).Perm (new ++ fileBlocks inode bs) := by
    rw [fileBlocks, tableBlock_congr table, ← List.append_assoc]
    exact List.perm_append_comm
  have grown := holds.putTable layout takes (table ▸ isTable) direct isListed (by omega) (by omega) perm sameNo
  exact ⟨new, grown, length, sameSize, fun idx last inside => isListed idx (by omega) (by omega)⟩

/-- `file_write` fills `all_blocks` with the blocks from the last one of the file on. -/
theorem writeBlocks_collected (layout : part.Layout) (holds : HoldsBlocks part inode bs)
    (notEmpty : 0 < bs.length) (le : bs.length ≤ willUse) (fits : willUse ≤ 140)
    (isRun : writeBlocks part inode bs.length willUse = some (part', inode', blocks, true)) :
    ∃ new, Collected part part' inode inode' bs willUse blocks new := by
  unfold writeBlocks at isRun
  dsimp only at isRun
  by_cases same : willUse = bs.length
  · have grown : Grown part part inode inode bs (bs ++ []) (tableBlock inode) := by
      rw [List.append_nil]
      exact .refl holds tableBlock_own
    rw [if_pos same] at isRun
    split at isRun
    · rename_i few
      cases isRun
      refine ⟨[], grown, by rw [List.append_nil, same], rfl, fun idx last inside => ?_⟩
      rw [List.append_nil, collect_getD (by omega), if_pos (by omega), holds.direct (by omega)]
      congr 1
      omega
    · rename_i many
      obtain ⟨_, _, isRest⟩ := Option.bind_eq_some_iff.mp isRun
      cases isRest
      refine ⟨[], grown, by rw [List.append_nil, same], rfl, fun idx last inside => ?_⟩
      rw [List.append_nil, readTable_getD (holds.table.mpr (by omega)) (by omega) (by omega)]
      exact holds.blocks idx (by omega)
  rw [if_neg same] at isRun
  by_cases few : willUse ≤ 12
  · rw [if_pos few] at isRun
    obtain ⟨_, _, isRest⟩ := Option.bind_eq_some_iff.mp isRun
    obtain ⟨_, _, isRest⟩ := Option.bind_eq_some_iff.mp isRest
    exact allocDirect_collected layout holds notEmpty le few isRest
  rw [if_neg few] at isRun
  by_cases fewBefore : bs.length ≤ 12
  · rw [if_pos fewBefore] at isRun
    obtain ⟨⟨part₁, allocated⟩, isAlloc, isRest⟩ := Option.bind_eq_some_iff.mp isRun
    obtain ⟨bit, found, rfl, rfl⟩ := Volume.blockBitmapAlloc_eq_some isAlloc
    obtain ⟨_, _, isRest⟩ := Option.bind_eq_some_iff.mp isRest
    obtain ⟨⟨part₂, inode₂, blocks₂, done⟩, isBlocks, isRest⟩ := Option.bind_eq_some_iff.mp isRest
    obtain rfl := allocBlocks_done isBlocks
    cases isRest
    exact allocTable_collected layout holds notEmpty fewBefore (by omega) fits found isBlocks
  · rw [if_neg fewBefore] at isRun
    obtain ⟨_, _, isRest⟩ := Option.bind_eq_some_iff.mp isRun
    obtain ⟨⟨part₂, inode₂, blocks₂, done⟩, isBlocks, isRest⟩ := Option.bind_eq_some_iff.mp isRest
    obtain rfl := allocBlocks_done isBlocks
    cases isRest
    exact allocIndirect_collected layout holds (by omega) le fits isBlocks

/-- The first block of a file that was not written before. -/
theorem allocFirst_grown (layout : part.Layout) (holds : HoldsBlocks part inode bs)
    (isRun : allocFirst part inode = some (part', inode', true)) :
    ∃ new, Grown part part' inode inode' bs (bs ++ new) (tableBlock inode') ∧ inode'.iSize = inode.iSize ∧
      (bs ++ new).length = max 1 bs.length := by
  unfold allocFirst at isRun
  split at isRun
  · rename_i isZero
    obtain ⟨⟨part₁, allocated⟩, isAlloc, isRest⟩ := Option.bind_eq_some_iff.mp isRun
    obtain ⟨bit, found, rfl, rfl⟩ := Volume.blockBitmapAlloc_eq_some isAlloc
    obtain ⟨_, _, isPair⟩ := Option.bind_eq_some_iff.mp isRest
    rw [allocated_bit] at isPair
    cases isPair
    have isEmpty : bs = [] := by
      rw [← List.length_eq_zero_iff]
      by_contra some
      have isFirst := holds.direct (show 0 < 12 by decide)
      rw [isZero, List.getD_eq_getElem _ _ (Nat.pos_of_ne_zero some)] at isFirst
      exact holds.notZero layout.toWellFormed (List.getElem_mem _) isFirst.symm
    subst isEmpty
    obtain ⟨small, _⟩ := sector_of_firstClear layout.toWellFormed found
    refine ⟨[part.dataStartLba + bit], ?_, rfl, rfl⟩
    refine holds.putDirect (takes_synced layout found) (fun idx isDirect => ?_) ?_ (by simp) rfl
    · rw [sectorOf_setSector inode (by decide) (by omega) small]
      cases idx with
      | zero => rfl
      | succ idx => exact holds.direct isDirect
    · rw [sectorOf_setSector inode (by decide) (by decide) small, if_neg (by decide)]
  · rename_i isFirst
    cases isRun
    refine ⟨[], ?_, rfl, ?_⟩
    · rw [List.append_nil]
      exact .refl holds tableBlock_own
    · have notEmpty : bs.length ≠ 0 := by
        intro isEmpty
        rw [holds.direct (by decide), List.getD_eq_default _ _ (by omega)] at isFirst
        exact isFirst rfl
      rw [List.append_nil]
      omega

/-- A sector of the file is written. -/
theorem HoldsBlocks.write (holds : HoldsBlocks part inode bs) (layout : part.Layout) (mem : lba ∈ bs) (buf : Buf)
    (same : inode'.iSectors = inode.iSectors) (iNo : inode'.iNo = inode.iNo) :
    Grown part (part.ideWrite lba buf) inode inode' bs bs [lba] := by
  have isOwn : lba ∈ fileBlocks inode bs := List.mem_append_right _ mem
  have keeps := Volume.keeps_ideWrite layout (holds.inUse lba isOwn).inData buf
  have inUse : ∀ other, (part.ideWrite lba buf).InUse other ↔ part.InUse other := fun other => keeps.inUse_iff rfl
  refine .of_takes (.refl part) keeps inUse ?_ ?_ ?_ iNo
  · rw [fileBlocks_congr same, List.nil_append]
  · intro other isLba
    rw [List.mem_singleton.mp isLba, fileBlocks_congr same]
    exact isOwn
  · refine holds.frame keeps.writes (fun isTable isLba => ?_) (fun other isOther => ?_) same
    · exact holds.table_notMem isTable (List.mem_singleton.mp isLba ▸ mem)
    · exact (inUse other).mpr (holds.inUse other isOther)

end ZyOs.Fs
