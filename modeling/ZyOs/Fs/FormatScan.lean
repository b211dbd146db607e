import ZyOs.Fs.FilesysInit
import ZyOs.Lib.Outcomes

/-!
Contract: what `filesys_init` leaves on the disks.

Owns:
- the sectors that `partition_format` writes, each once;
- the scan of one disk, from `part_idx` 0 and from 12;
- when every partition has its super block and none that had one is touched.
-/

namespace ZyOs.Fs.FilesysInit

open Device (addLba maxLba)
open Format (SuperBlock blockBitmapSects inodeBitmapSects_eq inodeTableSects_eq)

/-! ### Formatting -/

/-- The sectors that `partition_format` writes: from the super block to the root
directory. -/
def Covers (part : Device.Partition) (sec : Nat) : Prop :=
  sbLba part ≤ sec ∧ sec < sbLba part + (611 + blockBitmapSects part.secCnt)

instance (part : Device.Partition) (sec : Nat) : Decidable (Covers part sec) := by
  unfold Covers
  infer_instance

/-- The block bitmap has a sector, its tail ends inside the block of the buffer, and
the root directory is on the disk. -/
def Formattable (part : Device.Partition) : Prop :=
  (0 < blockBitmapSects part.secCnt ∧ Format.TailFits (superBlock part)) ∧
    sbLba part + (611 + blockBitmapSects part.secCnt) ≤ maxLba + 1

/-- The block bitmap has a sector from 613 sectors on, unless `DIV_ROUND_UP` overflows. -/
theorem blockBitmapSects_pos {secCnt : Nat} (small : secCnt < 2 ^ 32) :
    0 < blockBitmapSects secCnt ↔ 613 ≤ secCnt ∧ secCnt + 3484 < 2 ^ 32 := by
  constructor
  · intro positive
    by_cases overflow : 2 ^ 32 ≤ secCnt + 3484
    · rw [Format.sizes_overflow small overflow] at positive
      cases positive
    · refine ⟨?_, by omega⟩
      by_contra few
      have free := Format.freeSects_eq secCnt
      rw [blockBitmapSects, Format.blockBitmapBitLen, free, Format.divRoundUp, Format.divRoundUp,
        Format.bitsPerSector] at positive
      omega
  · rintro ⟨large, noOverflow⟩
    obtain ⟨m, bitLen, sects, -, -, -, -, -, -, isSects⟩ := Format.sizes_spec large noOverflow
    rw [isSects]
    exact Nat.succ_pos sects

variable {part : Device.Partition} {d d' : Drive} {pad : Buf}

theorem Covers.sbLba : Covers part (sbLba part) := ⟨Nat.le_refl _, by omega⟩

/-- One write: its sectors are counted, and the others stay. -/
structure Wrote (d : Drive) (lba secCnt : Nat) (d' : Drive) : Prop where
  positive : 0 < secCnt
  onDisk : lba + secCnt ≤ maxLba + 1
  counted : ∀ sec, d'.writeCnt sec = d.writeCnt sec + if lba ≤ sec ∧ sec < lba + secCnt then 1 else 0
  kept : ∀ sec, ¬ (lba ≤ sec ∧ sec < lba + secCnt) → d'.disk sec = d.disk sec
  formatted : d'.formatted = d.formatted

theorem Drive.write_ok {lba secCnt : Nat} {buf : Buf} (isOk : d.write lba buf secCnt = .ok d') :
    Wrote d lba secCnt d' ∧ d'.disk = ideWrite d.disk lba buf secCnt := by
  unfold Drive.write at isOk
  split at isOk
  · rename_i inside
    cases isOk
    refine ⟨⟨inside.1, inside.2, fun sec => ?_, fun sec outside => ?_, rfl⟩, rfl⟩
    · dsimp only
      split
      · rfl
      · rfl
    · exact ideWrite_other d.disk buf (by omega)
  · cases isOk

/-- A write behind another one. -/
theorem Wrote.append {lba n k next : Nat} {d'' : Drive} (first : Wrote d lba n d') (isNext : next = lba + n)
    (second : Wrote d' next k d'') : Wrote d lba (n + k) d'' where
  positive := Nat.add_pos_left first.positive k
  onDisk := by
    have := second.onDisk
    omega
  counted sec := by
    rw [second.counted, first.counted, isNext]
    split <;> split <;> split <;> omega
  kept sec outside := by
    rw [second.kept sec (by omega), first.kept sec (by omega)]
  formatted := second.formatted.trans first.formatted

/-- The regions lie one behind the other, since none of the additions overflows. -/
theorem superBlock_lbas {sb : SuperBlock} (isSb : superBlock part = sb)
    (low : sbLba part + (611 + blockBitmapSects part.secCnt) ≤ maxLba + 1) :
    sb.blockBitmapLba = sbLba part + 1 ∧
      sb.inodeBitmapLba = sb.blockBitmapLba + sb.blockBitmapSects ∧
      sb.inodeTableLba = sb.blockBitmapLba + (sb.blockBitmapSects + sb.inodeBitmapSects) ∧
      sb.dataStartLba =
        sb.blockBitmapLba + (sb.blockBitmapSects + sb.inodeBitmapSects + sb.inodeTableSects) ∧
      1 + (sb.blockBitmapSects + sb.inodeBitmapSects + sb.inodeTableSects + 1) =
        611 + blockBitmapSects part.secCnt := by
  rw [← isSb]
  simp only [superBlock, inodeBitmapSects_eq, inodeTableSects_eq, sbLba, addLba, maxLba] at *
  omega

/-- The magic number is the first word of what is written. -/
theorem hasMagic_of_sector {disk disk' : Disk}
    (isSector : disk' (sbLba part) = ideWrite disk (sbLba part) ((superBlock part).bytes pad) 1 (sbLba part)) :
    HasMagic disk' part := by
  have isByte : ∀ off < 4, ideRead disk' (sbLba part) 1 off = wordsBuf (superBlock part).words off := by
    intro off small
    have inSector : off < sectorSize := Nat.lt_trans small (by decide)
    have inBlock : off < 52 := Nat.lt_trans small (by decide)
    rw [ideRead_apply _ _ inSector, isSector, ideWrite_self _ _ _ inSector, SuperBlock.bytes, if_pos inBlock]
  have isWord : word (ideRead disk' (sbLba part) 1) 0 = word (wordsBuf (superBlock part).words) (4 * 0) := by
    unfold word
    rw [isByte 0 (by decide), isByte (0 + 1) (by decide), isByte (0 + 2) (by decide), isByte (0 + 3) (by decide)]
  have small : (superBlock part).words 0 < 2 ^ 32 := by
    show fsMagic < 2 ^ 32
    decide
  exact isWord.trans (word_wordsBuf small)

theorem bitmapBuf_ok {sb : SuperBlock} {buf : Buf} :
    bitmapBuf sb = .ok buf ↔
      Format.TailFits sb ∧ buf = Format.blockBitmapBytes (Format.blockBitmapBitLen sb.secCnt) := by
  unfold bitmapBuf Format.TailFits
  cases isRoom : Format.mallocRoom (Format.formatBufSize sb) with
  | none => exact ⟨fun isError => (nomatch isError), fun ⟨⟨_, isSome, _⟩, _⟩ => (nomatch isSome)⟩
  | some room =>
      dsimp only
      cases isBuf : Format.blockBitmapBuf (Format.blockBitmapBitLen sb.secCnt) room with
      | none =>
          refine ⟨fun isError => (nomatch isError), fun ⟨⟨room', isSome, fits⟩, isBytes⟩ => ?_⟩
          cases isSome
          rw [Format.blockBitmapBuf_eq_some.mpr ⟨fits, isBytes⟩] at isBuf
          cases isBuf
      | some buf' =>
          obtain ⟨fits, isBytes⟩ := Format.blockBitmapBuf_eq_some.mp isBuf
          constructor
          · intro isOk
            cases isOk
            exact ⟨⟨room, rfl, fits⟩, isBytes⟩
          · rintro ⟨-, rfl⟩
            rw [isBytes]

/-- A formatting that goes through: each sector of the file system is written once, and
the super block is there. -/
theorem partitionFormat_ok (isOk : partitionFormat part pad d = .ok d') :
    Formattable part ∧ Wrote d (sbLba part) (611 + blockBitmapSects part.secCnt) d' ∧ HasMagic d'.disk part := by
  obtain ⟨d₁, isSb, isOk⟩ := Lib.ok_bind_iff.mp isOk
  obtain ⟨buf, isBuf, isOk⟩ := Lib.ok_bind_iff.mp isOk
  obtain ⟨d₂, isBlocks, isOk⟩ := Lib.ok_bind_iff.mp isOk
  obtain ⟨d₃, isInodes, isOk⟩ := Lib.ok_bind_iff.mp isOk
  obtain ⟨d₄, isTable, isRoot⟩ := Lib.ok_bind_iff.mp isOk
  obtain ⟨wroteSb, isSector⟩ := Drive.write_ok isSb
  have wroteBlocks := (Drive.write_ok isBlocks).1
  have wroteInodes := (Drive.write_ok isInodes).1
  have wroteTable := (Drive.write_ok isTable).1
  have wroteRoot := (Drive.write_ok isRoot).1
  have formattable : Formattable part := by
    refine ⟨⟨wroteBlocks.positive, (bitmapBuf_ok.mp isBuf).1⟩, ?_⟩
    have onDisk := wroteSb.onDisk
    have onDisk₁ := wroteBlocks.onDisk
    have onDisk₂ := wroteInodes.onDisk
    have onDisk₃ := wroteTable.onDisk
    have onDisk₄ := wroteRoot.onDisk
    simp only [superBlock, inodeBitmapSects_eq, inodeTableSects_eq, sbLba, addLba, maxLba] at *
    omega
  obtain ⟨isBlockLba, isInodeLba, isTableLba, isRootLba, total⟩ := superBlock_lbas rfl formattable.2
  have behind := ((wroteBlocks.append isInodeLba wroteInodes).append isTableLba wroteTable).append isRootLba
    wroteRoot
  have whole := wroteSb.append isBlockLba behind
  rw [total] at whole
  have isKept : d'.disk (sbLba part) =
      ideWrite d.disk (sbLba part) ((superBlock part).bytes pad) 1 (sbLba part) := by
    rw [behind.kept _ (by omega), isSector]
  exact ⟨formattable, whole, hasMagic_of_sector isKept⟩

/-- For a partition whose sectors do not run over, this is the formatting of `Format`. -/
theorem partitionFormat_disk {raw : Format.RawPartition} (isStart : part.startLba = raw.startLba)
    (isCnt : part.secCnt = raw.secCnt) (isOk : partitionFormat part pad d = .ok d') :
    Format.partitionFormat raw pad d.disk = some d'.disk := by
  obtain ⟨⟨positive, fits⟩, onDisk⟩ := (partitionFormat_ok isOk).1
  have large : 613 ≤ part.secCnt := ((blockBitmapSects_pos (isCnt ▸ raw.secCnt_lt)).mp positive).1
  have noOverflow : raw.startLba + 1 < 2 ^ 32 := by
    have fits := raw.fits
    omega
  have isLba : sbLba part = raw.startLba + 1 := by
    rw [sbLba, addLba, isStart, Nat.mod_eq_of_lt noOverflow]
  have isSb : superBlock part = Format.superBlock raw := by
    obtain ⟨isBlocks, isInodes, isTable, isRoot, -⟩ := @superBlock_lbas part _ rfl onDisk
    have isBlocks' : (superBlock part).blockBitmapLba = raw.startLba + 2 := by omega
    have isSects : (superBlock part).blockBitmapSects = blockBitmapSects raw.secCnt :=
      congrArg blockBitmapSects isCnt
    rw [isBlocks', isSects] at isInodes isTable isRoot
    refine SuperBlock.ext rfl isCnt rfl isStart isBlocks' isSects isInodes rfl ?_ rfl ?_ rfl rfl
    · exact isTable.trans (Nat.add_assoc _ _ _).symm
    · rw [isRoot, ← Nat.add_assoc, ← Nat.add_assoc]
      rfl
  obtain ⟨d₁, isFirst, isOk⟩ := Lib.ok_bind_iff.mp isOk
  obtain ⟨buf, isBuf, isOk⟩ := Lib.ok_bind_iff.mp isOk
  obtain ⟨d₂, isSecond, isOk⟩ := Lib.ok_bind_iff.mp isOk
  obtain ⟨d₃, isThird, isOk⟩ := Lib.ok_bind_iff.mp isOk
  obtain ⟨d₄, isFourth, isFifth⟩ := Lib.ok_bind_iff.mp isOk
  have isRoot := Format.superBlock_dataStartLba raw
  rw [isCnt] at positive onDisk
  refine Format.partitionFormat_eq_some.mpr ⟨⟨positive, by omega, isSb ▸ fits⟩, ?_⟩
  rw [(Drive.write_ok isFifth).2, (Drive.write_ok isFourth).2, (Drive.write_ok isThird).2,
    (Drive.write_ok isSecond).2, (Drive.write_ok isFirst).2, (bitmapBuf_ok.mp isBuf).2, isSb, isLba]
  rfl

/-- What is written is on the disk, so every write goes through. -/
theorem partitionFormat_total (formattable : Formattable part) : ∃ d', partitionFormat part pad d = .ok d' := by
  obtain ⟨isBlockLba, isInodeLba, isTableLba, isRootLba, total⟩ := superBlock_lbas rfl formattable.2
  have isBlocks : 0 < (superBlock part).blockBitmapSects := formattable.1.1
  have onDisk := formattable.2
  have write : ∀ {d : Drive} {lba : Nat} (buf : Buf) {secCnt : Nat}, 0 < secCnt →
      lba + secCnt ≤ sbLba part + (611 + blockBitmapSects part.secCnt) → ∃ d', d.write lba buf secCnt = .ok d' :=
    fun buf _ positive inside => ⟨_, if_pos ⟨positive, Nat.le_trans inside onDisk⟩⟩
  have isInodes : 0 < (superBlock part).inodeBitmapSects := by
    show 0 < Format.inodeBitmapSects
    decide
  have isTables : 0 < (superBlock part).inodeTableSects := by
    show 0 < Format.inodeTableSects
    decide
  obtain ⟨d₁, isSb⟩ := @write d (sbLba part) ((superBlock part).bytes pad) 1 Nat.one_pos (by omega)
  have isBuf := bitmapBuf_ok.mpr ⟨formattable.1.2, rfl⟩
  obtain ⟨d₂, isBlockMap⟩ := @write d₁ (superBlock part).blockBitmapLba
    (Format.blockBitmapBytes (Format.blockBitmapBitLen part.secCnt)) _ isBlocks (by omega)
  obtain ⟨d₃, isInodeMap⟩ := @write d₂ (superBlock part).inodeBitmapLba Format.inodeBitmapBuf _ isInodes (by omega)
  obtain ⟨d₄, isTable⟩ := @write d₃ (superBlock part).inodeTableLba
    (Format.inodeTableBuf (superBlock part)) _ isTables (by omega)
  obtain ⟨d₅, isRoot⟩ := @write d₄ (superBlock part).dataStartLba Format.rootDirBuf 1 Nat.one_pos (by omega)
  exact ⟨d₅, Lib.ok_bind_iff.mpr ⟨d₁, isSb, Lib.ok_bind_iff.mpr ⟨_, isBuf, Lib.ok_bind_iff.mpr ⟨d₂, isBlockMap,
    Lib.ok_bind_iff.mpr ⟨d₃, isInodeMap, Lib.ok_bind_iff.mpr ⟨d₄, isTable, isRoot⟩⟩⟩⟩⟩⟩

/-! ### One partition -/

/-- What the body of the loop does with a partition. -/
inductive Visit (partIdx : Nat) (part : Option Device.Partition) (d d' : Drive) : Prop where
  | absent (absent : ∀ p, part = some p → p.secCnt = 0) (same : d' = d)
  | kept (p : Device.Partition) (isPart : part = some p) (low : sbLba p ≤ maxLba)
      (magic : HasMagic d.disk p) (same : d' = d)
  | formatted (p : Device.Partition) (isPart : part = some p) (isThere : p.secCnt ≠ 0)
      (low : sbLba p ≤ maxLba) (noMagic : ¬ HasMagic d.disk p) (formattable : Formattable p)
      (wrote : Wrote { d with formatted := d.formatted ++ [partIdx] } (sbLba p)
        (611 + blockBitmapSects p.secCnt) d')
      (magic : HasMagic d'.disk p)

theorem visitPart_ok {pads : Nat → Buf} {partIdx : Nat} {part : Option Device.Partition}
    (isOk : visitPart pads partIdx part d = .ok d') : Visit partIdx part d d' := by
  unfold visitPart at isOk
  cases part with
  | none =>
      cases isOk
      exact .absent (fun p isSome => by cases isSome) rfl
  | some p =>
      dsimp only at isOk
      split at isOk
      · rename_i isThere
        split at isOk
        · rename_i low
          split at isOk
          · rename_i magic
            cases isOk
            exact .kept p rfl low magic rfl
          · rename_i noMagic
            obtain ⟨formattable, wrote, magic⟩ := partitionFormat_ok isOk
            exact .formatted p rfl isThere low noMagic formattable wrote magic
        · cases isOk
      · rename_i isZero
        cases isOk
        refine .absent (fun p' isSome => ?_) rfl
        cases isSome
        exact not_not.mp isZero

theorem visitPart_total (pads : Nat → Buf) (partIdx : Nat) (part : Option Device.Partition) (d : Drive)
    (low : ∀ p, part = some p → p.secCnt ≠ 0 → sbLba p ≤ maxLba)
    (formattable : ∀ p, part = some p → p.secCnt ≠ 0 → ¬ HasMagic d.disk p → Formattable p) :
    ∃ d', visitPart pads partIdx part d = .ok d' := by
  unfold visitPart
  cases part with
  | none => exact ⟨d, rfl⟩
  | some p =>
      dsimp only
      split
      · rename_i isThere
        rw [if_pos (low p rfl isThere)]
        split
        · exact ⟨d, rfl⟩
        · rename_i noMagic
          exact partitionFormat_total (formattable p rfl isThere noMagic)
      · exact ⟨d, rfl⟩

/-! ### One disk -/

variable {pads : Nat → Buf} {hd : Hd}

/-- The partition of an index. -/
def Hd.partAt (hd : Hd) (partIdx : Nat) : Option Device.Partition :=
  if partIdx < 4 then hd.primParts partIdx else hd.logicParts (partIdx - 4)

/-- There is a partition at this index. -/
structure Hd.Exists (hd : Hd) (partIdx : Nat) (part : Device.Partition) : Prop where
  inTable : partIdx < 12
  isPart : hd.partAt partIdx = some part
  isThere : part.secCnt ≠ 0

/-- The loop with the partitions as one table. -/
def visitAll (pads : Nat → Buf) (hd : Hd) : Nat → Nat → Drive → Except Stop Drive
  | 0, _, d => .ok d
  | left + 1, partIdx, d =>
      visitPart pads partIdx (hd.partAt partIdx) d >>= visitAll pads hd left (partIdx + 1)

/-- The pointer is in step with the index, up to the jump at 4. -/
def InStep (partIdx : Nat) (part : PartPtr) : Prop :=
  (partIdx < 4 → part = .prim partIdx) ∧ (4 < partIdx → part = .logic (partIdx - 4))

theorem scanParts_eq (left : Nat) {partIdx : Nat} {part : PartPtr} (inStep : InStep partIdx part)
    (inTable : partIdx + left ≤ 12) : scanParts pads hd left partIdx part d = visitAll pads hd left partIdx d := by
  induction left generalizing partIdx part d with
  | zero => rfl
  | succ left inductionHypothesis =>
      obtain ⟨isPart, inStep'⟩ : hd.deref (if partIdx = 4 then .logic 0 else part) = .ok (hd.partAt partIdx) ∧
          InStep (partIdx + 1) (PartPtr.next (if partIdx = 4 then .logic 0 else part)) := by
        unfold Hd.deref Hd.partAt InStep
        by_cases jump : partIdx = 4
        · rw [jump]
          exact ⟨rfl, fun low => absurd low (by decide), fun _ => rfl⟩
        · rw [if_neg jump]
          by_cases low : partIdx < 4
          · rw [inStep.1 low, if_pos low]
            exact ⟨if_pos low, fun _ => rfl, fun high => absurd high (by omega)⟩
          · rw [inStep.2 (by omega), if_neg low]
            refine ⟨if_pos (by omega), fun low' => absurd low' (by omega), fun _ => ?_⟩
            exact congrArg PartPtr.logic (by omega)
      show (hd.deref (if partIdx = 4 then .logic 0 else part) >>= fun p =>
        visitPart pads partIdx p d >>= fun d => scanParts pads hd left (partIdx + 1)
          (PartPtr.next (if partIdx = 4 then .logic 0 else part)) d) = _
      rw [isPart]
      show (visitPart pads partIdx (hd.partAt partIdx) d >>= _) = visitPart pads partIdx (hd.partAt partIdx) d >>= _
      congr 1
      funext d'
      exact inductionHypothesis inStep' (by omega)

/-- Whether formatting the partition of an index writes a sector. -/
def coversAt (hd : Hd) (sec partIdx : Nat) : Bool := (hd.partAt partIdx).any fun p => decide (Covers p sec)

theorem coversAt_iff {sec partIdx : Nat} {p : Device.Partition} (isPart : hd.partAt partIdx = some p) :
    coversAt hd sec partIdx = true ↔ Covers p sec := by
  rw [coversAt, isPart]
  exact decide_eq_true_iff

/-- A scan that goes through: all super blocks are on the disk, and the writes are those of
the partitions that were formatted. -/
structure Trace (hd : Hd) (partIdx left : Nat) (d d' : Drive) : Prop where
  low : ∀ j p, partIdx ≤ j → j < partIdx + left → hd.Exists j p → sbLba p ≤ maxLba
  formats : ∃ added, d'.formatted = d.formatted ++ added ∧
    (∀ j ∈ added, ∃ p, hd.partAt j = some p ∧ Formattable p) ∧
    ∀ sec, d'.writeCnt sec = d.writeCnt sec + added.countP (coversAt hd sec)

theorem visitAll_trace {left partIdx : Nat} (isOk : visitAll pads hd left partIdx d = .ok d') :
    Trace hd partIdx left d d' := by
  induction left generalizing partIdx d with
  | zero =>
      cases isOk
      exact ⟨fun j p low high => absurd high (by omega), [], (List.append_nil _).symm,
        fun j mem => absurd mem List.not_mem_nil, fun sec => rfl⟩
  | succ left inductionHypothesis =>
      obtain ⟨d₁, isVisit, isRest⟩ := Lib.ok_bind_iff.mp isOk
      obtain ⟨low, added, isAdded, isFormattable, counted⟩ := inductionHypothesis isRest
      have lowFrom : (∀ p, hd.Exists partIdx p → sbLba p ≤ maxLba) →
          ∀ j p, partIdx ≤ j → j < partIdx + (left + 1) → hd.Exists j p → sbLba p ≤ maxLba := by
        intro first j p from' to' isPart
        by_cases same : j = partIdx
        · exact first p (same ▸ isPart)
        · exact low j p (by omega) (by omega) isPart
      cases visitPart_ok isVisit with
      | absent absent same =>
          rw [same] at isAdded counted
          exact ⟨lowFrom fun p isPart => absurd (absent p isPart.isPart) isPart.isThere, added, isAdded,
            isFormattable, counted⟩
      | kept p isPart lowHere magic same =>
          rw [same] at isAdded counted
          refine ⟨lowFrom fun p' isPart' => ?_, added, isAdded, isFormattable, counted⟩
          rw [isPart'.isPart] at isPart
          cases isPart
          exact lowHere
      | formatted p isPart isThere lowHere noMagic formattable wrote magic =>
          refine ⟨lowFrom fun p' isPart' => ?_, partIdx :: added, ?_, ?_, fun sec => ?_⟩
          · rw [isPart'.isPart] at isPart
            cases isPart
            exact lowHere
          · rw [isAdded, wrote.formatted]
            exact List.append_assoc _ [partIdx] added
          · intro j mem
            rcases List.mem_cons.mp mem with rfl | mem
            · exact ⟨p, isPart, formattable⟩
            · exact isFormattable j mem
          · rw [counted, wrote.counted, List.countP_cons, Nat.add_assoc, Nat.add_comm (List.countP _ _)]
            congr 2
            by_cases covers : Covers p sec
            · rw [if_pos ((coversAt_iff isPart).mpr covers)]
              exact if_pos covers
            · rw [if_neg fun isCovered => covers ((coversAt_iff isPart).mp isCovered)]
              exact if_neg covers

/-- What the scan promises for one disk: every partition has a super block; one that had it
before is not formatted, and none of its sectors is written; every other one is formatted
once, and the sector of its super block is written once. -/
structure Ready (hd : Hd) (out : Drive) : Prop where
  carries : ∀ j p, hd.Exists j p → HasMagic out.disk p
  untouched : ∀ j p, hd.Exists j p → HasMagic hd.disk p → j ∉ out.formatted ∧
    ∀ sec, (p.startLba ≤ sec ∧ sec < p.startLba + p.secCnt) ∨ sec = sbLba p → out.writeCnt sec = 0
  once : ∀ j p, hd.Exists j p → ¬ HasMagic hd.disk p →
    out.formatted.count j = 1 ∧ out.writeCnt (sbLba p) = 1

/-- The super blocks are on the disk, what has to be formatted has its metadata on the
disk, and formatting it writes neither a sector of a partition with a file system nor the
sector of another super block. -/
structure Compatible (hd : Hd) : Prop where
  low : ∀ j p, hd.Exists j p → sbLba p ≤ maxLba
  formattable : ∀ j p, hd.Exists j p → ¬ HasMagic hd.disk p → Formattable p
  apart : ∀ j p k q, hd.Exists j p → hd.Exists k q → ¬ HasMagic hd.disk p → j ≠ k → ¬ Covers p (sbLba q)
  untouched : ∀ j p k q, hd.Exists j p → hd.Exists k q → ¬ HasMagic hd.disk p → HasMagic hd.disk q →
    ∀ sec, q.startLba ≤ sec → sec < q.startLba + q.secCnt → ¬ Covers p sec

/-- The disk before the scan. -/
def Hd.start (hd : Hd) : Drive := ⟨hd.disk, fun _ => 0, []⟩

theorem Hd.Exists.eq {j : Nat} {p q : Device.Partition} (isPart : hd.Exists j p) (isPart' : hd.partAt j = some q) :
    p = q :=
  Option.some.inj (isPart.isPart.symm.trans isPart')

/-- Two members of a list count twice. -/
theorem two_le_countP {α : Type} {test : α → Bool} {xs : List α} {a b : α} (first : a ∈ xs) (second : b ∈ xs)
    (ne : a ≠ b) (isFirst : test a = true) (isSecond : test b = true) : 2 ≤ xs.countP test := by
  have memFirst := List.mem_filter.mpr ⟨first, isFirst⟩
  have memSecond := List.mem_filter.mpr ⟨second, isSecond⟩
  rw [List.countP_eq_length_filter]
  rcases isFiltered : xs.filter test with _ | ⟨x, _ | ⟨y, rest⟩⟩
  · rw [isFiltered] at memFirst
    cases memFirst
  · rw [isFiltered] at memFirst memSecond
    exact absurd ((List.mem_singleton.mp memFirst).trans (List.mem_singleton.mp memSecond).symm) ne
  · exact Nat.le_add_left 2 _

/-- A scan that keeps its promise was of a compatible layout. -/
theorem Ready.compatible {out : Drive} (ready : Ready hd out) (isOk : visitAll pads hd 12 0 hd.start = .ok out) :
    Compatible hd := by
  obtain ⟨low, added, isAdded, isFormattable, counted⟩ := visitAll_trace isOk
  have isOut : out.formatted = added := isAdded
  have isCount : ∀ sec, out.writeCnt sec = added.countP (coversAt hd sec) := fun sec => by
    rw [counted]
    exact Nat.zero_add _
  have isFormatted : ∀ j p, hd.Exists j p → ¬ HasMagic hd.disk p → j ∈ added := fun j p isPart noMagic => by
    refine List.count_pos_iff.mp ?_
    rw [← isOut, (ready.once j p isPart noMagic).1]
    exact Nat.one_pos
  have notWritten : ∀ j p sec, hd.Exists j p → ¬ HasMagic hd.disk p → out.writeCnt sec = 0 → ¬ Covers p sec := by
    intro j p sec isPart noMagic isZero covers
    rw [isCount, List.countP_eq_zero] at isZero
    exact isZero j (isFormatted j p isPart noMagic) ((coversAt_iff isPart.isPart).mpr covers)
  refine ⟨fun j p isPart => low j p (Nat.zero_le j) (by have := isPart.inTable; omega) isPart, ?_, ?_, ?_⟩
  · intro j p isPart noMagic
    obtain ⟨p', isPart', formattable⟩ := isFormattable j (isFormatted j p isPart noMagic)
    rw [isPart.eq isPart']
    exact formattable
  · intro j p k q isPart isOther noMagic ne covers
    by_cases magic : HasMagic hd.disk q
    · exact notWritten j p _ isPart noMagic ((ready.untouched k q isOther magic).2 _ (.inr rfl)) covers
    · have isOnce := (ready.once k q isOther magic).2
      have isTwice := two_le_countP (isFormatted j p isPart noMagic) (isFormatted k q isOther magic) ne
        ((coversAt_iff isPart.isPart).mpr covers) ((coversAt_iff isOther.isPart).mpr Covers.sbLba)
      rw [← isCount, isOnce] at isTwice
      omega
  · intro j p k q isPart isOther noMagic magic sec from' to'
    exact notWritten j p sec isPart noMagic
      ((ready.untouched k q isOther magic).2 sec (.inl ⟨from', to'⟩))

/-! ### A compatible layout -/

theorem hasMagic_congr {disk disk' : Disk} {p : Device.Partition} (same : disk' (sbLba p) = disk (sbLba p)) :
    HasMagic disk' p ↔ HasMagic disk p := by
  unfold HasMagic
  rw [ideRead_congr same]

/-- The scan up to an index: what had to be formatted is, once, and nothing else. -/
structure Scanned (hd : Hd) (partIdx : Nat) (d : Drive) : Prop where
  once : ∀ j p, hd.Exists j p → ¬ HasMagic hd.disk p → j < partIdx → d.formatted.count j = 1
  only : ∀ j ∈ d.formatted, j < partIdx ∧ ∃ p, hd.Exists j p ∧ ¬ HasMagic hd.disk p
  written : ∀ sec, d.writeCnt sec = d.formatted.countP (coversAt hd sec)
  kept : ∀ sec, d.writeCnt sec = 0 → d.disk sec = hd.disk sec
  magic : ∀ j ∈ d.formatted, ∀ p, hd.Exists j p → HasMagic d.disk p

theorem Scanned.start : Scanned hd 0 hd.start :=
  ⟨fun _ _ _ _ below => absurd below (Nat.not_lt_zero _), fun _ mem => absurd mem List.not_mem_nil,
    fun _ => rfl, fun _ _ => rfl, fun _ mem => absurd mem List.not_mem_nil⟩

section Compatible

variable (compatible : Compatible hd) {partIdx : Nat}
include compatible

/-- The super block of a partition that is not formatted has not been written. -/
theorem Scanned.notWritten (scanned : Scanned hd partIdx d) {j : Nat} {p : Device.Partition}
    (isPart : hd.Exists j p) (notFormatted : j ∉ d.formatted) : d.writeCnt (sbLba p) = 0 := by
  rw [scanned.written, List.countP_eq_zero]
  intro k mem covers
  obtain ⟨-, q, isOther, noMagic⟩ := scanned.only k mem
  refine compatible.apart k q j p isOther isPart noMagic (fun same => notFormatted (same ▸ mem)) ?_
  exact (coversAt_iff isOther.isPart).mp covers

/-- One more partition. -/
theorem Scanned.step (pads : Nat → Buf) (scanned : Scanned hd partIdx d) (inTable : partIdx < 12) :
    ∃ d', visitPart pads partIdx (hd.partAt partIdx) d = .ok d' ∧ Scanned hd (partIdx + 1) d' := by
  have notYet : partIdx ∉ d.formatted := fun mem => Nat.lt_irrefl _ (scanned.only partIdx mem).1
  have sameMagic : ∀ p, hd.Exists partIdx p → (HasMagic d.disk p ↔ HasMagic hd.disk p) := fun p isPart =>
    hasMagic_congr (scanned.kept _ (scanned.notWritten compatible isPart notYet))
  obtain ⟨d', isOk⟩ := visitPart_total pads partIdx (hd.partAt partIdx) d
    (fun p isPart isThere => compatible.low partIdx p ⟨inTable, isPart, isThere⟩)
    (fun p isPart isThere noMagic => compatible.formattable partIdx p ⟨inTable, isPart, isThere⟩
      fun magic => noMagic ((sameMagic p ⟨inTable, isPart, isThere⟩).mpr magic))
  refine ⟨d', isOk, ?_⟩
  -- an index that needs nothing is passed over
  have passed : (∀ p, hd.Exists partIdx p → HasMagic hd.disk p) → d' = d → Scanned hd (partIdx + 1) d' := by
    rintro settled rfl
    refine ⟨fun j p isPart noMagic below => ?_, fun j mem => ?_, scanned.written, scanned.kept, scanned.magic⟩
    · by_cases same : j = partIdx
      · exact absurd (settled p (same ▸ isPart)) noMagic
      · exact scanned.once j p isPart noMagic (by omega)
    · obtain ⟨below, isNeeded⟩ := scanned.only j mem
      exact ⟨by omega, isNeeded⟩
  cases visitPart_ok isOk with
  | absent absent same =>
      exact passed (fun p isPart => absurd (absent p isPart.isPart) isPart.isThere) same
  | kept p isPart low magic same =>
      refine passed (fun p' isPart' => ?_) same
      rw [isPart'.eq isPart]
      rw [isPart'.eq isPart] at isPart'
      exact (sameMagic p isPart').mp magic
  | formatted p isPart isThere low noMagic formattable wrote magic =>
      have isThere : hd.Exists partIdx p := ⟨inTable, isPart, isThere⟩
      have isFormatted : d'.formatted = d.formatted ++ [partIdx] := wrote.formatted
      have isCounted : ∀ sec, d'.writeCnt sec = d.writeCnt sec + if coversAt hd sec partIdx then 1 else 0 := by
        intro sec
        rw [wrote.counted]
        congr 1
        by_cases covers : Covers p sec
        · rw [if_pos ((coversAt_iff isPart).mpr covers)]
          exact if_pos covers
        · rw [if_neg fun isCovered => covers ((coversAt_iff isPart).mp isCovered)]
          exact if_neg covers
      refine ⟨fun j p' isPart' noMagic' below => ?_, fun j mem => ?_, fun sec => ?_, fun sec isZero => ?_,
        fun j mem p' isPart' => ?_⟩
      · rw [isFormatted, List.count_append, List.count_singleton]
        by_cases same : j = partIdx
        · rw [same, List.count_eq_zero.mpr notYet]
          simp
        · rw [scanned.once j p' isPart' noMagic' (by omega)]
          simp [Ne.symm same]
      · rw [isFormatted, List.mem_append, List.mem_singleton] at mem
        rcases mem with mem | rfl
        · obtain ⟨below, isNeeded⟩ := scanned.only j mem
          exact ⟨by omega, isNeeded⟩
        · exact ⟨by omega, p, isThere, fun isMagic => noMagic ((sameMagic p isThere).mpr isMagic)⟩
      · rw [isCounted, scanned.written, isFormatted, List.countP_append, List.countP_singleton]
      · rw [isCounted] at isZero
        have notCovered : ¬ Covers p sec := fun covers => by
          rw [if_pos ((coversAt_iff isPart).mpr covers)] at isZero
          omega
        rw [wrote.kept sec notCovered]
        exact scanned.kept sec (by omega)
      · rw [isFormatted, List.mem_append, List.mem_singleton] at mem
        rcases mem with mem | rfl
        · obtain ⟨below, q, isOther, otherNoMagic⟩ := scanned.only j mem
          have ne : partIdx ≠ j := by omega
          have notCovered : ¬ Covers p (sbLba p') :=
            compatible.apart partIdx p j p' isThere isPart'
              (fun isMagic => noMagic ((sameMagic p isThere).mpr isMagic)) ne
          exact (hasMagic_congr (wrote.kept _ notCovered)).mpr (scanned.magic j mem p' isPart')
        · rw [isPart'.eq isPart]
          exact magic

theorem Scanned.run (pads : Nat → Buf) (left : Nat) (scanned : Scanned hd partIdx d) (inTable : partIdx + left ≤ 12) :
    ∃ d', visitAll pads hd left partIdx d = .ok d' ∧ Scanned hd (partIdx + left) d' := by
  induction left generalizing partIdx d with
  | zero => exact ⟨d, rfl, scanned⟩
  | succ left inductionHypothesis =>
      obtain ⟨d₁, isVisit, scanned₁⟩ := scanned.step compatible pads (by omega)
      obtain ⟨d', isRest, scanned'⟩ := inductionHypothesis scanned₁ (by omega)
      refine ⟨d', Lib.ok_bind_iff.mpr ⟨d₁, isVisit, isRest⟩, ?_⟩
      rw [Nat.add_assoc, Nat.add_comm 1] at scanned'
      exact scanned'

/-- After the whole scan the promise holds. -/
theorem Scanned.ready (scanned : Scanned hd 12 d) : Ready hd d := by
  have notFormatted : ∀ j p, hd.Exists j p → HasMagic hd.disk p → j ∉ d.formatted := by
    intro j p isPart magic mem
    obtain ⟨-, q, isOther, noMagic⟩ := scanned.only j mem
    rw [← isPart.eq isOther.isPart] at noMagic
    exact noMagic magic
  refine ⟨fun j p isPart => ?_, fun j p isPart magic => ⟨notFormatted j p isPart magic, fun sec inside => ?_⟩,
    fun j p isPart noMagic => ?_⟩
  · by_cases magic : HasMagic hd.disk p
    · exact (hasMagic_congr (scanned.kept _ (scanned.notWritten compatible isPart
        (notFormatted j p isPart magic)))).mpr magic
    · refine scanned.magic j (List.count_pos_iff.mp ?_) p isPart
      rw [scanned.once j p isPart magic isPart.inTable]
      exact Nat.one_pos
  · rcases inside with ⟨from', to'⟩ | rfl
    · rw [scanned.written, List.countP_eq_zero]
      intro k mem covers
      obtain ⟨-, q, isOther, noMagic⟩ := scanned.only k mem
      exact compatible.untouched k q j p isOther isPart noMagic magic sec from' to'
        ((coversAt_iff isOther.isPart).mp covers)
    · exact scanned.notWritten compatible isPart (notFormatted j p isPart magic)
  · have isOnce := scanned.once j p isPart noMagic isPart.inTable
    refine ⟨isOnce, ?_⟩
    rw [scanned.written, ← isOnce, List.count]
    refine List.countP_congr fun k mem => ?_
    rw [beq_iff_eq]
    obtain ⟨-, q, isOther, otherNoMagic⟩ := scanned.only k mem
    rw [coversAt_iff isOther.isPart]
    constructor
    · intro covers
      by_contra ne
      exact compatible.apart k q j p isOther isPart otherNoMagic ne covers
    · rintro rfl
      rw [isPart.eq isOther.isPart]
      exact Covers.sbLba

end Compatible

/-- The first disk. -/
theorem ready_iff : (∃ out, visitAll pads hd 12 0 hd.start = .ok out ∧ Ready hd out) ↔ Compatible hd := by
  constructor
  · rintro ⟨out, isOk, ready⟩
    exact ready.compatible isOk
  · intro compatible
    obtain ⟨out, isOk, scanned⟩ := Scanned.run compatible pads 12 Scanned.start (by decide)
    exact ⟨out, isOk, scanned.ready compatible⟩

/-! ### The channels -/

/-- Every partition has its file system already. -/
def Settled (hd : Hd) : Prop := ∀ j p, hd.Exists j p → HasMagic hd.disk p

/-- The scan of a disk with a `part_idx` past the table does nothing. -/
theorem ready_start_iff : Ready hd hd.start ↔ Settled hd := by
  constructor
  · exact fun ready j p isPart => ready.carries j p isPart
  · exact fun settled => ⟨settled, fun j p _ _ => ⟨List.not_mem_nil, fun _ _ => rfl⟩,
      fun j p isPart noMagic => absurd (settled j p isPart) noMagic⟩

theorem scanDisk_first : scanDisk pads hd 0 = visitAll pads hd 12 0 hd.start >>= fun d => .ok (d, 12) := by
  have inStep : InStep 0 (.prim 0) := ⟨fun _ => rfl, fun high => absurd high (by decide)⟩
  exact congrArg (· >>= fun d => .ok (d, 12)) (scanParts_eq 12 inStep (by decide))

/-- `part_idx` stays at 12 after the first disk: the later ones are not scanned. -/
theorem scanChannels_later {channels : List Hd} : scanChannels pads channels 12 = .ok (channels.map Hd.start) := by
  induction channels with
  | nil => rfl
  | cons hd rest inductionHypothesis =>
      show scanChannels pads rest 12 >>= _ = _
      rw [inductionHypothesis]
      rfl

/-- The promise for every disk, when `filesys_init` gets through its scan. -/
def InitSound (pads : Nat → Buf) (channels : List Hd) : Prop :=
  ∃ outs, filesysInit pads channels = .ok outs ∧ List.Forall₂ Ready channels outs

/-- The first disk has a compatible layout, and the others are settled. -/
def Prepared : List Hd → Prop
  | [] => True
  | first :: later => Compatible first ∧ ∀ hd ∈ later, Settled hd

theorem forall₂_start_iff {channels : List Hd} :
    List.Forall₂ Ready channels (channels.map Hd.start) ↔ ∀ hd ∈ channels, Settled hd := by
  induction channels with
  | nil => exact ⟨fun _ hd mem => absurd mem List.not_mem_nil, fun _ => .nil⟩
  | cons hd rest inductionHypothesis =>
      rw [List.map_cons, List.forall₂_cons, inductionHypothesis, ready_start_iff, List.forall_mem_cons]

theorem initSound_iff {channels : List Hd} : InitSound pads channels ↔ Prepared channels := by
  unfold InitSound Prepared filesysInit
  cases channels with
  | nil => exact ⟨fun _ => trivial, fun _ => ⟨[], rfl, .nil⟩⟩
  | cons first later =>
      constructor
      · rintro ⟨outs, isOk, ready⟩
        obtain ⟨scanned, isScan, isOk⟩ := Lib.ok_bind_iff.mp isOk
        rw [scanDisk_first] at isScan
        obtain ⟨d, isFirst, isPair⟩ := Lib.ok_bind_iff.mp isScan
        cases isPair
        obtain ⟨drives, isLater, isOuts⟩ := Lib.ok_bind_iff.mp isOk
        rw [scanChannels_later] at isLater
        cases isLater
        cases isOuts
        obtain ⟨readyFirst, readyLater⟩ := List.forall₂_cons.mp ready
        exact ⟨ready_iff.mp ⟨d, isFirst, readyFirst⟩, forall₂_start_iff.mp readyLater⟩
      · rintro ⟨compatible, settled⟩
        obtain ⟨d, isFirst, ready⟩ := ready_iff.mpr compatible
        have isScan : scanDisk pads first 0 = .ok (d, 12) := by
          rw [scanDisk_first, isFirst]
          rfl
        refine ⟨d :: later.map Hd.start, ?_, .cons ready (forall₂_start_iff.mpr settled)⟩
        exact Lib.ok_bind_iff.mpr ⟨_, isScan, Lib.ok_bind_iff.mpr ⟨_, scanChannels_later, rfl⟩⟩

/-- After the scan of `filesys_init` every partition on the second disk of every channel has
its super block, those that had one untouched and the others formatted once, exactly if the
first channel's layout is compatible and the disks of the other channels had nothing to
format. -/
theorem filesys_init_iff (pads : Nat → Buf) (channels : List Hd) : InitSound pads channels ↔ Prepared channels :=
  initSound_iff

/-- A disk with one new partition. -/
def freshDisk : Hd where
  primParts idx := if idx = 0 then some ⟨63, 20000, 0, 1⟩ else none
  logicParts _ := none
  disk _ _ := 0

/-- The new partition on the second channel's disk is not formatted. -/
theorem filesys_init_skips_second : ¬ ∀ pads channels, InitSound pads channels := by
  intro sound
  obtain ⟨-, settled⟩ := initSound_iff.mp (sound (fun _ _ => 0) [freshDisk, freshDisk])
  have isThere : freshDisk.Exists 0 ⟨63, 20000, 0, 1⟩ := ⟨by decide, rfl, by decide⟩
  have magic := settled freshDisk (List.mem_singleton.mpr rfl) 0 _ isThere
  revert magic
  decide

end ZyOs.Fs.FilesysInit
