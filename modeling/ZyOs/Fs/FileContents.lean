import ZyOs.Fs.FileBlocks
import ZyOs.Lib.Windows

/-!
Contract: the bytes of a regular file, in the blocks that it holds.

Owns:
- `HasBytes`: the blocks of a file have its bytes, one block behind the other;
- that a `file_write` that returns its count puts its bytes behind those of the file,
  and writes to the blocks of the file and to the inode table only;
- that a `file_read` that returns gives the bytes from its position on.

Does not own: several files on one volume.
-/

namespace ZyOs.Fs

open ZyOs.Kernel ZyOs.Lib
open InodeTable (pureInode)

variable {part part' : Volume} {inode inode' : InodeTable.Inode} {bs : List Nat} {data : List UInt8}
  {file file' : OpenFile} {blocks : List Nat} {buf : Buf} {count : UInt32}

/-- The first bytes of a buffer. -/
def bufBytes (buf : Buf) (count : Nat) : List UInt8 := (List.range count).map buf

theorem length_bufBytes (buf : Buf) (count : Nat) : (bufBytes buf count).length = count := by
  rw [bufBytes, List.length_map, List.length_range]

theorem getElem_bufBytes {i : Nat} (inside : i < (bufBytes buf n).length) : (bufBytes buf n)[i] = buf i := by
  simp only [bufBytes, List.getElem_map, List.getElem_range]

theorem bufBytes_add (buf : Buf) (first rest : Nat) :
    bufBytes buf (first + rest) = bufBytes buf first ++ bufBytes (fun i => buf (first + i)) rest := by
  rw [bufBytes, List.range_add, List.map_append, List.map_map]
  rfl

/-- The blocks, one behind the other. -/
def blockWindow (disk : Disk) (bs : List Nat) : Nat → Nat → UInt8 := fun k => disk (bs.getD k 0)

/-- The file holds blocks, and they have its bytes. An empty file that was never written
has no block; every other one has a block for the next byte. -/
structure HasBytes (part : Volume) (inode : InodeTable.Inode) (bs : List Nat) (data : List UInt8) : Prop where
  holds : HoldsBlocks part inode bs
  size : inode.iSize.toNat = data.length
  small : data.length < 71680
  blocks : bs.length = data.length / blockSize + 1 ∨ (bs = [] ∧ data = [])
  bytes : InWindows blockSize (blockWindow part.disk bs) data

/-! ### The loop of `file_write` -/

/-- The volume after a pass of the loop, which writes `chunk` bytes from `off` on. -/
def writePass (part : Volume) (lba off chunk : Nat) (src : Buf) (isFirst : Bool) : Volume :=
  part.ideWrite lba (memcpy (if isFirst then ideRead part.disk lba 1 else fun _ => 0) off src chunk)

/-- What a pass leaves in the sector that it writes. -/
theorem writePass_sector (part : Volume) (lba : Nat) {off chunk : Nat} (src : Buf) {isFirst : Bool}
    (fits : off + chunk ≤ blockSize) (fresh : isFirst = true ∨ off = 0) :
    (∀ j < off, (writePass part lba off chunk src isFirst).disk lba j = part.disk lba j) ∧
      ∀ j < chunk, (writePass part lba off chunk src isFirst).disk lba (off + j) = src j := by
  have width : blockSize = sectorSize := rfl
  have isWritten : ∀ j < sectorSize, (writePass part lba off chunk src isFirst).disk lba j =
      memcpy (if isFirst then ideRead part.disk lba 1 else fun _ => 0) off src chunk j :=
    fun j inSector => ideWrite_self _ _ _ inSector
  refine ⟨fun j before => ?_, fun j inside => ?_⟩
  · rw [isWritten j (by omega)]
    unfold memcpy
    rw [if_neg (by omega)]
    rcases fresh with rfl | isZero
    · rw [if_pos rfl, ideRead_apply _ _ (by omega)]
    · omega
  · rw [isWritten (off + j) (by omega)]
    unfold memcpy
    rw [if_pos (by omega), Nat.add_sub_cancel_left]

/-- A pass puts its bytes behind those of the file. -/
theorem writePass_bytes {lba chunk : Nat} {isFirst : Bool} (src : Buf) (nodup : bs.Nodup)
    (bytes : InWindows blockSize (blockWindow part.disk bs) data)
    (inside : data.length / blockSize < bs.length) (isLba : lba = bs.getD (data.length / blockSize) 0)
    (fits : data.length % blockSize + chunk ≤ blockSize)
    (fresh : isFirst = true ∨ data.length % blockSize = 0) :
    InWindows blockSize
      (blockWindow (writePass part lba (data.length % blockSize) chunk src isFirst).disk bs)
      (data ++ bufBytes src chunk) := by
  obtain ⟨kept, written⟩ := writePass_sector part lba src fits fresh
  apply bytes.append
  · rw [length_bufBytes]
    exact fits
  · intro i old other
    have small : i / blockSize ≤ data.length / blockSize := Nat.div_le_div_right (Nat.le_of_lt old)
    have ne : bs.getD (i / blockSize) 0 ≠ lba := by
      rw [isLba, List.getD_eq_getElem _ _ (by omega), List.getD_eq_getElem _ _ inside]
      exact fun same => other ((List.Nodup.getElem_inj_iff nodup).mp same)
    exact ideWrite_other _ _ (by omega)
  · intro j before
    unfold blockWindow
    rw [← isLba]
    exact kept j before
  · intro j behind
    unfold blockWindow
    rw [getElem_bufBytes, ← isLba]
    rw [length_bufBytes] at behind
    exact written j behind

/-- What the loop of `file_write` has done, when `added` more bytes are in the file. -/
structure Appended (part part' : Volume) (inode inode' : InodeTable.Inode) (bs : List Nat)
    (data added : List UInt8) : Prop where
  grown : Grown part part' inode inode' bs bs bs
  size : inode'.iSize.toNat = data.length + added.length
  bytes : InWindows blockSize (blockWindow part'.disk bs) (data ++ added)

theorem Appended.nothing (holds : HoldsBlocks part inode bs) (size : inode.iSize.toNat = data.length)
    (bytes : InWindows blockSize (blockWindow part.disk bs) data) (src : Buf) :
    Appended part part inode inode bs data (bufBytes src 0) where
  grown := .refl holds fun _ mem => List.mem_append_right _ mem
  size := size
  bytes := by
    rw [bufBytes, List.range_zero, List.map_nil, List.append_nil]
    exact bytes

/-- One pass, and what comes behind it. -/
theorem Appended.pass {part₁ : Volume} {inode₁ : InodeTable.Inode} {first rest : List UInt8}
    {lba : Nat} (mem : lba ∈ bs) (grown : Grown part part₁ inode inode₁ bs bs [lba])
    (appended : Appended part₁ part' inode₁ inode' bs (data ++ first) rest) :
    Appended part part' inode inode' bs data (first ++ rest) where
  grown := (grown.trans appended.grown).mono
    (fun other isOther => by
      rcases List.mem_cons.mp isOther with rfl | isOther
      · exact mem
      · exact isOther)
    fun _ isOther => List.mem_append_right _ isOther
  size := by
    rw [appended.size, List.length_append, List.length_append, Nat.add_assoc]
  bytes := by
    rw [← List.append_assoc]
    exact appended.bytes

/-- The loop writes to the blocks of the file, and puts the bytes of the buffer behind
those of the file. -/
theorem writeLoop_bytes {fuel sizeLeft : Nat} {isFirst : Bool} {src : Buf} (layout : part.Layout)
    (holds : HoldsBlocks part file.inode bs) (size : file.inode.iSize.toNat = data.length)
    (bytes : InWindows blockSize (blockWindow part.disk bs) data) (small : data.length + sizeLeft < 71680)
    (enough : (data.length + sizeLeft) / blockSize < bs.length)
    (listed : ∀ idx, data.length / blockSize ≤ idx → idx < bs.length → blocks.getD idx 0 = bs.getD idx 0)
    (fresh : isFirst = true ∨ data.length % blockSize = 0 ∨ sizeLeft = 0)
    (isRun : writeLoop fuel part file blocks isFirst src sizeLeft = some (part', file')) :
    Appended part part' file.inode file'.inode bs data (bufBytes src sizeLeft) := by
  induction fuel generalizing part file data isFirst src sizeLeft with
  | zero =>
      unfold writeLoop at isRun
      split at isRun
      · rename_i isZero
        cases isRun
        rw [isZero]
        exact .nothing holds size bytes src
      · cases isRun
  | succ fuel inductionHypothesis =>
      unfold writeLoop at isRun
      split at isRun
      · rename_i isZero
        cases isRun
        rw [isZero]
        exact .nothing holds size bytes src
      rename_i notZero
      obtain ⟨_, _, isRest⟩ := Option.bind_eq_some_iff.mp isRun
      rw [size] at isRest
      generalize isChunk : chunkSize data.length sizeLeft = chunk
      have positive := chunkSize_pos data.length (Nat.pos_of_ne_zero notZero)
      have atMost := chunkSize_le data.length sizeLeft
      have isWord := @toNat_chunk data.length sizeLeft (by omega)
      have inSector : data.length % blockSize < blockSize := Nat.mod_lt _ (by decide)
      have fits : data.length % blockSize + chunkSize data.length sizeLeft ≤ blockSize := by
        unfold chunkSize
        split <;> omega
      have ends : (data.length + chunkSize data.length sizeLeft) % blockSize = 0 ∨
          sizeLeft - chunkSize data.length sizeLeft = 0 := by
        unfold chunkSize blockSize
        split <;> omega
      rw [isChunk] at positive atMost isWord fits ends
      have isRest : writeLoop fuel (writePass part (blocks.getD (data.length / blockSize) 0)
          (data.length % blockSize) chunk src isFirst)
          ⟨file.fdPos + UInt32.ofNat chunk, { file.inode with iSize := file.inode.iSize + UInt32.ofNat chunk }⟩
          blocks false (fun i => src (chunk + i)) (sizeLeft - chunk) = some (part', file') := by
        rw [← isChunk]
        exact isRest
      have inside : data.length / blockSize < bs.length :=
        (Nat.div_le_div_right (Nat.le_add_right _ _)).trans_lt enough
      have isLba := listed _ (Nat.le_refl _) inside
      have mem : blocks.getD (data.length / blockSize) 0 ∈ bs := by
        rw [isLba, List.getD_eq_getElem _ _ inside]
        exact List.getElem_mem inside
      have passed := writePass_bytes src (List.nodup_append.mp holds.nodup).2.1 bytes inside isLba fits
        (fresh.imp_right fun isZero => isZero.resolve_right notZero)
      have grown : Grown part (writePass part (blocks.getD (data.length / blockSize) 0)
          (data.length % blockSize) chunk src isFirst) file.inode
          { file.inode with iSize := file.inode.iSize + UInt32.ofNat chunk } bs bs
          [blocks.getD (data.length / blockSize) 0] :=
        holds.write layout mem _ rfl rfl
      have moved : (file.inode.iSize + UInt32.ofNat chunk).toNat = data.length + chunk := by
        rw [toNat_add_of_fits (by unfold Fits; dsimp only; omega), isWord, size]
      have length : (data ++ bufBytes src chunk).length = data.length + chunk := by
        rw [List.length_append, length_bufBytes]
      have sum : (data ++ bufBytes src chunk).length + (sizeLeft - chunk) = data.length + sizeLeft := by
        omega
      have rest := inductionHypothesis (grown.keeps.layout layout) grown.holds (moved.trans length.symm) passed
        (by rw [sum]; exact small) (by rw [sum]; exact enough)
        (fun idx above => listed idx ((Nat.div_le_div_right (by omega)).trans above))
        (.inr (by rw [length]; exact ends)) isRest
      have split : sizeLeft = chunk + (sizeLeft - chunk) := by omega
      rw [split, bufBytes_add]
      exact .pass mem grown rest

/-! ### `file_write` -/

/-- What a write does to the volume: the blocks of the file and the slot of its inode
are written, blocks that were in use stay so, and new ones were free. -/
structure Wrote (part part' : Volume) (inode inode' : InodeTable.Inode) (bs bs' : List Nat) : Prop where
  keeps : part.Keeps part' [inode.iNo.toNat % 256] (fileBlocks inode' bs')
  kept : ∀ lba, part.InUse lba → part'.InUse lba
  own : ∀ lba ∈ fileBlocks inode' bs', lba ∈ fileBlocks inode bs ∨ ¬ part.InUse lba
  iNo : inode'.iNo = inode.iNo
  record : part'.record (inode.iNo.toNat % 256) = pureInode inode'

/-- More blocks behind those of the file. -/
theorem blockWindow_append {disk disk' : Disk} {new : List Nat} {k : Nat} (inside : k < bs.length)
    (same : disk' (bs.getD k 0) = disk (bs.getD k 0)) :
    blockWindow disk' (bs ++ new) k = blockWindow disk bs k := by
  unfold blockWindow
  rw [List.getD_append _ _ _ _ inside]
  exact same

/-- The bytes stay when the file gets blocks. -/
theorem Grown.bytes {new : List Nat} (grown : Grown part part' inode inode' bs (bs ++ new) (tableBlock inode'))
    (holds : HoldsBlocks part inode bs) (inside : data = [] ∨ data.length / blockSize < bs.length)
    (bytes : InWindows blockSize (blockWindow part.disk bs) data) :
    InWindows blockSize (blockWindow part'.disk (bs ++ new)) data := by
  refine bytes.congr fun i small => ?_
  have isBlock : i / blockSize < bs.length := by
    rcases inside with rfl | inside
    · exact absurd small (Nat.not_lt_zero i)
    · exact (Nat.div_le_div_right (Nat.le_of_lt small)).trans_lt inside
  apply blockWindow_append isBlock
  apply grown.sameBytes holds
  rw [List.getD_eq_getElem _ _ isBlock]
  exact List.getElem_mem isBlock

/-- `inode_sync` at the end of a write. -/
theorem Grown.synced {part'' : Volume} {bs' written : List Nat} (layout : part.Layout)
    (grown : Grown part part' inode inode' bs bs' written) (isRun : part'.inodeSync inode' = some part'') :
    Wrote part part'' inode inode' bs bs' ∧ HoldsBlocks part'' inode' bs' ∧
      ∀ lba ∈ bs', part''.disk lba = part'.disk lba := by
  obtain ⟨keeps, record, blockBitmap, _⟩ :=
    Volume.inodeSync_eq_some (grown.keeps.layout layout) isRun
  have inUse : ∀ lba, part''.InUse lba ↔ part'.InUse lba := fun lba => keeps.inUse_iff blockBitmap
  have sameDisk : ∀ lba ∈ bs', part''.disk lba = part'.disk lba := fun lba mem =>
    keeps.writes.disk lba (grown.holds.inUse lba (List.mem_append_right _ mem)).inData List.not_mem_nil
  rw [grown.iNo] at keeps record
  refine ⟨⟨(grown.keeps.trans keeps).mono (fun _ mem => mem) ?_, fun lba before => ?_, fun lba mem => ?_,
    grown.iNo, record⟩, ?_, sameDisk⟩
  · rw [List.append_nil]
    exact grown.isOwn
  · exact (inUse lba).mpr (grown.kept lba before)
  · exact ((grown.own lba).mp mem).imp_right fun both => both.2
  · exact grown.holds.frame keeps.writes (fun _ => List.not_mem_nil)
      (fun lba mem => (inUse lba).mpr (grown.holds.inUse lba mem)) rfl

/-- A `file_write` that returns its count has put its bytes behind those of the file. -/
theorem fileWrite_bytes {written : UInt32} (layout : part.Layout) (has : HasBytes part file.inode bs data)
    (isRun : fileWrite part file buf count = some (part', file', some written)) :
    written = count ∧ ∃ bs', HasBytes part' file'.inode bs' (data ++ bufBytes buf count.toNat) ∧
      Wrote part part' file.inode file'.inode bs bs' := by
  have size := has.size
  have succeeded := fileWrite_succeeded (by rw [size]; exact has.small) isRun
  have small := succeeded.small
  rw [size] at small
  unfold fileWrite at isRun
  split at isRun
  · cases isRun
  have isCount := Option.some.inj (writeData_written isRun)
  unfold writeData at isRun
  obtain ⟨⟨part₁, inode₁, done₁⟩, isFirst, isRest⟩ := Option.bind_eq_some_iff.mp isRun
  obtain rfl := allocFirst_done isFirst
  simp only [Bool.true_eq_false, if_false] at isRest
  obtain ⟨_, isGuard, isRest⟩ := Option.bind_eq_some_iff.mp isRest
  obtain ⟨⟨part₂, inode₂, blocks, done₂⟩, isBlocks, isRest⟩ := Option.bind_eq_some_iff.mp isRest
  obtain rfl := writeBlocks_done isBlocks
  simp only [Bool.true_eq_false, if_false] at isRest
  obtain ⟨⟨part₃, file₃⟩, isLoop, isRest⟩ := Option.bind_eq_some_iff.mp isRest
  obtain ⟨part₄, isSync, isPair⟩ := Option.bind_eq_some_iff.mp isRest
  cases isPair
  -- the first block, then the others, then the sectors, then the inode
  obtain ⟨new₁, grown₁, size₁, length₁⟩ := allocFirst_grown layout has.holds isFirst
  have isUsed : (bs ++ new₁).length = data.length / blockSize + 1 := by
    rcases has.blocks with isLength | ⟨rfl, rfl⟩
    · rw [length₁, isLength, max_eq_right (Nat.le_add_left _ _)]
    · rw [length₁]
      rfl
  have sum : (inode₁.iSize + count).toNat = data.length + count.toNat := by
    rw [size₁, toNat_add_of_fits (by unfold Fits; dsimp only; omega), size]
  rw [size₁, size, ← isUsed, ← size₁, sum] at isBlocks
  have willFit : (data.length + count.toNat) / blockSize + 1 ≤ 140 := by
    unfold blockSize
    omega
  have le : (bs ++ new₁).length ≤ (data.length + count.toNat) / blockSize + 1 := by
    rw [isUsed]
    exact Nat.succ_le_succ (Nat.div_le_div_right (Nat.le_add_right _ _))
  have layout₁ := grown₁.keeps.layout layout
  obtain ⟨new₂, collected⟩ := writeBlocks_collected layout₁ grown₁.holds (by omega) le willFit isBlocks
  have bytes₁ := grown₁.bytes has.holds (has.blocks.symm.imp (fun both => both.2) fun isLength => by omega) has.bytes
  have bytes₂ := collected.grown.bytes grown₁.holds (.inr (by omega)) bytes₁
  have size₂ : inode₂.iSize.toNat = data.length := by
    rw [collected.iSize, size₁, size]
  have isLength := collected.length
  have appended := writeLoop_bytes (collected.grown.keeps.layout layout₁) collected.grown.holds size₂ bytes₂ small
    (by omega) (fun idx above inside => collected.listed idx (by omega) (by omega)) (.inl rfl) isLoop
  have grown := (grown₁.trans collected.grown).trans appended.grown
  obtain ⟨wrote, holds, sameDisk⟩ := grown.synced layout isSync
  have length : (data ++ bufBytes buf count.toNat).length = data.length + count.toNat := by
    rw [List.length_append, length_bufBytes]
  refine ⟨isCount, _, ⟨holds, ?_, ?_, .inl ?_, ?_⟩, wrote⟩
  · rw [appended.size, length, length_bufBytes]
  · rw [length]
    exact small
  · rw [length]
    exact isLength
  · refine appended.bytes.congr fun i inside => ?_
    unfold blockWindow
    apply sameDisk
    rw [length] at inside
    have isBlock : i / blockSize < (bs ++ new₁ ++ new₂).length := by
      rw [isLength]
      exact Nat.lt_succ_of_le (Nat.div_le_div_right (Nat.le_of_lt inside))
    rw [List.getD_eq_getElem _ _ isBlock]
    exact List.getElem_mem isBlock

/-! ### `file_read` -/

theorem length_collectAll (idxs acc : List Nat) {n : Nat} (length : acc.length = n) :
    (idxs.foldl (collect inode) acc).length = n := by
  induction idxs generalizing acc with
  | nil => exact length
  | cons idx idxs inductionHypothesis =>
      apply inductionHypothesis
      rw [collect, List.length_set]
      exact length

/-- The loop over the direct blocks. -/
theorem collectAll_getD {first n idx : Nat} (acc : List Nat) (length : acc.length = 140) (fits : first + n ≤ 140) :
    ((List.range' first n).foldl (collect inode) acc).getD idx 0 =
      if first ≤ idx ∧ idx < first + n then sectorOf inode idx else acc.getD idx 0 := by
  induction n generalizing first acc with
  | zero => rw [if_neg (by omega)]; rfl
  | succ n inductionHypothesis =>
      rw [List.range'_succ, List.foldl_cons, inductionHypothesis _ (by rw [collect, List.length_set]; exact length)
        (by omega), collect, @List.getD_eq_getElem?_getD _ (acc.set _ _), List.getElem?_set]
      by_cases isFirst : first = idx
      · subst isFirst
        rw [if_neg (by omega), if_pos rfl, if_pos (by omega), if_pos (by omega)]
        rfl
      · rw [if_neg isFirst, ← List.getD_eq_getElem?_getD]
        by_cases inside : first + 1 ≤ idx ∧ idx < first + 1 + n
        · rw [if_pos inside, if_pos (by omega)]
        · rw [if_neg inside, if_neg (by omega)]

/-- The direct blocks stay in front of the table. -/
theorem readTable_direct {acc : List Nat} {idx : Nat} (length : acc.length = 140) (isDirect : idx < 12) :
    (readTable part inode acc).getD idx 0 = acc.getD idx 0 := by
  have inTake : idx < (acc.take 12).length := by
    rw [List.length_take]
    omega
  rw [readTable, List.getD_append _ _ _ _ inTake, List.getD_eq_getElem _ _ inTake, List.getElem_take,
    List.getD_eq_getElem]

theorem readTable_behind {acc : List Nat} {idx : Nat} (length : acc.length = 140) (behind : 12 ≤ idx) :
    (readTable part inode acc).getD idx 0 = (readTable part inode noBlocks).getD idx 0 := by
  have isTake : (acc.take 12).length = (noBlocks.take 12).length := by
    rw [List.length_take, length]
    rfl
  have isTwelve : (noBlocks.take 12).length = 12 := rfl
  rw [readTable, List.getD_append_right _ _ _ _ (by omega), isTake, readTable,
    List.getD_append_right _ _ _ _ (by omega)]

/-- `file_read` fills `all_blocks` with the blocks from the first one that it reads to the last. -/
theorem readBlockTable_listed {startIdx endIdx idx : Nat} (isTable : 12 ≤ endIdx → sectorOf inode 12 ≠ 0)
    (fits : endIdx < 140) (isRun : readBlockTable part inode startIdx endIdx = some blocks)
    (above : startIdx ≤ idx) (below : idx ≤ endIdx) :
    blocks.getD idx 0 = (allBlocks part.disk (searchInode inode)).getD idx 0 := by
  have length : noBlocks.length = 140 := by simp [noBlocks]
  unfold readBlockTable at isRun
  dsimp only at isRun
  split at isRun
  · split at isRun
    · rename_i same direct
      cases isRun
      rw [collect_getD fits, if_pos (by omega), allBlocks_getD (by omega), show idx = endIdx by omega]
    · rename_i same indirect
      cases isRun
      exact readTable_getD (isTable (by omega)) (by omega) (by omega)
  · split at isRun
    · rename_i direct
      cases isRun
      rw [collectAll_getD _ length (by omega), if_pos (by omega), allBlocks_getD (by omega)]
    · rename_i indirect
      have table := isTable (by omega)
      simp only [guard, if_pos table, Option.pure_def, Option.bind_eq_bind, Option.bind_some] at isRun
      split at isRun
      · rename_i startDirect
        cases isRun
        have collected : ((List.range' startIdx (12 - startIdx)).foldl (collect inode) noBlocks).length = 140 :=
          length_collectAll _ _ length
        by_cases isDirect : idx < 12
        · rw [readTable_direct collected isDirect, collectAll_getD _ length (by omega), if_pos (by omega),
            allBlocks_getD isDirect]
        · rw [readTable_behind collected (by omega)]
          exact readTable_getD table (by omega) (by omega)
      · cases isRun
        exact readTable_getD table (by omega) (by omega)

/-- The loop gives the bytes of the file from the position on. -/
theorem readLoop_bytes {fuel sizeLeft : Nat} {result : List UInt8} (small : data.length < 71680)
    (bytes : InWindows blockSize (blockWindow part.disk bs) data) (inFile : file.fdPos.toNat + sizeLeft ≤ data.length)
    (listed : ∀ idx, file.fdPos.toNat / blockSize ≤ idx → idx ≤ (file.fdPos.toNat + sizeLeft) / blockSize →
      blocks.getD idx 0 = bs.getD idx 0)
    (isRun : readLoop fuel part file blocks sizeLeft = some (file', result)) :
    result = (data.drop file.fdPos.toNat).take sizeLeft := by
  induction fuel generalizing file sizeLeft result with
  | zero =>
      unfold readLoop at isRun
      split at isRun
      · rename_i isZero
        cases isRun
        rw [isZero, List.take_zero]
      · cases isRun
  | succ fuel inductionHypothesis =>
      unfold readLoop at isRun
      split at isRun
      · rename_i isZero
        cases isRun
        rw [isZero, List.take_zero]
      rename_i notZero
      obtain ⟨_, _, isRest⟩ := Option.bind_eq_some_iff.mp isRun
      obtain ⟨⟨file₁, rest⟩, isLoop, isPair⟩ := Option.bind_eq_some_iff.mp isRest
      cases isPair
      generalize isChunk : chunkSize file.fdPos.toNat sizeLeft = chunk
      have atMost := chunkSize_le file.fdPos.toNat sizeLeft
      have positive := chunkSize_pos file.fdPos.toNat (Nat.pos_of_ne_zero notZero)
      have isWord := @toNat_chunk file.fdPos.toNat sizeLeft (by omega)
      have fits : file.fdPos.toNat % blockSize + chunkSize file.fdPos.toNat sizeLeft ≤ blockSize := by
        have inSector : file.fdPos.toNat % blockSize < blockSize := Nat.mod_lt _ (by decide)
        unfold chunkSize
        split <;> omega
      rw [isChunk] at atMost positive isWord fits
      have isLoop : readLoop fuel part ⟨file.fdPos + UInt32.ofNat chunk, file.inode⟩ blocks (sizeLeft - chunk) =
          some (file', rest) := by
        rw [← isChunk]
        exact isLoop
      show (List.range (chunkSize file.fdPos.toNat sizeLeft)).map (fun i => ideRead part.disk
        (blocks.getD (file.fdPos.toNat / blockSize) 0) 1 (file.fdPos.toNat % blockSize + i)) ++ rest = _
      have moved : (file.fdPos + UInt32.ofNat chunk).toNat = file.fdPos.toNat + chunk := by
        rw [toNat_add_of_fits (by unfold Fits; dsimp only; omega), isWord]
      have isRest := inductionHypothesis (by show (file.fdPos + UInt32.ofNat chunk).toNat + _ ≤ _; omega)
        (fun idx above below => listed idx
          ((Nat.div_le_div_right (by
            show file.fdPos.toNat ≤ (file.fdPos + UInt32.ofNat chunk).toNat
            omega)).trans above)
          (below.trans (Nat.div_le_div_right (by
            show (file.fdPos + UInt32.ofNat chunk).toNat + (sizeLeft - chunk) ≤ _
            omega)))) isLoop
      have isFirst : (List.range chunk).map (fun i => ideRead part.disk
          (blocks.getD (file.fdPos.toNat / blockSize) 0) 1 (file.fdPos.toNat % blockSize + i)) =
            (data.drop file.fdPos.toNat).take chunk := by
        rw [← bytes.read (by omega) fits]
        apply List.map_congr_left
        intro i mem
        have inside := List.mem_range.mp mem
        have inSector : file.fdPos.toNat % blockSize + i < sectorSize := by
          have width : blockSize = sectorSize := rfl
          omega
        rw [ideRead_apply _ _ inSector, listed _ (Nat.le_refl _) (Nat.div_le_div_right (by omega))]
        rfl
      have split : sizeLeft = chunk + (sizeLeft - chunk) := by omega
      rw [isChunk, isFirst, isRest]
      dsimp only
      rw [moved, ← List.drop_drop, ← List.take_add, ← split]

/-- The loop stops within `all_blocks`. -/
theorem readLoop_stops {fuel sizeLeft : Nat} {result : List UInt8} (inFile : file.fdPos.toNat ≤ 71680)
    (isRun : readLoop fuel part file blocks sizeLeft = some (file', result)) :
    file.fdPos.toNat + sizeLeft ≤ 71680 := by
  induction fuel generalizing file sizeLeft result with
  | zero =>
      unfold readLoop at isRun
      split at isRun
      · omega
      · cases isRun
  | succ fuel inductionHypothesis =>
      unfold readLoop at isRun
      split at isRun
      · omega
      rename_i notZero
      obtain ⟨_, isGuard, isRest⟩ := Option.bind_eq_some_iff.mp isRun
      obtain ⟨⟨file₁, rest⟩, isLoop, isPair⟩ := Option.bind_eq_some_iff.mp isRest
      cases isPair
      have inBlocks : file.fdPos.toNat / blockSize < 140 := by
        by_contra outside
        simp [guard, outside] at isGuard
      have inSector : chunkSize file.fdPos.toNat sizeLeft ≤ blockSize - file.fdPos.toNat % blockSize := by
        unfold chunkSize
        split <;> omega
      have atMost := chunkSize_le file.fdPos.toNat sizeLeft
      have isWord : (UInt32.ofNat (chunkSize file.fdPos.toNat sizeLeft)).toNat =
          chunkSize file.fdPos.toNat sizeLeft :=
        UInt32.toNat_ofNat_of_lt' (by unfold blockSize at inSector; unfold UInt32.size; omega)
      unfold blockSize at inBlocks inSector
      have moved : (file.fdPos + UInt32.ofNat (chunkSize file.fdPos.toNat sizeLeft)).toNat =
          file.fdPos.toNat + chunkSize file.fdPos.toNat sizeLeft := by
        rw [toNat_add_of_fits (by unfold Fits; dsimp only; omega), isWord]
      have rest : (file.fdPos + UInt32.ofNat (chunkSize file.fdPos.toNat sizeLeft)).toNat ≤ 71680 →
          (file.fdPos + UInt32.ofNat (chunkSize file.fdPos.toNat sizeLeft)).toNat +
            (sizeLeft - chunkSize file.fdPos.toNat sizeLeft) ≤ 71680 :=
        fun inFile => @inductionHypothesis ⟨_, file.inode⟩ _ _ inFile isLoop
      omega

/-- What a read of `count` bytes from `pos` on answers; `none` for -1. -/
def readAnswer (data : List UInt8) (pos count : Nat) : Option (List UInt8) :=
  if pos = data.length ∧ 0 < count then none else some ((data.drop pos).take count)

/-- A read of bytes that the file has. -/
theorem readData_bytes {pos size : UInt32} {result : List UInt8} (has : HasBytes part inode bs data)
    (inFile : pos.toNat + size.toNat ≤ data.length)
    (isRun : readData part ⟨pos, inode⟩ size = some (file', result)) :
    result = (data.drop pos.toNat).take size.toNat := by
  have small := has.small
  have sum : (pos + size).toNat = pos.toNat + size.toNat :=
    toNat_add_of_fits (by unfold Fits; dsimp only; omega)
  unfold readData at isRun
  dsimp only at isRun
  rw [sum] at isRun
  obtain ⟨_, isGuard, isRest⟩ := Option.bind_eq_some_iff.mp isRun
  obtain ⟨blocks, isTable, isLoop⟩ := Option.bind_eq_some_iff.mp isRest
  rcases has.blocks with isLength | ⟨_, rfl⟩
  · have inBlocks : (pos.toNat + size.toNat) / blockSize ≤ data.length / blockSize := Nat.div_le_div_right inFile
    have few := has.holds.fits
    refine readLoop_bytes small has.bytes inFile (fun idx above below => ?_) isLoop
    rw [readBlockTable_listed (fun indirect => has.holds.table.mpr (by omega)) (by omega) isTable above below]
    exact has.holds.blocks idx (by
      dsimp only at below
      omega)
  · have isZero : size.toNat = 0 := by
      rw [List.length_nil] at inFile
      omega
    rw [isZero] at isLoop
    cases isLoop
    rw [isZero, List.take_zero]

/-- Where the sum wraps, the loop is asked for more than there can be. -/
theorem fileRead_noWrap {pos : UInt32} {result : Option (List UInt8)} (inFile : pos.toNat ≤ inode.iSize.toNat)
    (small : inode.iSize.toNat < 71680) (isRun : fileRead part ⟨pos, inode⟩ count = some (file', result)) :
    pos.toNat + count.toNat < 2 ^ 32 := by
  by_contra wraps
  have isCount := count.toNat_lt
  have sum : (pos + count).toNat = pos.toNat + count.toNat - 2 ^ 32 := by
    rw [UInt32.toNat_add]
    omega
  have notPast : ¬ pos + count > inode.iSize := by
    rw [gt_iff_lt, UInt32.lt_iff_toNat_lt]
    omega
  have notEnd : atEnd ⟨pos, inode⟩ count = false := by
    unfold atEnd
    rw [decide_eq_false notPast, Bool.false_and]
  unfold fileRead readSize at isRun
  rw [notEnd, if_neg notPast] at isRun
  obtain ⟨⟨file₁, bytes⟩, isData, _⟩ := Option.bind_eq_some_iff.mp isRun
  obtain ⟨_, _, isRest⟩ := Option.bind_eq_some_iff.mp isData
  obtain ⟨blocks, _, isLoop⟩ := Option.bind_eq_some_iff.mp isRest
  have fits := readLoop_stops (by dsimp only; omega) isLoop
  dsimp only at fits
  omega

/-- A `file_read` that returns gives the bytes of the file from its position on, as far
as they go, and -1 at the end. -/
theorem fileRead_bytes {pos : UInt32} {result : Option (List UInt8)} (has : HasBytes part inode bs data)
    (inFile : pos.toNat ≤ data.length) (isRun : fileRead part ⟨pos, inode⟩ count = some (file', result)) :
    result = readAnswer data pos.toNat count.toNat := by
  have small := has.small
  have size := has.size
  have posLe : pos ≤ inode.iSize := by
    rw [UInt32.le_iff_toNat_le]
    omega
  have left : (inode.iSize - pos).toNat = data.length - pos.toNat := by
    rw [UInt32.toNat_sub_of_le _ _ posLe, size]
  have noWrap := fileRead_noWrap (by omega) (by omega) isRun
  have past : pos + count > inode.iSize ↔ data.length < pos.toNat + count.toNat := by
    rw [gt_iff_lt, UInt32.lt_iff_toNat_lt, toNat_add_of_fits noWrap, size]
  have noneLeft : inode.iSize - pos = 0 ↔ pos.toNat = data.length := by
    rw [← UInt32.toNat_inj, left, UInt32.toNat_zero]
    omega
  unfold fileRead atEnd readSize at isRun
  dsimp only at isRun
  unfold readAnswer
  by_cases isPast : pos + count > inode.iSize
  · rw [if_pos isPast, decide_eq_true isPast, Bool.true_and] at isRun
    by_cases isEnd : inode.iSize - pos = 0
    · rw [isEnd] at isRun
      cases isRun
      rw [if_pos ⟨noneLeft.mp isEnd, by have := past.mp isPast; have := noneLeft.mp isEnd; omega⟩]
    · rw [beq_eq_false_iff_ne.mpr isEnd] at isRun
      obtain ⟨⟨file₁, bytes⟩, isData, isPair⟩ := Option.bind_eq_some_iff.mp isRun
      cases isPair
      have isBytes := readData_bytes has (by omega) isData
      have inside := past.mp isPast
      rw [if_neg fun both => isEnd (noneLeft.mpr both.1), isBytes, left, List.take_of_length_le,
        List.take_of_length_le]
      · rw [List.length_drop]
        omega
      · rw [List.length_drop]
  · rw [if_neg isPast, decide_eq_false isPast, Bool.false_and] at isRun
    obtain ⟨⟨file₁, bytes⟩, isData, isPair⟩ := Option.bind_eq_some_iff.mp isRun
    cases isPair
    have inside := mt past.mpr isPast
    rw [readData_bytes has (by omega) isData, if_neg (by omega)]

end ZyOs.Fs
