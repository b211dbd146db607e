import ZyOs.Fs.FileData

/-!
Contract: the 32-bit sums of `file_write` and `file_read`.

Owns:
- the sums of sizes and positions that a call makes, pass by pass;
- when none of them wraps, a write that is too large is refused and a read stays
  within the file.

The guard of `file_write` is itself a sum: with a count close to 2^32 it wraps, and
the count is accepted. A first write sets `fd_pos` to -1, and adds to that.

Does not own: the indices of blocks, which stay below 141.
-/

namespace ZyOs.Fs

open InodeTable (Inode)

/-- The sum of two words is a word. -/
def Fits (sum : UInt32 × UInt32) : Prop := sum.1.toNat + sum.2.toNat < 2 ^ 32

/-- How much a pass over a sector copies. -/
def chunkSize (pos sizeLeft : Nat) : Nat :=
  if sizeLeft < blockSize - pos % blockSize then sizeLeft else blockSize - pos % blockSize

theorem chunkSize_le (pos sizeLeft : Nat) : chunkSize pos sizeLeft ≤ sizeLeft := by
  unfold chunkSize
  split
  · exact Nat.le_refl _
  · omega

theorem chunkSize_pos (pos : Nat) {sizeLeft : Nat} (positive : 0 < sizeLeft) :
    0 < chunkSize pos sizeLeft := by
  have inSector : pos % blockSize < blockSize := Nat.mod_lt _ (by decide)
  unfold chunkSize
  split
  · exact positive
  · omega

theorem toNat_add_of_fits {a b : UInt32} (fits : Fits (a, b)) : (a + b).toNat = a.toNat + b.toNat := by
  rw [UInt32.toNat_add]
  exact Nat.mod_eq_of_lt fits

theorem toNat_chunk {pos sizeLeft : Nat} (small : sizeLeft < 2 ^ 32) :
    (UInt32.ofNat (chunkSize pos sizeLeft)).toNat = chunkSize pos sizeLeft :=
  UInt32.toNat_ofNat_of_lt' ((chunkSize_le pos sizeLeft).trans_lt small)

/-! ### `file_write` -/

/-- The sums in the loop of `file_write`: `i_size`, `fd_pos` and `bytes_written`. -/
def writeLoopSums : Nat → (iSize fdPos bytesWritten : UInt32) → (sizeLeft : Nat) →
    List (UInt32 × UInt32)
  | 0, _, _, _, _ => []
  | fuel + 1, iSize, fdPos, bytesWritten, sizeLeft =>
      if sizeLeft = 0 then
        []
      else
        let chunk := UInt32.ofNat (chunkSize iSize.toNat sizeLeft)
        (iSize, chunk) :: (fdPos, chunk) :: (bytesWritten, chunk) ::
          writeLoopSums fuel (iSize + chunk) (fdPos + chunk) (bytesWritten + chunk)
            (sizeLeft - chunkSize iSize.toNat sizeLeft)

/-- The sums of `file_write` for an input that its guard accepts. -/
def writeSums (file : OpenFile) (count : UInt32) : List (UInt32 × UInt32) :=
  let iSize := file.inode.iSize
  [(iSize, count), (iSize / 512, 1), (iSize, count), ((iSize + count) / 512, 1)] ++
    if (iSize + count).toNat / blockSize + 1 ≤ 140 then
      writeLoopSums count.toNat iSize (iSize - 1) 0 count.toNat
    else
      []

/-- What is asked of `file_write`: it refuses what is too large, and adds without
wrapping for what it accepts. -/
structure WriteLaw (part : Volume) (file : OpenFile) (buf : Buf) (count : UInt32) : Prop where
  refuses : 71680 < file.inode.iSize.toNat + count.toNat →
    fileWrite part file buf count = some (part, file, none)
  noWrap : ¬ file.inode.iSize + count > maxFileSize → ∀ sum ∈ writeSums file count, Fits sum

/-- The loop adds the count to `fd_pos`, chunk by chunk. -/
theorem writeLoopSums_fit_iff {fuel : Nat} {iSize fdPos bytesWritten : UInt32} {sizeLeft : Nat}
    (enough : sizeLeft ≤ fuel) (inSize : iSize.toNat + sizeLeft < 2 ^ 32)
    (inCount : bytesWritten.toNat + sizeLeft < 2 ^ 32) :
    (∀ sum ∈ writeLoopSums fuel iSize fdPos bytesWritten sizeLeft, Fits sum) ↔
      sizeLeft = 0 ∨ fdPos.toNat + sizeLeft < 2 ^ 32 := by
  induction fuel generalizing iSize fdPos bytesWritten sizeLeft with
  | zero =>
      have isZero : sizeLeft = 0 := by omega
      exact iff_of_true (fun sum mem => absurd mem List.not_mem_nil) (.inl isZero)
  | succ fuel inductionHypothesis =>
      unfold writeLoopSums
      by_cases isZero : sizeLeft = 0
      · rw [if_pos isZero]
        exact iff_of_true (fun sum mem => absurd mem List.not_mem_nil) (.inl isZero)
      rw [if_neg isZero]
      have positive := chunkSize_pos iSize.toNat (Nat.pos_of_ne_zero isZero)
      have atMost := chunkSize_le iSize.toNat sizeLeft
      have isChunk := @toNat_chunk iSize.toNat sizeLeft (by omega)
      have sizeFits : Fits (iSize, UInt32.ofNat (chunkSize iSize.toNat sizeLeft)) := by
        unfold Fits
        dsimp only
        omega
      have countFits : Fits (bytesWritten, UInt32.ofNat (chunkSize iSize.toNat sizeLeft)) := by
        unfold Fits
        dsimp only
        omega
      simp only [List.mem_cons, forall_eq_or_imp, sizeFits, countFits, true_and]
      constructor
      · rintro ⟨posFits, rest⟩
        have next := (inductionHypothesis (by omega)
          (by rw [toNat_add_of_fits sizeFits]; omega)
          (by rw [toNat_add_of_fits countFits]; omega)).mp rest
        rw [toNat_add_of_fits posFits] at next
        unfold Fits at posFits
        dsimp only at posFits
        right
        omega
      · intro fits
        have posFits : Fits (fdPos, UInt32.ofNat (chunkSize iSize.toNat sizeLeft)) := by
          unfold Fits
          dsimp only
          omega
        refine ⟨posFits, (inductionHypothesis (by omega)
          (by rw [toNat_add_of_fits sizeFits]; omega)
          (by rw [toNat_add_of_fits countFits]; omega)).mpr ?_⟩
        rw [toNat_add_of_fits posFits]
        right
        omega

/-- The guard of `file_write` looks at the sum as a word. -/
theorem accepts_iff {a count : UInt32} :
    ¬ a + count > maxFileSize ↔ (a.toNat + count.toNat) % 2 ^ 32 ≤ 71680 := by
  rw [gt_iff_lt, UInt32.lt_iff_toNat_lt, UInt32.toNat_add]
  exact Nat.not_lt

/-- The condition on the size and the count. -/
def WriteFits (iSize count : UInt32) : Prop :=
  (iSize.toNat + count.toNat < 2 ^ 32 ∨ 2 ^ 32 + 71680 < iSize.toNat + count.toNat) ∧
    ¬ (iSize = 0 ∧ 0 < count.toNat ∧ count.toNat < 71680)

theorem div_fits (a : UInt32) : Fits (a / 512, 1) := by
  have atMost : (a / 512).toNat ≤ a.toNat := Nat.div_le_self _ _
  have small := a.toNat_lt
  have isDiv : (a / 512).toNat = a.toNat / 512 := rfl
  show (a / 512).toNat + 1 < 2 ^ 32
  omega

theorem mem_writeSums {file : OpenFile} {count : UInt32} :
    (∀ sum ∈ writeSums file count, Fits sum) ↔ Fits (file.inode.iSize, count) ∧
      ((file.inode.iSize + count).toNat / blockSize + 1 ≤ 140 → ∀ sum ∈ writeLoopSums count.toNat
        file.inode.iSize (file.inode.iSize - 1) 0 count.toNat, Fits sum) := by
  have isDiv := div_fits file.inode.iSize
  have isSumDiv := div_fits (file.inode.iSize + count)
  unfold writeSums
  dsimp only
  by_cases inTable : (file.inode.iSize + count).toNat / blockSize + 1 ≤ 140
  · rw [if_pos inTable]
    simp only [List.cons_append, List.nil_append, List.mem_cons, forall_eq_or_imp, isDiv, isSumDiv,
      true_and, inTable, forall_const]
    exact ⟨fun holds => ⟨holds.1, holds.2.2⟩, fun holds => ⟨holds.1, holds.1, holds.2⟩⟩
  · rw [if_neg inTable]
    simp only [List.append_nil, List.mem_cons, forall_eq_or_imp, isDiv, isSumDiv, true_and, inTable,
      false_implies, and_true]
    exact ⟨fun holds => holds.1, fun fits => ⟨fits, fits, fun _ mem => absurd mem List.not_mem_nil⟩⟩

theorem toNat_sub_one {iSize : UInt32} (ne : iSize ≠ 0) : (iSize - 1).toNat = iSize.toNat - 1 := by
  have positive : 0 < iSize.toNat := by
    apply Nat.pos_of_ne_zero
    intro isZero
    exact ne (UInt32.toNat_inj.mp isZero)
  have atLeast : (1 : UInt32) ≤ iSize := UInt32.le_iff_toNat_le.mpr positive
  rw [UInt32.toNat_sub_of_le _ _ atLeast]
  rfl

theorem writeLaw_iff (part : Volume) (file : OpenFile) (buf : Buf) (count : UInt32) :
    WriteLaw part file buf count ↔ WriteFits file.inode.iSize count := by
  have isSmall := file.inode.iSize.toNat_lt
  have isCount := count.toNat_lt
  constructor
  · intro law
    constructor
    · by_contra wraps
      have accepted : ¬ file.inode.iSize + count > maxFileSize := by
        rw [accepts_iff]
        omega
      have fits := (mem_writeSums.mp (law.noWrap accepted)).1
      unfold Fits at fits
      dsimp only at fits
      omega
    · rintro ⟨isEmpty, positive, below⟩
      have noSize : file.inode.iSize.toNat = 0 := by
        rw [isEmpty]
        rfl
      have accepted : ¬ file.inode.iSize + count > maxFileSize := by
        rw [accepts_iff]
        omega
      have isSum : (file.inode.iSize + count).toNat = count.toNat := by
        rw [isEmpty, UInt32.zero_add]
      have inTable : (file.inode.iSize + count).toNat / blockSize + 1 ≤ 140 := by
        rw [isSum]
        simp only [blockSize]
        omega
      have loop := (writeLoopSums_fit_iff (Nat.le_refl _) (by omega)
        (by rw [UInt32.toNat_zero]; omega)).mp ((mem_writeSums.mp (law.noWrap accepted)).2 inTable)
      rw [isEmpty] at loop
      have isLast : ((0 : UInt32) - 1).toNat = 2 ^ 32 - 1 := by decide
      rw [isLast] at loop
      omega
  · rintro ⟨noWrap, notFirst⟩
    constructor
    · intro tooLarge
      have refused : file.inode.iSize + count > maxFileSize := by
        by_contra accepted
        rw [accepts_iff] at accepted
        omega
      exact if_pos refused
    · intro accepted
      rw [accepts_iff] at accepted
      have fits : file.inode.iSize.toNat + count.toNat < 2 ^ 32 := by omega
      refine mem_writeSums.mpr ⟨fits, fun inTable => ?_⟩
      rw [writeLoopSums_fit_iff (Nat.le_refl _) fits (by rw [UInt32.toNat_zero]; omega)]
      have isSum : (file.inode.iSize + count).toNat = file.inode.iSize.toNat + count.toNat :=
        toNat_add_of_fits fits
      rw [isSum] at inTable
      simp only [blockSize] at inTable
      by_cases isEmpty : file.inode.iSize = 0
      · left
        have noSize : file.inode.iSize.toNat = 0 := by
          rw [isEmpty]
          rfl
        by_contra notZero
        exact notFirst ⟨isEmpty, by omega, by omega⟩
      · right
        rw [toNat_sub_one isEmpty]
        omega

/-! ### `file_read` -/

/-- The sums in the loop of `file_read`: `fd_pos` and `bytes_read`. -/
def readLoopSums : Nat → (fdPos bytesRead : UInt32) → (sizeLeft : Nat) → List (UInt32 × UInt32)
  | 0, _, _, _ => []
  | fuel + 1, fdPos, bytesRead, sizeLeft =>
      if sizeLeft = 0 then
        []
      else
        let chunk := UInt32.ofNat (chunkSize fdPos.toNat sizeLeft)
        (fdPos, chunk) :: (bytesRead, chunk) ::
          readLoopSums fuel (fdPos + chunk) (bytesRead + chunk)
            (sizeLeft - chunkSize fdPos.toNat sizeLeft)

/-- The sums of `file_read`. -/
def readSums (file : OpenFile) (count : UInt32) : List (UInt32 × UInt32) :=
  let size := readSize file count
  [(file.fdPos, count), (file.fdPos, size)] ++
    if file.fdPos.toNat / blockSize < 139 ∧ (file.fdPos + size).toNat / blockSize < 139 then
      readLoopSums size.toNat file.fdPos 0 size.toNat
    else
      []

/-- What is asked of `file_read`: it stays within the file, and adds without wrapping
unless it returns -1. -/
structure ReadLaw (part : Volume) (file : OpenFile) (count : UInt32) : Prop where
  transfers : ∀ file' bytes, fileRead part file count = some (file', some bytes) →
    (bytes.length : Int) ≤ file.inode.iSize.toNat - file.fdPos.toNat
  advances : ∀ file' result, fileRead part file count = some (file', result) →
    file'.fdPos.toNat ≤ file'.inode.iSize.toNat
  noWrap : ¬ atEnd file count → ∀ sum ∈ readSums file count, Fits sum

/-- The condition on the position and the count. -/
def ReadFits (file : OpenFile) (count : UInt32) : Prop :=
  file.fdPos.toNat ≤ file.inode.iSize.toNat ∧ file.fdPos.toNat + count.toNat < 2 ^ 32

theorem readLoopSums_fit {fuel : Nat} {fdPos bytesRead : UInt32} {sizeLeft : Nat}
    (inPos : fdPos.toNat + sizeLeft < 2 ^ 32) (inCount : bytesRead.toNat + sizeLeft < 2 ^ 32) :
    ∀ sum ∈ readLoopSums fuel fdPos bytesRead sizeLeft, Fits sum := by
  induction fuel generalizing fdPos bytesRead sizeLeft with
  | zero => exact fun sum mem => absurd mem List.not_mem_nil
  | succ fuel inductionHypothesis =>
      unfold readLoopSums
      by_cases isZero : sizeLeft = 0
      · rw [if_pos isZero]
        exact fun sum mem => absurd mem List.not_mem_nil
      rw [if_neg isZero]
      have atMost := chunkSize_le fdPos.toNat sizeLeft
      have isChunk := @toNat_chunk fdPos.toNat sizeLeft (by omega)
      have posFits : Fits (fdPos, UInt32.ofNat (chunkSize fdPos.toNat sizeLeft)) := by
        unfold Fits
        dsimp only
        omega
      have countFits : Fits (bytesRead, UInt32.ofNat (chunkSize fdPos.toNat sizeLeft)) := by
        unfold Fits
        dsimp only
        omega
      simp only [List.mem_cons, forall_eq_or_imp, posFits, countFits, true_and]
      apply inductionHypothesis
      · rw [toNat_add_of_fits posFits]
        omega
      · rw [toNat_add_of_fits countFits]
        omega

/-- The loop copies what is left, and moves the position past it. -/
theorem readLoop_length {fuel : Nat} {part : Volume} {file file' : OpenFile} {blocks : List Nat}
    {sizeLeft : Nat} {bytes : List UInt8} (inPos : file.fdPos.toNat + sizeLeft < 2 ^ 32)
    (isRun : readLoop fuel part file blocks sizeLeft = some (file', bytes)) :
    bytes.length = sizeLeft ∧ file'.fdPos.toNat = file.fdPos.toNat + sizeLeft ∧
      file'.inode = file.inode := by
  induction fuel generalizing file sizeLeft bytes with
  | zero =>
      unfold readLoop at isRun
      split at isRun
      · rename_i isZero
        cases isRun
        exact ⟨isZero.symm, by omega, rfl⟩
      · cases isRun
  | succ fuel inductionHypothesis =>
      unfold readLoop at isRun
      split at isRun
      · rename_i isZero
        cases isRun
        exact ⟨isZero.symm, by omega, rfl⟩
      · obtain ⟨_, _, isRest⟩ := Option.bind_eq_some_iff.mp isRun
        obtain ⟨⟨file₁, bytes₁⟩, isLoop, isPair⟩ := Option.bind_eq_some_iff.mp isRest
        cases isPair
        have atMost := chunkSize_le file.fdPos.toNat sizeLeft
        have isChunk := @toNat_chunk file.fdPos.toNat sizeLeft (by omega)
        have posFits : Fits (file.fdPos, UInt32.ofNat (chunkSize file.fdPos.toNat sizeLeft)) := by
          unfold Fits
          dsimp only
          omega
        obtain ⟨isLength, isPos, sameInode⟩ := inductionHypothesis
          (by
            show (file.fdPos + UInt32.ofNat (chunkSize file.fdPos.toNat sizeLeft)).toNat +
              (sizeLeft - chunkSize file.fdPos.toNat sizeLeft) < 2 ^ 32
            rw [toNat_add_of_fits posFits]
            omega) isLoop
        refine ⟨?_, ?_, sameInode⟩
        · rw [List.length_append, List.length_map, List.length_range, isLength]
          show chunkSize file.fdPos.toNat sizeLeft + (sizeLeft - chunkSize file.fdPos.toNat sizeLeft) = _
          omega
        · rw [isPos]
          show (file.fdPos + UInt32.ofNat (chunkSize file.fdPos.toNat sizeLeft)).toNat +
            (sizeLeft - chunkSize file.fdPos.toNat sizeLeft) = _
          rw [toNat_add_of_fits posFits]
          omega

theorem ReadFits.sum {file : OpenFile} {count : UInt32} (fits : ReadFits file count) :
    (file.fdPos + count).toNat = file.fdPos.toNat + count.toNat := toNat_add_of_fits fits.2

theorem ReadFits.readSize {file : OpenFile} {count : UInt32} (fits : ReadFits file count) :
    (readSize file count).toNat = min count.toNat (file.inode.iSize.toNat - file.fdPos.toNat) := by
  have isSum := fits.sum
  obtain ⟨inFile, _⟩ := fits
  unfold Fs.readSize
  split
  · rename_i beyond
    rw [gt_iff_lt, UInt32.lt_iff_toNat_lt, isSum] at beyond
    rw [UInt32.toNat_sub_of_le _ _ (UInt32.le_iff_toNat_le.mpr inFile)]
    omega
  · rename_i within
    rw [gt_iff_lt, UInt32.lt_iff_toNat_lt, isSum] at within
    omega

/-- At the end of the file the position is the size. -/
theorem atEnd_iff {file : OpenFile} {count : UInt32} :
    atEnd file count ↔ file.fdPos + count > file.inode.iSize ∧ file.fdPos = file.inode.iSize := by
  unfold atEnd
  rw [Bool.and_eq_true, decide_eq_true_eq, beq_iff_eq, UInt32.sub_eq_iff_eq_add, UInt32.zero_add]
  exact and_congr_right fun _ => eq_comm

theorem readLaw_iff (part : Volume) (file : OpenFile) (count : UInt32) :
    ReadLaw part file count ↔ ReadFits file count := by
  have isSize := file.inode.iSize.toNat_lt
  have isPos := file.fdPos.toNat_lt
  have isCount := count.toNat_lt
  constructor
  · intro law
    by_cases atTheEnd : atEnd file count
    · obtain ⟨beyond, same⟩ := atEnd_iff.mp atTheEnd
      rw [gt_iff_lt, UInt32.lt_iff_toNat_lt, UInt32.toNat_add, ← same] at beyond
      constructor
      · rw [same]
      · omega
    · have sums := law.noWrap atTheEnd
      have countFits : Fits (file.fdPos, count) := sums _ List.mem_cons_self
      have sizeFits : Fits (file.fdPos, readSize file count) :=
        sums _ (List.mem_cons_of_mem _ List.mem_cons_self)
      refine ⟨?_, countFits⟩
      by_contra beyond
      have isReadSize : readSize file count = file.inode.iSize - file.fdPos := by
        apply if_pos
        rw [gt_iff_lt, UInt32.lt_iff_toNat_lt, toNat_add_of_fits countFits]
        omega
      rw [isReadSize] at sizeFits
      unfold Fits at sizeFits
      rw [UInt32.toNat_sub] at sizeFits
      dsimp only at sizeFits
      omega
  · intro fits
    have isReadSize := fits.readSize
    obtain ⟨inFile, noWrap⟩ := fits
    have inPos : file.fdPos.toNat + (readSize file count).toNat < 2 ^ 32 := by omega
    have reads {file' : OpenFile} {bytes : List UInt8}
        (isRun : readData part file (readSize file count) = some (file', bytes)) :
        bytes.length = (readSize file count).toNat ∧
          file'.fdPos.toNat = file.fdPos.toNat + (readSize file count).toNat ∧
          file'.inode = file.inode := by
      obtain ⟨_, _, isRest⟩ := Option.bind_eq_some_iff.mp isRun
      obtain ⟨blocks, _, isLoop⟩ := Option.bind_eq_some_iff.mp isRest
      exact readLoop_length inPos isLoop
    constructor
    · intro file' bytes isRun
      unfold fileRead at isRun
      split at isRun
      · cases isRun
      · obtain ⟨⟨file₁, bytes₁⟩, isData, isPair⟩ := Option.bind_eq_some_iff.mp isRun
        cases isPair
        rw [(reads isData).1]
        omega
    · intro file' result isRun
      unfold fileRead at isRun
      split at isRun
      · cases isRun
        exact inFile
      · obtain ⟨⟨file₁, bytes₁⟩, isData, isPair⟩ := Option.bind_eq_some_iff.mp isRun
        cases isPair
        obtain ⟨_, moved, sameInode⟩ := reads isData
        rw [moved, sameInode]
        omega
    · intro _ sum mem
      have countFits : Fits (file.fdPos, count) := noWrap
      have sizeFits : Fits (file.fdPos, readSize file count) := inPos
      unfold readSums at mem
      rcases List.mem_append.mp mem with mem | mem
      · simp only [List.mem_cons, List.not_mem_nil, or_false] at mem
        rcases mem with rfl | rfl
        · exact countFits
        · exact sizeFits
      · split at mem
        · exact readLoopSums_fit inPos (by rw [UInt32.toNat_zero]; omega) sum mem
        · cases mem

/-- `file_write` and `file_read` keep to the size of the file where their sums fit. -/
theorem file_sums_fit_iff (part : Volume) (file : OpenFile) (buf : Buf) (count : UInt32) :
    (WriteLaw part file buf count ↔ WriteFits file.inode.iSize count) ∧
      (ReadLaw part file count ↔ ReadFits file count) :=
  ⟨writeLaw_iff part file buf count, readLaw_iff part file count⟩

/-- A file of 100 bytes: a count of 2^32 - 100 is accepted, and the sum is 0. -/
theorem file_sums_wrap :
    ¬ WriteLaw blankVolume ⟨0, { inodeInit 1 with iSize := 100 }⟩ (fun _ => 0) 4294967196 := by
  intro law
  have fits := law.noWrap (by decide) (100, 4294967196) List.mem_cons_self
  revert fits
  unfold Fits
  decide

end ZyOs.Fs
