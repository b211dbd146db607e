import ZyOs.Fs.FileArithmetic
import ZyOs.Fs.DirectoryInsert
import ZyOs.Kernel.BitmapFree

/-!
Contract: how large a file can be written, and how much of it can be read.

Owns:
- the blocks that an inode has, as `file_write` leaves them;
- the writes that succeed, given room on the volume;
- the reads that succeed.

The limits do not agree: the guard of `file_write` admits 71680 bytes, its `ASSERT`
one byte less, and the `ASSERT` of `file_read` ends at byte 71168.
-/

namespace ZyOs.Fs

open ZyOs.Kernel
open InodeTable (Inode)

/-- The blocks that can still be allocated. -/
def Volume.freeBlocks (part : Volume) : Nat := clearBits part.blockBitmap

variable {part part' : Volume} {inode inode' : Inode} {file file' : OpenFile} {buf : Buf}
  {count : UInt32} {blocks blocks' : List Nat} {first k bit : Nat} {done : Bool}

/-! ### Allocation -/

theorem Volume.freeBlocks_pos_iff : 0 < part.freeBlocks ↔ ∃ bit, firstClear part.blockBitmap = some bit :=
  clearBits_pos_iff

/-- A bit that is set is one block less. -/
theorem Volume.freeBlocks_take (found : firstClear part.blockBitmap = some bit) :
    (part.setBlockBit bit true).freeBlocks + 1 = part.freeBlocks :=
  clearBits_firstClear found

/-- The sector of a block that is found is a word, and not 0. -/
theorem sector_of_firstClear (wellFormed : part.WellFormed) (found : firstClear part.blockBitmap = some bit) :
    part.dataStartLba + bit < 2 ^ 32 ∧ part.dataStartLba + bit ≠ 0 := by
  obtain ⟨inside, _, _⟩ := firstClear_some found
  have fits := wellFormed.dataFits
  have below := wellFormed.tableBelow
  constructor <;> omega

/-! ### The blocks of an inode -/

/-- The direct blocks below `n` are there. -/
def DirectBlocks (inode : Inode) (n : Nat) : Prop := ∀ idx < 12, sectorOf inode idx ≠ 0 ↔ idx < n

/-- An inode with `n` blocks, and a table if they are more than 12. -/
structure HasBlocks (inode : Inode) (n : Nat) : Prop where
  direct : DirectBlocks inode n
  table : sectorOf inode 12 ≠ 0 ↔ 12 < n

/-- The inode of a file between calls. -/
structure FileShape (inode : Inode) : Prop where
  size : inode.iSize.toNat < 71680
  blocks : (inode.iSize = 0 ∧ HasBlocks inode 0) ∨ HasBlocks inode (inode.iSize.toNat / blockSize + 1)

theorem DirectBlocks.setSector {n lba : Nat} (direct : DirectBlocks inode n) (inside : n < 12)
    (small : lba < 2 ^ 32) (ne : lba ≠ 0) : DirectBlocks (setSector inode n lba) (n + 1) := by
  intro idx isDirect
  rw [sectorOf_setSector inode (by omega) (by omega) small]
  by_cases same : idx = n
  · rw [if_pos same]
    exact iff_of_true ne (by omega)
  · rw [if_neg same, direct idx isDirect]
    omega

theorem DirectBlocks.mono_table {n lba : Nat} (direct : DirectBlocks inode n) (small : lba < 2 ^ 32) :
    DirectBlocks (Fs.setSector inode 12 lba) n := by
  intro idx isDirect
  rw [sectorOf_setSector inode (by decide) (by omega) small, if_neg (by omega)]
  exact direct idx isDirect

/-- From 12 on, more blocks are not direct ones. -/
theorem DirectBlocks.of_le {n m : Nat} (direct : DirectBlocks inode n) (all : 12 ≤ n) (le : n ≤ m) :
    DirectBlocks inode m := by
  intro idx isDirect
  rw [direct idx isDirect]
  omega

/-- What an allocation leaves alone in an inode. -/
structure SameFile (inode inode' : Inode) : Prop where
  size : inode'.iSize = inode.iSize
  table : sectorOf inode' 12 = sectorOf inode 12

theorem SameFile.trans {inode'' : Inode} (left : SameFile inode inode') (right : SameFile inode' inode'') :
    SameFile inode inode'' :=
  ⟨right.size.trans left.size, right.table.trans left.table⟩

theorem sameFile_setSector {n lba : Nat} (isDirect : n < 12) (small : lba < 2 ^ 32) :
    SameFile inode (setSector inode n lba) where
  size := rfl
  table := by rw [sectorOf_setSector inode (by omega) (by decide) small, if_neg (by omega)]

/-! ### The loops that allocate -/

/-- A loop that runs through had the room; it does not touch the size. -/
theorem allocBlocks_room {idxs : List Nat}
    (isRun : allocBlocks part inode blocks idxs = some (part', inode', blocks', done)) :
    idxs.length ≤ part.freeBlocks ∧ inode'.iSize = inode.iSize := by
  induction idxs generalizing part inode blocks with
  | nil =>
      cases isRun
      exact ⟨Nat.zero_le _, rfl⟩
  | cons blockIdx rest inductionHypothesis =>
      unfold allocBlocks at isRun
      obtain ⟨⟨part₁, allocated⟩, isAlloc, isRest⟩ := Option.bind_eq_some_iff.mp isRun
      obtain ⟨bit, found, rfl, rfl⟩ := Volume.blockBitmapAlloc_eq_some isAlloc
      have taken := Volume.freeBlocks_take found
      dsimp only at isRest
      rw [allocated_bit] at isRest
      have after : rest.length ≤ ((part.setBlockBit bit true).bitmapSync bit .block).freeBlocks ∧
          inode'.iSize = inode.iSize := by
        split at isRest
        · obtain ⟨_, _, isRest⟩ := Option.bind_eq_some_iff.mp isRest
          have later := inductionHypothesis isRest
          exact later
        · exact inductionHypothesis isRest
      have same : ((part.setBlockBit bit true).bitmapSync bit .block).freeBlocks =
        (part.setBlockBit bit true).freeBlocks := rfl
      rw [List.length_cons]
      exact ⟨by omega, after.2⟩

/-- With room, the loop runs through: it adds `k` blocks to the first ones. -/
theorem allocBlocks_spec (wellFormed : part.WellFormed) (direct : DirectBlocks inode first)
    (room : k ≤ part.freeBlocks) (blocks : List Nat) :
    ∃ part' inode' blocks',
      allocBlocks part inode blocks (List.range' first k) = some (part', inode', blocks', true) ∧
        part'.WellFormed ∧ DirectBlocks inode' (first + k) ∧ SameFile inode inode' := by
  induction k generalizing part inode blocks first with
  | zero => exact ⟨part, inode, blocks, rfl, wellFormed, direct, rfl, rfl⟩
  | succ k inductionHypothesis =>
      obtain ⟨bit, found⟩ := Volume.freeBlocks_pos_iff.mp (Nat.lt_of_lt_of_le (Nat.succ_pos k) room)
      obtain ⟨small, ne⟩ := sector_of_firstClear wellFormed found
      have taken := Volume.freeBlocks_take found
      have afterWell := (Volume.allocated_of_firstClear wellFormed found).writes.wellFormed wellFormed
      have rest : k ≤ ((part.setBlockBit bit true).bitmapSync bit .block).freeBlocks := by
        show k ≤ (part.setBlockBit bit true).freeBlocks
        omega
      rw [List.range'_succ]
      unfold allocBlocks
      rw [Volume.blockBitmapAlloc_eq, found]
      simp only [Option.map_some, Option.bind_eq_bind, Option.bind_some, allocated_bit]
      by_cases isDirect : first < 12
      · have isZero : sectorOf inode first = 0 := by
          by_contra isSet
          exact Nat.lt_irrefl _ ((direct first isDirect).mp isSet)
        rw [if_pos isDirect, isZero]
        simp only [guard, if_true, Option.pure_def, Option.bind_some]
        obtain ⟨part', inode', blocks', isRun, well', direct', same'⟩ :=
          inductionHypothesis afterWell (direct.setSector isDirect small ne) rest
            (blocks.set first (part.dataStartLba + bit))
        rw [Nat.add_right_comm] at direct'
        exact ⟨part', inode', blocks', isRun, well', direct', (sameFile_setSector isDirect small).trans same'⟩
      · rw [if_neg isDirect]
        obtain ⟨part', inode', blocks', isRun, well', direct', same'⟩ :=
          inductionHypothesis afterWell (direct.of_le (by omega) (Nat.le_add_right first 1)) rest
            (blocks.set first (part.dataStartLba + bit))
        rw [Nat.add_right_comm] at direct'
        exact ⟨part', inode', blocks', isRun, well', direct', same'⟩

/-- The blocks that `writeBlocks` allocates: a table, if it is the first time that
12 blocks are too few, and the blocks themselves. -/
def blockNeeds (hasUsed willUse : Nat) : Nat :=
  (if hasUsed ≤ 12 ∧ 12 < willUse then 1 else 0) + (willUse - hasUsed)

theorem writeBlocks_room {hasUsed willUse : Nat}
    (isRun : writeBlocks part inode hasUsed willUse = some (part', inode', blocks, done)) :
    blockNeeds hasUsed willUse ≤ part.freeBlocks ∧ inode'.iSize = inode.iSize := by
  unfold blockNeeds
  unfold writeBlocks at isRun
  dsimp only at isRun
  split at isRun
  · rename_i isSame
    rw [if_neg (by omega)]
    split at isRun
    · cases isRun
      exact ⟨by omega, rfl⟩
    · obtain ⟨_, _, isPair⟩ := Option.bind_eq_some_iff.mp isRun
      cases isPair
      exact ⟨by omega, rfl⟩
  · split at isRun
    · rename_i direct
      obtain ⟨_, _, isRest⟩ := Option.bind_eq_some_iff.mp isRun
      obtain ⟨_, _, isRest⟩ := Option.bind_eq_some_iff.mp isRest
      obtain ⟨room, sameSize⟩ := allocBlocks_room isRest
      rw [List.length_range'] at room
      rw [if_neg (by omega)]
      exact ⟨by omega, sameSize⟩
    · split at isRun
      · obtain ⟨⟨part₁, allocated⟩, isAlloc, isRest⟩ := Option.bind_eq_some_iff.mp isRun
        obtain ⟨bit, found, rfl, rfl⟩ := Volume.blockBitmapAlloc_eq_some isAlloc
        obtain ⟨_, _, isRest⟩ := Option.bind_eq_some_iff.mp isRest
        obtain ⟨⟨part₂, inode₂, blocks₂, done₂⟩, isBlocks, isRest⟩ := Option.bind_eq_some_iff.mp isRest
        obtain ⟨room, sameSize⟩ := allocBlocks_room isBlocks
        have taken := Volume.freeBlocks_take found
        rw [List.length_range'] at room
        dsimp only at room
        rw [if_pos (by omega)]
        rw [allocBlocks_done isBlocks] at isRest
        cases isRest
        exact ⟨by omega, sameSize⟩
      · obtain ⟨_, _, isRest⟩ := Option.bind_eq_some_iff.mp isRun
        obtain ⟨⟨part₂, inode₂, blocks₂, done₂⟩, isBlocks, isRest⟩ := Option.bind_eq_some_iff.mp isRest
        obtain ⟨room, sameSize⟩ := allocBlocks_room isBlocks
        rw [List.length_range'] at room
        rw [if_neg (by omega)]
        rw [allocBlocks_done isBlocks] at isRest
        cases isRest
        exact ⟨by omega, sameSize⟩

/-- With room, `all_blocks` is filled, and the inode has the blocks. -/
theorem writeBlocks_spec {hasUsed willUse : Nat} (wellFormed : part.WellFormed)
    (has : HasBlocks inode hasUsed) (positive : 0 < hasUsed) (le : hasUsed ≤ willUse)
    (room : blockNeeds hasUsed willUse ≤ part.freeBlocks) :
    ∃ part' inode' blocks,
      writeBlocks part inode hasUsed willUse = some (part', inode', blocks, true) ∧
        part'.WellFormed ∧ HasBlocks inode' willUse ∧ inode'.iSize = inode.iSize := by
  unfold writeBlocks
  dsimp only
  unfold blockNeeds at room
  have sum : hasUsed + (willUse - hasUsed) = willUse := Nat.add_sub_cancel' le
  by_cases isSame : willUse = hasUsed
  · rw [if_pos isSame, isSame]
    by_cases direct : hasUsed ≤ 12
    · rw [if_pos direct]
      exact ⟨_, _, _, rfl, wellFormed, has, rfl⟩
    · have isTable := has.table.mpr (by omega)
      simp only [if_neg direct, guard, if_pos isTable, Option.pure_def, Option.bind_eq_bind,
        Option.bind_some]
      exact ⟨_, _, _, rfl, wellFormed, has, rfl⟩
  rw [if_neg isSame]
  by_cases direct : willUse ≤ 12
  · have isBlock := (has.direct (hasUsed - 1) (by omega)).mpr (by omega)
    have atMost : hasUsed ≤ 13 := by omega
    simp only [if_pos direct, guard, if_pos isBlock, if_pos atMost, Option.pure_def, Option.bind_eq_bind,
      Option.bind_some]
    rw [if_neg (by omega), Nat.zero_add] at room
    obtain ⟨part', inode', blocks', isRun, well', direct', same'⟩ :=
      allocBlocks_spec wellFormed has.direct room (collect inode noBlocks (hasUsed - 1))
    rw [sum] at direct'
    refine ⟨part', inode', blocks', isRun, well', ⟨direct', ?_⟩, same'.size⟩
    rw [same'.table, has.table]
    omega
  rw [if_neg direct]
  by_cases isFirst : hasUsed ≤ 12
  · -- the table is allocated first
    rw [if_pos ⟨isFirst, by omega⟩] at room
    rw [if_pos isFirst, Volume.blockBitmapAlloc_eq]
    obtain ⟨bit, found⟩ := Volume.freeBlocks_pos_iff.mp (show 0 < part.freeBlocks by omega)
    obtain ⟨small, ne⟩ := sector_of_firstClear wellFormed found
    have taken := Volume.freeBlocks_take found
    have noTable : sectorOf inode 12 = 0 := by
      by_contra isSet
      have many := has.table.mp isSet
      omega
    have afterWell := (Volume.writes_setBlockBit part bit true).wellFormed wellFormed
    obtain ⟨part', inode', blocks', isRun, well', direct', same'⟩ :=
      allocBlocks_spec afterWell (has.direct.mono_table small)
        (show willUse - hasUsed ≤ (part.setBlockBit bit true).freeBlocks by omega)
        (collect inode noBlocks (hasUsed - 1))
    rw [sum] at direct'
    simp only [found, Option.map_some, Option.bind_eq_bind, Option.bind_some, guard, if_pos noTable,
      Option.pure_def, isRun, if_true]
    refine ⟨_, _, _, rfl, (Volume.writes_ideWrite _ _ _).wellFormed well', ⟨direct', ?_⟩, same'.size⟩
    rw [same'.table, sectorOf_setSector inode (by decide) (by decide) small, if_pos rfl]
    exact iff_of_true ne (by omega)
  · rw [if_neg isFirst]
    rw [if_neg (by omega), Nat.zero_add] at room
    have isTable := has.table.mpr (by omega)
    obtain ⟨part', inode', blocks', isRun, well', direct', same'⟩ :=
      allocBlocks_spec wellFormed has.direct room (readTable part inode noBlocks)
    rw [sum] at direct'
    simp only [guard, if_pos isTable, Option.pure_def, Option.bind_eq_bind, Option.bind_some, isRun, if_true]
    refine ⟨_, _, _, rfl, (Volume.writes_ideWrite _ _ _).wellFormed well', ⟨direct', ?_⟩, same'.size⟩
    rw [same'.table]
    exact iff_of_true isTable (by omega)

/-! ### `file_write` -/

/-- The blocks that `file_write` allocates. -/
def writeNeeds (inode : Inode) (count : UInt32) : Nat :=
  (if sectorOf inode 0 = 0 then 1 else 0) +
    blockNeeds (inode.iSize.toNat / blockSize + 1) ((inode.iSize + count).toNat / blockSize + 1)

theorem allocFirst_size {part₁ : Volume} (isRun : allocFirst part inode = some (part₁, inode', done)) :
    inode'.iSize = inode.iSize := by
  unfold allocFirst at isRun
  split at isRun
  · obtain ⟨⟨part₁, allocated⟩, isAlloc, isRest⟩ := Option.bind_eq_some_iff.mp isRun
    obtain ⟨bit, _, _, rfl⟩ := Volume.blockBitmapAlloc_eq_some isAlloc
    obtain ⟨_, _, isPair⟩ := Option.bind_eq_some_iff.mp isRest
    cases isPair
    rfl
  · cases isRun
    rfl

theorem allocFirst_room (isRun : allocFirst part inode = some (part', inode', done)) :
    part'.freeBlocks + (if sectorOf inode 0 = 0 then 1 else 0) = part.freeBlocks ∧
      (sectorOf inode 0 = 0 → firstClear part.blockBitmap ≠ some 0) := by
  unfold allocFirst at isRun
  split at isRun
  · rename_i isFirst
    obtain ⟨⟨part₁, allocated⟩, isAlloc, isRest⟩ := Option.bind_eq_some_iff.mp isRun
    obtain ⟨bit, found, rfl, rfl⟩ := Volume.blockBitmapAlloc_eq_some isAlloc
    obtain ⟨_, isGuard, isPair⟩ := Option.bind_eq_some_iff.mp isRest
    rw [allocated_bit] at isGuard
    cases isPair
    rw [if_pos isFirst]
    refine ⟨Volume.freeBlocks_take found, fun _ isZero => ?_⟩
    have notZero : bit ≠ 0 := by simpa [guard] using isGuard
    rw [found] at isZero
    exact notZero (Option.some_injective _ isZero)
  · rename_i notFirst
    cases isRun
    rw [if_neg notFirst]
    exact ⟨rfl, fun isFirst => absurd isFirst notFirst⟩

theorem allocFirst_spec (wellFormed : part.WellFormed) (shape : FileShape inode)
    (room : (if sectorOf inode 0 = 0 then 1 else 0) ≤ part.freeBlocks)
    (rootTaken : sectorOf inode 0 = 0 → firstClear part.blockBitmap ≠ some 0) :
    ∃ part' inode', allocFirst part inode = some (part', inode', true) ∧ part'.WellFormed ∧
      HasBlocks inode' (inode.iSize.toNat / blockSize + 1) ∧ inode'.iSize = inode.iSize := by
  unfold allocFirst
  by_cases isFirst : sectorOf inode 0 = 0
  · rw [if_pos isFirst] at room ⊢
    obtain ⟨bit, found⟩ := Volume.freeBlocks_pos_iff.mp room
    obtain ⟨small, ne⟩ := sector_of_firstClear wellFormed found
    have afterWell := (Volume.allocated_of_firstClear wellFormed found).writes.wellFormed wellFormed
    have notRoot : bit ≠ 0 := by
      intro isZero
      rw [isZero] at found
      exact rootTaken isFirst found
    rw [Volume.blockBitmapAlloc_eq, found]
    simp only [Option.map_some, Option.bind_eq_bind, Option.bind_some, allocated_bit, guard, if_pos notRoot,
      Option.pure_def]
    refine ⟨_, _, rfl, afterWell, ?_, rfl⟩
    rcases shape.blocks with ⟨isEmpty, none⟩ | has
    · rw [isEmpty]
      refine ⟨none.direct.setSector (by decide) small ne, ?_⟩
      rw [(sameFile_setSector (by decide) small).table, none.table]
      decide
    · exact absurd isFirst ((has.direct 0 (by decide)).mpr (Nat.succ_pos _))
  · rw [if_neg isFirst]
    refine ⟨_, _, rfl, wellFormed, ?_, rfl⟩
    rcases shape.blocks with ⟨_, none⟩ | has
    · exact absurd ((none.direct 0 (by decide)).mp isFirst) (Nat.lt_irrefl 0)
    · exact has

/-- The sectors that the loop writes are those of `all_blocks`. -/
theorem writeLoop_spec {fuel sizeLeft : Nat} (enough : sizeLeft ≤ fuel)
    (small : file.inode.iSize.toNat + sizeLeft ≤ 71680) (wellFormed : part.WellFormed)
    (blocks : List Nat) (isFirst : Bool) (src : Buf) :
    ∃ part' file', writeLoop fuel part file blocks isFirst src sizeLeft = some (part', file') ∧
      part'.WellFormed ∧ file'.inode.iSectors = file.inode.iSectors ∧
      file'.inode.iSize.toNat = file.inode.iSize.toNat + sizeLeft := by
  induction fuel generalizing part file isFirst src sizeLeft with
  | zero =>
      have isZero : sizeLeft = 0 := by omega
      rw [isZero]
      exact ⟨part, file, rfl, wellFormed, rfl, rfl⟩
  | succ fuel inductionHypothesis =>
      unfold writeLoop
      by_cases isZero : sizeLeft = 0
      · rw [if_pos isZero, isZero]
        exact ⟨part, file, rfl, wellFormed, rfl, rfl⟩
      rw [if_neg isZero]
      have inBlocks : file.inode.iSize.toNat / blockSize < 140 := by
        unfold blockSize
        omega
      have positive := chunkSize_pos file.inode.iSize.toNat (Nat.pos_of_ne_zero isZero)
      have atMost := chunkSize_le file.inode.iSize.toNat sizeLeft
      have isChunk := @toNat_chunk file.inode.iSize.toNat sizeLeft (by omega)
      have moved : (file.inode.iSize + UInt32.ofNat (chunkSize file.inode.iSize.toNat sizeLeft)).toNat =
          file.inode.iSize.toNat + chunkSize file.inode.iSize.toNat sizeLeft := by
        rw [toNat_add_of_fits (by unfold Fits; dsimp only; omega), isChunk]
      simp only [guard, if_pos inBlocks, Option.pure_def, Option.bind_eq_bind, Option.bind_some]
      obtain ⟨part', file', isRun, well', sectors', size'⟩ := @inductionHypothesis
        (part.ideWrite (blocks.getD (file.inode.iSize.toNat / blockSize) 0)
          (memcpy (if isFirst then ideRead part.disk (blocks.getD (file.inode.iSize.toNat / blockSize) 0) 1
            else fun _ => 0) (file.inode.iSize.toNat % blockSize) src
            (chunkSize file.inode.iSize.toNat sizeLeft)))
        ⟨file.fdPos + UInt32.ofNat (chunkSize file.inode.iSize.toNat sizeLeft),
          { file.inode with
            iSize := file.inode.iSize + UInt32.ofNat (chunkSize file.inode.iSize.toNat sizeLeft) }⟩
        (sizeLeft - chunkSize file.inode.iSize.toNat sizeLeft) (by omega)
        (by dsimp only; rw [moved]; omega) ((Volume.writes_ideWrite _ _ _).wellFormed wellFormed) false
        (fun i => src (chunkSize file.inode.iSize.toNat sizeLeft + i))
      dsimp only at size'
      rw [moved] at size'
      exact ⟨part', file', isRun, well', sectors', by omega⟩

/-- The loop stops within `all_blocks`. -/
theorem writeLoop_fits {fuel sizeLeft : Nat} {isFirst : Bool} {src : Buf}
    (inFile : file.inode.iSize.toNat ≤ 71680)
    (isRun : writeLoop fuel part file blocks isFirst src sizeLeft = some (part', file')) :
    file.inode.iSize.toNat + sizeLeft ≤ 71680 := by
  induction fuel generalizing part file isFirst src sizeLeft with
  | zero =>
      unfold writeLoop at isRun
      split at isRun
      · omega
      · cases isRun
  | succ fuel inductionHypothesis =>
      unfold writeLoop at isRun
      split at isRun
      · omega
      · rename_i notZero
        obtain ⟨_, isGuard, isRest⟩ := Option.bind_eq_some_iff.mp isRun
        have inBlocks : file.inode.iSize.toNat / blockSize < 140 := by
          by_contra outside
          simp [guard, outside] at isGuard
        have inSector : chunkSize file.inode.iSize.toNat sizeLeft ≤
            blockSize - file.inode.iSize.toNat % blockSize := by
          unfold chunkSize
          split <;> omega
        have atMost := chunkSize_le file.inode.iSize.toNat sizeLeft
        have isChunk : (UInt32.ofNat (chunkSize file.inode.iSize.toNat sizeLeft)).toNat =
            chunkSize file.inode.iSize.toNat sizeLeft :=
          UInt32.toNat_ofNat_of_lt' (by unfold blockSize at inSector; unfold UInt32.size; omega)
        unfold blockSize at inBlocks inSector
        have moved : (file.inode.iSize + UInt32.ofNat (chunkSize file.inode.iSize.toNat sizeLeft)).toNat =
            file.inode.iSize.toNat + chunkSize file.inode.iSize.toNat sizeLeft := by
          rw [toNat_add_of_fits (by unfold Fits; dsimp only; omega), isChunk]
        have rest := inductionHypothesis (by
          show (file.inode.iSize + UInt32.ofNat (chunkSize file.inode.iSize.toNat sizeLeft)).toNat ≤ 71680
          omega) isRest
        have sum : (file.inode.iSize + UInt32.ofNat (chunkSize file.inode.iSize.toNat sizeLeft)).toNat +
            (sizeLeft - chunkSize file.inode.iSize.toNat sizeLeft) ≤ 71680 := rest
        omega

theorem HasBlocks.congr {n : Nat} (has : HasBlocks inode n) (same : inode'.iSectors = inode.iSectors) :
    HasBlocks inode' n := by
  have sameSector : ∀ idx, sectorOf inode' idx = sectorOf inode idx := by
    intro idx
    unfold sectorOf
    rw [same]
  refine ⟨fun idx isDirect => ?_, ?_⟩
  · rw [sameSector]
    exact has.direct idx isDirect
  · rw [sameSector]
    exact has.table

/-- Below 71680 bytes, a write succeeds where there is room. -/
theorem fileWrite_spec (wellFormed : part.WellFormed) (shape : FileShape inode)
    (small : inode.iSize.toNat + count.toNat < 71680) (room : writeNeeds inode count ≤ part.freeBlocks)
    (rootTaken : sectorOf inode 0 = 0 → firstClear part.blockBitmap ≠ some 0) (pos : UInt32) (buf : Buf) :
    ∃ part' file', fileWrite part ⟨pos, inode⟩ buf count = some (part', file', some count) ∧
      FileShape file'.inode ∧ file'.inode.iSize.toNat = inode.iSize.toNat + count.toNat := by
  have sum : (inode.iSize + count).toNat = inode.iSize.toNat + count.toNat :=
    toNat_add_of_fits (by unfold Fits; dsimp only; omega)
  have accepted : ¬ inode.iSize + count > maxFileSize := accepts_iff.mpr (by omega)
  have willFit : (inode.iSize + count).toNat / blockSize + 1 ≤ 140 := by
    unfold blockSize
    omega
  have le : inode.iSize.toNat / blockSize + 1 ≤ (inode.iSize + count).toNat / blockSize + 1 := by
    unfold blockSize
    omega
  unfold writeNeeds at room
  obtain ⟨part₁, inode₁, isFirst, well₁, has₁, size₁⟩ :=
    allocFirst_spec wellFormed shape (by omega) rootTaken
  have room₁ := (allocFirst_room isFirst).1
  obtain ⟨part₂, inode₂, blocks, isBlocks, well₂, has₂, size₂⟩ :=
    writeBlocks_spec well₁ has₁ (Nat.succ_pos _) le (by omega)
  have isSize : inode₂.iSize = inode.iSize := size₂.trans size₁
  obtain ⟨part₃, file₃, isLoop, well₃, sectors₃, size₃⟩ :=
    @writeLoop_spec part₂ ⟨inode₂.iSize - 1, inode₂⟩ count.toNat count.toNat (Nat.le_refl _)
      (by dsimp only; rw [isSize]; omega) well₂ blocks true buf
  obtain ⟨part₄, isSync, _⟩ := Volume.inodeSync_spec well₃ file₃.inode
  dsimp only at size₃
  rw [isSize] at size₃
  refine ⟨part₄, file₃, ?_, ⟨?_, .inr ?_⟩, size₃⟩
  · unfold fileWrite writeData
    rw [if_neg accepted]
    simp only [isFirst, Option.bind_eq_bind, Option.bind_some, Bool.true_eq_false, if_false, guard, size₁,
      if_pos willFit, Option.pure_def, isBlocks, isLoop, isSync]
  · rw [size₃]
    exact small
  · rw [size₃, ← sum]
    exact has₂.congr sectors₃

/-- What a write that succeeded says about its input. -/
structure Succeeded (part : Volume) (inode : Inode) (count : UInt32) : Prop where
  small : inode.iSize.toNat + count.toNat < 71680
  room : writeNeeds inode count ≤ part.freeBlocks
  rootTaken : sectorOf inode 0 = 0 → firstClear part.blockBitmap ≠ some 0

theorem fileWrite_succeeded {written : UInt32} (inFile : file.inode.iSize.toNat < 71680)
    (isRun : fileWrite part file buf count = some (part', file', some written)) :
    Succeeded part file.inode count := by
  unfold fileWrite at isRun
  split at isRun
  · cases isRun
  unfold writeData at isRun
  obtain ⟨⟨part₁, inode₁, done₁⟩, isFirst, isRest⟩ := Option.bind_eq_some_iff.mp isRun
  obtain ⟨room₁, rootTaken⟩ := allocFirst_room isFirst
  rw [allocFirst_done isFirst] at isRest
  simp only [Bool.true_eq_false, if_false, allocFirst_size isFirst] at isRest
  obtain ⟨_, isGuard, isRest⟩ := Option.bind_eq_some_iff.mp isRest
  have willFit : (file.inode.iSize + count).toNat / blockSize + 1 ≤ 140 := by
    by_contra tooLarge
    rw [guard, if_neg tooLarge] at isGuard
    cases isGuard
  obtain ⟨⟨part₂, inode₂, blocks, done₂⟩, isBlocks, isRest⟩ := Option.bind_eq_some_iff.mp isRest
  obtain ⟨room₂, size₂⟩ := writeBlocks_room isBlocks
  rw [writeBlocks_done isBlocks] at isRest
  simp only [Bool.true_eq_false, if_false] at isRest
  obtain ⟨⟨part₃, file₃⟩, isLoop, _⟩ := Option.bind_eq_some_iff.mp isRest
  have isSize : inode₂.iSize = file.inode.iSize := size₂.trans (allocFirst_size isFirst)
  have inLoop := writeLoop_fits (by dsimp only; rw [isSize]; omega) isLoop
  dsimp only at inLoop
  rw [isSize] at inLoop
  have sum : (file.inode.iSize + count).toNat = file.inode.iSize.toNat + count.toNat :=
    toNat_add_of_fits (by unfold Fits; dsimp only; omega)
  rw [sum] at willFit
  refine ⟨by unfold blockSize at willFit; omega, ?_, rootTaken⟩
  unfold writeNeeds
  omega

/-- A write leaves the inode in shape. -/
theorem fileWrite_shape {written : UInt32} (wellFormed : part.WellFormed) (shape : FileShape file.inode)
    (isRun : fileWrite part file buf count = some (part', file', some written)) : FileShape file'.inode := by
  have succeeded := fileWrite_succeeded shape.size isRun
  obtain ⟨part₁, file₁, isSpec, shape₁, _⟩ :=
    fileWrite_spec wellFormed shape succeeded.small succeeded.room succeeded.rootTaken file.fdPos buf
  have same := isRun.symm.trans isSpec
  cases same
  exact shape₁

/-! ### `file_read` -/

theorem readLoop_spec {fuel sizeLeft : Nat} (enough : sizeLeft ≤ fuel)
    (inBlocks : file.fdPos.toNat + sizeLeft ≤ 71680) (part : Volume) (blocks : List Nat) :
    ∃ file' bytes, readLoop fuel part file blocks sizeLeft = some (file', bytes) := by
  induction fuel generalizing file sizeLeft with
  | zero =>
      have isZero : sizeLeft = 0 := by omega
      rw [isZero]
      exact ⟨file, [], rfl⟩
  | succ fuel inductionHypothesis =>
      unfold readLoop
      by_cases isZero : sizeLeft = 0
      · rw [if_pos isZero]
        exact ⟨file, [], rfl⟩
      rw [if_neg isZero]
      have inTable : file.fdPos.toNat / blockSize < 140 := by
        unfold blockSize
        omega
      have positive := chunkSize_pos file.fdPos.toNat (Nat.pos_of_ne_zero isZero)
      have atMost := chunkSize_le file.fdPos.toNat sizeLeft
      have isChunk := @toNat_chunk file.fdPos.toNat sizeLeft (by omega)
      have moved : (file.fdPos + UInt32.ofNat (chunkSize file.fdPos.toNat sizeLeft)).toNat =
          file.fdPos.toNat + chunkSize file.fdPos.toNat sizeLeft := by
        rw [toNat_add_of_fits (by unfold Fits; dsimp only; omega), isChunk]
      obtain ⟨file', bytes, isRest⟩ := @inductionHypothesis
        ⟨file.fdPos + UInt32.ofNat (chunkSize file.fdPos.toNat sizeLeft), file.inode⟩
        (sizeLeft - chunkSize file.fdPos.toNat sizeLeft) (by omega) (by dsimp only; rw [moved]; omega)
      unfold chunkSize at isRest
      simp only [guard, if_pos inTable, Option.pure_def, Option.bind_eq_bind, Option.bind_some, isRest]
      exact ⟨_, _, rfl⟩

theorem readBlockTable_spec {startIdx endIdx : Nat} (isTable : 12 ≤ endIdx → sectorOf inode 12 ≠ 0)
    (part : Volume) : ∃ blocks, readBlockTable part inode startIdx endIdx = some blocks := by
  unfold readBlockTable
  dsimp only
  split
  · split <;> exact ⟨_, rfl⟩
  · split
    · exact ⟨_, rfl⟩
    · rename_i indirect
      simp only [guard, if_pos (isTable (Nat.le_of_not_lt indirect)), Option.pure_def, Option.bind_eq_bind,
        Option.bind_some]
      split <;> exact ⟨_, rfl⟩

/-- The table is there as soon as the file reaches its blocks. -/
theorem FileShape.table {lastIdx : Nat} (shape : FileShape inode)
    (inFile : lastIdx ≤ inode.iSize.toNat / blockSize) (indirect : 12 ≤ lastIdx) :
    sectorOf inode 12 ≠ 0 := by
  rcases shape.blocks with ⟨isEmpty, _⟩ | has
  · rw [isEmpty, UInt32.toNat_zero, Nat.zero_div] at inFile
    omega
  · exact has.table.mpr (by omega)

/-- A read inside the file reaches the loop with the whole range. -/
theorem fileRead_inside {pos len : UInt32} (inFile : pos.toNat + len.toNat ≤ inode.iSize.toNat)
    (part : Volume) :
    fileRead part ⟨pos, inode⟩ len =
      (readData part ⟨pos, inode⟩ len).map fun (file, bytes) => (file, some bytes) := by
  have small := inode.iSize.toNat_lt
  have sum : (pos + len).toNat = pos.toNat + len.toNat :=
    toNat_add_of_fits (by unfold Fits; dsimp only; omega)
  have notPast : ¬ pos + len > inode.iSize := by
    rw [gt_iff_lt, UInt32.lt_iff_toNat_lt]
    omega
  have notEnd : atEnd ⟨pos, inode⟩ len = false := by
    unfold atEnd
    rw [decide_eq_false notPast, Bool.false_and]
  unfold fileRead readSize
  rw [notEnd, if_neg notPast]
  cases readData part ⟨pos, inode⟩ len <;> rfl

/-! ### The limits -/

/-- The inodes of regular files: a created one, and what a write that succeeded
leaves. Opening and closing, here or elsewhere, only count. -/
inductive Written : Inode → Prop
  | created (inodeNo : Nat) : Written (inodeInit inodeNo)
  | wrote {part part' : Volume} {file file' : OpenFile} {buf : Buf} {count written : UInt32}
      (before : Written file.inode) (wellFormed : part.WellFormed)
      (isRun : fileWrite part file buf count = some (part', file', some written)) : Written file'.inode
  | counted {inode : Inode} (iOpenCnts writeDeny tagPrev tagNext : UInt32) (before : Written inode) :
      Written { inode with
        iOpenCnts := iOpenCnts, writeDeny := writeDeny, tagPrev := tagPrev, tagNext := tagNext }

theorem Written.shape (written : Written inode) : FileShape inode := by
  induction written with
  | created inodeNo =>
      refine ⟨by show (0 : UInt32).toNat < 71680; decide, .inl ⟨rfl, fun idx _ => ?_, ?_⟩⟩
      · exact iff_of_false (fun ne => ne rfl) (Nat.not_lt_zero idx)
      · exact iff_of_false (fun ne => ne rfl) (by decide)
  | wrote before wellFormed isRun shape => exact fileWrite_shape wellFormed shape isRun
  | counted iOpenCnts writeDeny tagPrev tagNext before shape =>
      refine ⟨shape.size, shape.blocks.imp (fun isEmpty => ⟨isEmpty.1, ?_⟩) fun has => ?_⟩
      · exact isEmpty.2.congr rfl
      · exact has.congr rfl

/-- A write of `count` bytes fails no `ASSERT` and returns, on every mounted volume
that has room for it; the first block belongs to the root directory. -/
def Writable (inode : Inode) (count : UInt32) : Prop :=
  ∀ part : Volume, part.WellFormed → bitmapScanTest part.blockBitmap 0 = true →
    writeNeeds inode count ≤ part.freeBlocks → ∀ pos buf, ∃ part' file',
      fileWrite part ⟨pos, inode⟩ buf count = some (part', file', some count)

/-- A read of `len` bytes from `pos` on fails no `ASSERT` and returns them all. -/
def Readable (inode : Inode) (pos len : UInt32) : Prop :=
  ∀ part : Volume, ∃ file' bytes,
    fileRead part ⟨pos, inode⟩ len = some (file', some bytes) ∧ bytes.length = len.toNat

theorem rootTaken_of_bit (isSet : bitmapScanTest part.blockBitmap 0 = true) :
    firstClear part.blockBitmap ≠ some 0 := by
  intro found
  obtain ⟨_, isClear, _⟩ := firstClear_some found
  rw [isSet] at isClear
  cases isClear

theorem blankVolume_free : 4095 ≤ blankVolume.freeBlocks := by
  decide +kernel

theorem writeNeeds_le (small : inode.iSize.toNat + count.toNat ≤ 71680) : writeNeeds inode count ≤ 143 := by
  have sum : (inode.iSize + count).toNat = inode.iSize.toNat + count.toNat :=
    toNat_add_of_fits (by unfold Fits; dsimp only; omega)
  unfold writeNeeds blockNeeds
  rw [sum]
  unfold blockSize
  split <;> split <;> omega

theorem writable_iff (shape : FileShape inode) (admitted : inode.iSize.toNat + count.toNat ≤ 71680) :
    Writable inode count ↔ inode.iSize.toNat + count.toNat < 71680 := by
  constructor
  · intro writable
    have needs := writeNeeds_le admitted
    have room := blankVolume_free
    obtain ⟨part', file', isRun⟩ :=
      writable blankVolume blankVolume_wellFormed (by decide) (by omega) 0 (fun _ => 0)
    exact (fileWrite_succeeded shape.size isRun).small
  · intro small part wellFormed isSet room pos buf
    obtain ⟨part', file', isRun, _⟩ :=
      fileWrite_spec wellFormed shape small room (fun _ => rootTaken_of_bit isSet) pos buf
    exact ⟨part', file', isRun⟩

theorem readable_iff {pos len : UInt32} (shape : FileShape inode)
    (inFile : pos.toNat + len.toNat ≤ inode.iSize.toNat) :
    Readable inode pos len ↔ pos.toNat + len.toNat < 71168 := by
  have size := shape.size
  have sum : (pos + len).toNat = pos.toNat + len.toNat :=
    toNat_add_of_fits (by unfold Fits; dsimp only; omega)
  constructor
  · intro readable
    obtain ⟨file', bytes, isRun, _⟩ := readable blankVolume
    rw [fileRead_inside inFile] at isRun
    obtain ⟨_, isData, _⟩ := Option.map_eq_some_iff.mp isRun
    unfold readData at isData
    dsimp only at isData
    rw [sum] at isData
    obtain ⟨_, isGuard, _⟩ := Option.bind_eq_some_iff.mp isData
    by_contra tooFar
    have outside : ¬ (pos.toNat / blockSize < 139 ∧ (pos.toNat + len.toNat) / blockSize < 139) := by
      unfold blockSize
      omega
    rw [guard, if_neg outside] at isGuard
    cases isGuard
  · intro small part
    have inside : pos.toNat / blockSize < 139 ∧ (pos.toNat + len.toNat) / blockSize < 139 := by
      unfold blockSize
      omega
    obtain ⟨blocks, isBlocks⟩ := @readBlockTable_spec inode (pos.toNat / blockSize)
      ((pos.toNat + len.toNat) / blockSize)
      (fun indirect => shape.table (Nat.div_le_div_right inFile) indirect) part
    obtain ⟨file', bytes, isLoop⟩ :=
      @readLoop_spec ⟨pos, inode⟩ len.toNat len.toNat (Nat.le_refl _) (by dsimp only; omega) part blocks
    have isData : readData part ⟨pos, inode⟩ len = some (file', bytes) := by
      unfold readData
      dsimp only
      rw [sum]
      simp only [guard, if_pos inside, Option.pure_def, Option.bind_eq_bind, Option.bind_some, isBlocks, isLoop]
    refine ⟨file', bytes, ?_, ?_⟩
    · rw [fileRead_inside inFile, isData]
      rfl
    · exact (readLoop_length (by dsimp only; omega) isLoop).1

/-- A regular file can be written below 71680 bytes, and read below 71168. -/
theorem file_limits_iff (written : Written inode) :
    (∀ count : UInt32, inode.iSize.toNat + count.toNat ≤ 71680 →
      (Writable inode count ↔ inode.iSize.toNat + count.toNat < 71680)) ∧
    ∀ pos len : UInt32, pos.toNat + len.toNat ≤ inode.iSize.toNat →
      (Readable inode pos len ↔ pos.toNat + len.toNat < 71168) :=
  ⟨fun _ admitted => writable_iff written.shape admitted,
    fun _ _ inFile => readable_iff written.shape inFile⟩

/-- A new file takes 71679 bytes. -/
theorem new_file_writable : Writable (inodeInit 5) 71679 :=
  ((file_limits_iff (.created 5)).1 71679 (by decide)).mpr (by decide)

/-- 71680 bytes are admitted by the guard and cannot be written; 71679 bytes can,
and the last of them cannot be read. -/
theorem file_limits_disagree :
    ¬ Writable (inodeInit 5) 71680 ∧
      ∃ inode, Written inode ∧ inode.iSize = 71679 ∧ ¬ Readable inode 71678 1 := by
  have shape := (Written.created 5).shape
  constructor
  · rw [writable_iff shape (by decide)]
    decide
  · have room := blankVolume_free
    have needs : writeNeeds (inodeInit 5) 71679 ≤ 143 := writeNeeds_le (by decide)
    obtain ⟨part', file', isRun, shape', size'⟩ := fileWrite_spec blankVolume_wellFormed shape
      (show (0 : UInt32).toNat + (71679 : UInt32).toNat < 71680 by decide) (needs.trans (by omega))
      (fun _ => rootTaken_of_bit (by decide)) 0 (fun _ => 0)
    have isSize : file'.inode.iSize.toNat = 71679 := size'
    refine ⟨file'.inode, (Written.created 5).wrote blankVolume_wellFormed isRun,
      UInt32.toNat_inj.mp isSize, ?_⟩
    rw [readable_iff shape' (by rw [isSize]; decide)]
    decide

end ZyOs.Fs
