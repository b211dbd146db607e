import ZyOs.Fs.FileLimits

/-!
Contract: the allocations of `file_write` and `sync_dir_entry` when the volume is full,
with a `block_bitmap_alloc` that returns -1.

Owns:
- the functions over any allocation; over that of the volume they are those of the
  model, where `bitmap_scan` fails an `ASSERT` before there is a -1;
- what is left of the volume and the inode when an allocation returns -1.

The callers are written for -1, and do not undo what they have allocated before. The
branches are followed as they are written.
-/

namespace ZyOs.Fs.DiskFull

open ZyOs.Kernel

/-! ### Allocation -/

/-- A function that allocates; `none` inside for -1. -/
abbrev Alloc := Volume → Option (Volume × Option Nat)

/-- `block_bitmap_alloc` with -1 from `bitmap_scan`. -/
def blockBitmapAlloc : Alloc := fun part =>
  match firstClear part.blockBitmap with
  | none => some (part, none)
  | some bit => some (part.setBlockBit bit true, some (part.dataStartLba + bit))

/-- `inode_bitmap_alloc` with -1 from `bitmap_scan`. -/
def inodeBitmapAlloc : Alloc := fun part =>
  match firstClear part.inodeBitmap with
  | none => some (part, none)
  | some bit => some (part.setInodeBit bit true, some bit)

/-! ### `file_write` -/

/-- The first block of a file that was not written before. -/
def allocFirst (alloc : Alloc) (part : Volume) (inode : InodeTable.Inode) :
    Option (Volume × InodeTable.Inode × Bool) :=
  if sectorOf inode 0 = 0 then do
    let (part, blockLba) ← alloc part
    match blockLba with
    | none => return (part, inode, false)
    | some blockLba =>
        let blockBitmapIdx := blockLba - part.dataStartLba
        guard (blockBitmapIdx ≠ 0)
        return (part.bitmapSync blockBitmapIdx .block, setSector inode 0 blockLba, true)
  else
    some (part, inode, true)

/-- The loops that allocate the blocks from `file_has_used_blocks` on. -/
def allocBlocks (alloc : Alloc) (part : Volume) (inode : InodeTable.Inode) (allBlocks : List Nat) :
    List Nat → Option (Volume × InodeTable.Inode × List Nat × Bool)
  | [] => some (part, inode, allBlocks, true)
  | blockIdx :: rest => do
      let (part, blockLba) ← alloc part
      match blockLba with
      | none => return (part, inode, allBlocks, false)
      | some blockLba =>
          let synced := part.bitmapSync (blockLba - part.dataStartLba) .block
          if blockIdx < 12 then
            guard (sectorOf inode blockIdx = 0)
            allocBlocks alloc synced (setSector inode blockIdx blockLba) (allBlocks.set blockIdx blockLba) rest
          else
            allocBlocks alloc synced inode (allBlocks.set blockIdx blockLba) rest

/-- How `file_write` fills `all_blocks`, with the blocks that it allocates. -/
def writeBlocks (alloc : Alloc) (part : Volume) (inode : InodeTable.Inode) (hasUsed willUse : Nat) :
    Option (Volume × InodeTable.Inode × List Nat × Bool) := do
  let added := List.range' hasUsed (willUse - hasUsed)
  if willUse = hasUsed then
    if hasUsed ≤ 12 then
      return (part, inode, collect inode noBlocks (hasUsed - 1), true)
    else
      guard (sectorOf inode 12 ≠ 0)
      return (part, inode, readTable part inode noBlocks, true)
  else if willUse ≤ 12 then
    guard (hasUsed ≤ 13)
    guard (sectorOf inode (hasUsed - 1) ≠ 0)
    allocBlocks alloc part inode (collect inode noBlocks (hasUsed - 1)) added
  else if hasUsed ≤ 12 then
    let allBlocks := collect inode noBlocks (hasUsed - 1)
    let (part, blockLba) ← alloc part
    match blockLba with
    | none => return (part, inode, allBlocks, false)
    | some blockLba =>
        guard (sectorOf inode 12 = 0)
        let (part, inode, allBlocks, done) ←
          allocBlocks alloc part (setSector inode 12 blockLba) allBlocks added
        if done then
          return (part.ideWrite blockLba (tableBuf allBlocks), inode, allBlocks, true)
        else
          return (part, inode, allBlocks, false)
  else
    guard (sectorOf inode 12 ≠ 0)
    let (part, inode, allBlocks, done) ← allocBlocks alloc part inode (readTable part inode noBlocks) added
    if done then
      return (part.ideWrite (sectorOf inode 12) (tableBuf allBlocks), inode, allBlocks, true)
    else
      return (part, inode, allBlocks, false)

/-- `file_write`, after its buffers are allocated. -/
def writeData (alloc : Alloc) (part : Volume) (file : OpenFile) (buf : Buf) (count : UInt32) :
    Option (Volume × OpenFile × Option UInt32) := do
  let (part, inode, done) ← allocFirst alloc part file.inode
  if done = false then
    return (part, { file with inode := inode }, none)
  else
    let hasUsed := inode.iSize.toNat / blockSize + 1
    let willUse := (inode.iSize + count).toNat / blockSize + 1
    guard (willUse ≤ 140)
    let (part, inode, allBlocks, done) ← writeBlocks alloc part inode hasUsed willUse
    if done = false then
      return (part, { file with inode := inode }, none)
    else
      let (part, file) ← writeLoop count.toNat part ⟨inode.iSize - 1, inode⟩ allBlocks true buf count.toNat
      let part ← part.inodeSync file.inode
      return (part, file, some count)

/-! ### `sync_dir_entry` -/

/-- The new block of `sync_dir_entry`. -/
def addBlock (alloc : Alloc) (part : Volume) (dirInode : InodeTable.Inode) (allBlocks : List Nat)
    (blockIdx : Nat) : Option (Volume × InodeTable.Inode × Option Nat) := do
  let (part, blockLba) ← alloc part
  match blockLba with
  | none => return (part, dirInode, none)
  | some blockLba =>
      let part := part.bitmapSync (blockLba - part.dataStartLba) .block
      if blockIdx < 12 then
        return (part, setSector dirInode blockIdx blockLba, some blockLba)
      else if blockIdx = 12 then
        let dirInode := setSector dirInode 12 blockLba
        let (part, blockLba) ← alloc part
        match blockLba with
        | none =>
            let part := part.setBlockBit (sectorOf dirInode 12 - part.dataStartLba) false
            return (part, setSector dirInode 12 0, none)
        | some blockLba =>
            let part := part.bitmapSync (blockLba - part.dataStartLba) .block
            let part := part.ideWrite (sectorOf dirInode 12) (tableBuf (allBlocks.set 12 blockLba))
            return (part, dirInode, some blockLba)
      else
        let part := part.ideWrite (sectorOf dirInode 12) (tableBuf (allBlocks.set blockIdx blockLba))
        return (part, dirInode, some blockLba)

/-- The loop of `sync_dir_entry`, over the indices of the blocks that are left. -/
def syncLoop (alloc : Alloc) (part : Volume) (dirInode : InodeTable.Inode) (pDe : DirEntry)
    (allBlocks : List Nat) : List Nat → Option (Volume × InodeTable.Inode × Bool)
  | [] => some (part, dirInode, false)
  | blockIdx :: rest =>
      let lba := allBlocks.getD blockIdx 0
      if lba = 0 then do
        let (part, dirInode, blockLba) ← addBlock alloc part dirInode allBlocks blockIdx
        match blockLba with
        | none => return (part, dirInode, false)
        | some blockLba =>
            let ioBuf := memcpy (fun _ => 0) 0 pDe.bytes dirEntrySize
            return (part.ideWrite blockLba ioBuf,
              { dirInode with iSize := dirInode.iSize + UInt32.ofNat dirEntrySize }, true)
      else
        let ioBuf := ideRead part.disk lba 1
        match (List.range dirEntrysPerSec).find? fun idx => fTypeAt ioBuf idx = 0 with
        | some idx =>
            some (part.ideWrite lba (memcpy ioBuf (idx * dirEntrySize) pDe.bytes dirEntrySize),
              { dirInode with iSize := dirInode.iSize + UInt32.ofNat dirEntrySize }, true)
        | none => syncLoop alloc part dirInode pDe allBlocks rest

/-- `sync_dir_entry`. -/
def syncDirEntry (alloc : Alloc) (part : Volume) (dirInode : InodeTable.Inode) (pDe : DirEntry) :
    Option (Volume × InodeTable.Inode × Bool) :=
  if dirInode.iSize.toNat % dirEntrySize = 0 then
    syncLoop alloc part dirInode pDe (directBlocks dirInode ++ List.replicate 128 0) (List.range 140)
  else
    none

/-! ### The model -/

variable {part part' : Volume} {inode inode' : InodeTable.Inode} {file file' : OpenFile} {buf : Buf}
  {count : UInt32} {blocks blocks' : List Nat} {done : Bool} {bit : Nat}

theorem allocBlocks_model : allocBlocks Volume.blockBitmapAlloc = Fs.allocBlocks := by
  funext part inode blocks idxs
  induction idxs generalizing part inode blocks with
  | nil => rfl
  | cons blockIdx rest inductionHypothesis =>
      unfold allocBlocks
      apply Option.bind_congr
      rintro ⟨part₁, allocated⟩ _
      cases allocated with
      | none => rfl
      | some blockLba =>
          dsimp only
          rw [inductionHypothesis, inductionHypothesis]

theorem writeBlocks_model : writeBlocks Volume.blockBitmapAlloc = Fs.writeBlocks := by
  funext part inode hasUsed willUse
  unfold writeBlocks
  rw [allocBlocks_model]
  rfl

/-- Over the allocation of the volume, it is the `file_write` of the model. -/
theorem writeData_model : writeData Volume.blockBitmapAlloc = Fs.writeData := by
  funext part file buf count
  unfold writeData
  rw [writeBlocks_model]
  rfl

theorem syncLoop_model (part : Volume) (inode : InodeTable.Inode) (pDe : DirEntry) (blocks idxs : List Nat) :
    syncLoop Volume.blockBitmapAlloc part inode pDe blocks idxs = Fs.syncLoop part inode pDe blocks idxs := by
  induction idxs with
  | nil => rfl
  | cons blockIdx rest inductionHypothesis =>
      unfold syncLoop
      rw [inductionHypothesis]
      rfl

/-- Over the allocation of the volume, it is the `sync_dir_entry` of the model. -/
theorem syncDirEntry_model : syncDirEntry Volume.blockBitmapAlloc = Fs.syncDirEntry := by
  funext part inode pDe
  unfold syncDirEntry
  rw [syncLoop_model]
  rfl

/-! ### What is left: `file_write` -/

theorem blockBitmapAlloc_none (isRun : blockBitmapAlloc part = some (part', none)) :
    part' = part ∧ part.freeBlocks = 0 := by
  unfold blockBitmapAlloc at isRun
  cases found : firstClear part.blockBitmap with
  | none =>
      rw [found] at isRun
      cases isRun
      refine ⟨rfl, Nat.eq_zero_of_not_pos fun positive => ?_⟩
      obtain ⟨bit, isBit⟩ := Volume.freeBlocks_pos_iff.mp positive
      cases found.symm.trans isBit
  | some bit =>
      rw [found] at isRun
      cases isRun

theorem blockBitmapAlloc_some {lba : Nat} (isRun : blockBitmapAlloc part = some (part', some lba)) :
    ∃ bit, firstClear part.blockBitmap = some bit ∧ part' = part.setBlockBit bit true ∧
      lba = part.dataStartLba + bit := by
  unfold blockBitmapAlloc at isRun
  cases found : firstClear part.blockBitmap with
  | none =>
      rw [found] at isRun
      cases isRun
  | some bit =>
      rw [found] at isRun
      cases isRun
      exact ⟨bit, rfl, rfl, rfl⟩

theorem inodeBitmapAlloc_none (isRun : inodeBitmapAlloc part = some (part', none)) :
    part' = part ∧ firstClear part.inodeBitmap = none := by
  unfold inodeBitmapAlloc at isRun
  cases found : firstClear part.inodeBitmap with
  | none =>
      rw [found] at isRun
      cases isRun
      exact ⟨rfl, rfl⟩
  | some bit =>
      rw [found] at isRun
      cases isRun

theorem inodeBitmapAlloc_some {inodeNo : Nat} (isRun : inodeBitmapAlloc part = some (part', some inodeNo)) :
    firstClear part.inodeBitmap = some inodeNo ∧ part' = part.setInodeBit inodeNo true := by
  unfold inodeBitmapAlloc at isRun
  cases found : firstClear part.inodeBitmap with
  | none =>
      rw [found] at isRun
      cases isRun
  | some bit =>
      rw [found] at isRun
      cases isRun
      exact ⟨rfl, rfl⟩

/-- What a call with -1 leaves: nothing free, and nothing changed if nothing was free. -/
structure Leaves (part part' : Volume) (inode inode' : InodeTable.Inode) : Prop where
  full : part'.freeBlocks = 0
  same : part.freeBlocks = 0 → part' = part ∧ inode' = inode

theorem allocBlocks_leaves {idxs : List Nat}
    (isRun : allocBlocks blockBitmapAlloc part inode blocks idxs = some (part', inode', blocks', false)) :
    Leaves part part' inode inode' := by
  induction idxs generalizing part inode blocks with
  | nil => cases isRun
  | cons blockIdx rest inductionHypothesis =>
      unfold allocBlocks at isRun
      obtain ⟨⟨part₁, allocated⟩, isAlloc, isRest⟩ := Option.bind_eq_some_iff.mp isRun
      cases allocated with
      | none =>
          obtain ⟨isSame, isFull⟩ := blockBitmapAlloc_none isAlloc
          cases isRest
          rw [isSame]
          exact ⟨isFull, fun _ => ⟨rfl, rfl⟩⟩
      | some lba =>
          obtain ⟨bit, found, _, _⟩ := blockBitmapAlloc_some isAlloc
          have positive := Volume.freeBlocks_pos_iff.mpr ⟨bit, found⟩
          refine ⟨?_, fun isFull => by omega⟩
          dsimp only at isRest
          split at isRest
          · obtain ⟨_, _, isRest⟩ := Option.bind_eq_some_iff.mp isRest
            exact (inductionHypothesis isRest).full
          · exact (inductionHypothesis isRest).full

theorem writeBlocks_leaves {hasUsed willUse : Nat}
    (isRun : writeBlocks blockBitmapAlloc part inode hasUsed willUse = some (part', inode', blocks, false)) :
    Leaves part part' inode inode' := by
  unfold writeBlocks at isRun
  dsimp only at isRun
  split at isRun
  · split at isRun
    · cases isRun
    · obtain ⟨_, _, isPair⟩ := Option.bind_eq_some_iff.mp isRun
      cases isPair
  · split at isRun
    · obtain ⟨_, _, isRest⟩ := Option.bind_eq_some_iff.mp isRun
      obtain ⟨_, _, isRest⟩ := Option.bind_eq_some_iff.mp isRest
      exact allocBlocks_leaves isRest
    · split at isRun
      · obtain ⟨⟨part₁, allocated⟩, isAlloc, isRest⟩ := Option.bind_eq_some_iff.mp isRun
        cases allocated with
        | none =>
            obtain ⟨isSame, isFull⟩ := blockBitmapAlloc_none isAlloc
            cases isRest
            rw [isSame]
            exact ⟨isFull, fun _ => ⟨rfl, rfl⟩⟩
        | some lba =>
            obtain ⟨bit, found, _, _⟩ := blockBitmapAlloc_some isAlloc
            have positive := Volume.freeBlocks_pos_iff.mpr ⟨bit, found⟩
            obtain ⟨_, _, isRest⟩ := Option.bind_eq_some_iff.mp isRest
            obtain ⟨⟨part₂, inode₂, blocks₂, done₂⟩, isBlocks, isRest⟩ := Option.bind_eq_some_iff.mp isRest
            cases done₂ with
            | true => cases isRest
            | false =>
                cases isRest
                exact ⟨(allocBlocks_leaves isBlocks).full, fun isFull => by omega⟩
      · obtain ⟨_, _, isRest⟩ := Option.bind_eq_some_iff.mp isRun
        obtain ⟨⟨part₂, inode₂, blocks₂, done₂⟩, isBlocks, isRest⟩ := Option.bind_eq_some_iff.mp isRest
        cases done₂ with
        | true => cases isRest
        | false =>
            cases isRest
            exact allocBlocks_leaves isBlocks

theorem allocFirst_free (isRun : allocFirst blockBitmapAlloc part inode = some (part', inode', done)) :
    (done = false → part' = part ∧ inode' = inode ∧ part.freeBlocks = 0) ∧
      (done = true → part.freeBlocks = 0 → part' = part ∧ inode' = inode) := by
  unfold allocFirst at isRun
  split at isRun
  · obtain ⟨⟨part₁, allocated⟩, isAlloc, isRest⟩ := Option.bind_eq_some_iff.mp isRun
    cases allocated with
    | none =>
        obtain ⟨isSame, isFull⟩ := blockBitmapAlloc_none isAlloc
        cases isRest
        refine ⟨fun _ => ⟨isSame, rfl, isFull⟩, fun isTrue => ?_⟩
        cases isTrue
    | some lba =>
        obtain ⟨bit, found, _, _⟩ := blockBitmapAlloc_some isAlloc
        have positive := Volume.freeBlocks_pos_iff.mpr ⟨bit, found⟩
        obtain ⟨_, _, isPair⟩ := Option.bind_eq_some_iff.mp isRest
        cases isPair
        refine ⟨fun isFalse => ?_, fun _ isFull => ?_⟩
        · cases isFalse
        · omega
  · cases isRun
    refine ⟨fun isFalse => ?_, fun _ _ => ⟨rfl, rfl⟩⟩
    cases isFalse

/-- `file_write` with -1 changes nothing exactly when no block was free. -/
theorem writeData_restores_iff
    (isRun : writeData blockBitmapAlloc part file buf count = some (part', file', none)) :
    part' = part ∧ file' = file ↔ part.freeBlocks = 0 := by
  unfold writeData at isRun
  obtain ⟨⟨part₁, inode₁, done₁⟩, isFirst, isRest⟩ := Option.bind_eq_some_iff.mp isRun
  obtain ⟨notDone, isDone⟩ := allocFirst_free isFirst
  cases done₁ with
  | false =>
      obtain ⟨samePart, sameInode, isFull⟩ := notDone rfl
      cases isRest
      rw [samePart, sameInode]
      exact iff_of_true ⟨rfl, rfl⟩ isFull
  | true =>
      obtain ⟨_, _, isRest⟩ := Option.bind_eq_some_iff.mp isRest
      obtain ⟨⟨part₂, inode₂, blocks, done₂⟩, isBlocks, isRest⟩ := Option.bind_eq_some_iff.mp isRest
      cases done₂ with
      | true =>
          obtain ⟨⟨part₃, file₃⟩, _, isRest⟩ := Option.bind_eq_some_iff.mp isRest
          obtain ⟨part₄, _, isRest⟩ := Option.bind_eq_some_iff.mp isRest
          cases isRest
      | false =>
          have leaves := writeBlocks_leaves isBlocks
          cases isRest
          constructor
          · rintro ⟨samePart, _⟩
            rw [← samePart]
            exact leaves.full
          · intro isFull
            obtain ⟨isPart₁, isInode₁⟩ := isDone rfl isFull
            rw [isPart₁] at leaves
            obtain ⟨samePart, sameInode⟩ := leaves.same isFull
            rw [samePart, sameInode, isInode₁]
            exact ⟨rfl, rfl⟩

/-! ### What is left: `sync_dir_entry` -/

/-- The volume on whose disk the bit of a block is set, but not in memory. -/
def syncedOnly (part : Volume) (bit : Nat) : Volume :=
  { part with disk := ((part.setBlockBit bit true).bitmapSync bit .block).disk }

/-- What `sync_dir_entry` leaves when it returns `false`: nothing is changed, or the
block for a table was allocated and is given back in memory. -/
inductive EntryFailed (part : Volume) (inode : InodeTable.Inode) (part' : Volume)
    (inode' : InodeTable.Inode) : Prop where
  | unchanged (isFull : part.freeBlocks = 0) (samePart : part' = part) (sameInode : inode' = inode)
  | table (bit : Nat) (found : firstClear part.blockBitmap = some bit) (one : part.freeBlocks = 1)
      (isPart : part' = syncedOnly part bit) (isInode : inode' = setSector inode 12 0)

theorem setBlockBit_undo (found : firstClear part.blockBitmap = some bit) :
    ((part.setBlockBit bit true).bitmapSync bit .block).setBlockBit bit false = syncedOnly part bit := by
  have undone : bitmapSet (bitmapSet part.blockBitmap bit true) bit false = part.blockBitmap :=
    bitmapSet_undo found
  unfold syncedOnly Volume.setBlockBit Volume.bitmapSync
  dsimp only
  rw [undone]

theorem setSector_idem (inode : InodeTable.Inode) (idx lba lba' : Nat) :
    setSector (setSector inode idx lba) idx lba' = setSector inode idx lba' := by
  unfold setSector
  dsimp only
  rw [Function.update_idem]

theorem addBlock_failed {blockIdx : Nat} (wellFormed : part.WellFormed)
    (isRun : addBlock blockBitmapAlloc part inode blocks blockIdx = some (part', inode', none)) :
    EntryFailed part inode part' inode' := by
  unfold addBlock at isRun
  obtain ⟨⟨part₁, first⟩, isFirst, isRest⟩ := Option.bind_eq_some_iff.mp isRun
  cases first with
  | none =>
      obtain ⟨isSame, isFull⟩ := blockBitmapAlloc_none isFirst
      cases isRest
      exact .unchanged isFull isSame rfl
  | some lba =>
      obtain ⟨bit, found, isPart₁, isLba⟩ := blockBitmapAlloc_some isFirst
      rw [isPart₁, isLba] at isRest
      dsimp only at isRest
      rw [allocated_bit] at isRest
      split at isRest
      · cases isRest
      · split at isRest
        · obtain ⟨⟨part₂, second⟩, isSecond, isRest⟩ := Option.bind_eq_some_iff.mp isRest
          cases second with
          | none =>
              obtain ⟨isPart₂, isFull⟩ := blockBitmapAlloc_none isSecond
              have taken := Volume.freeBlocks_take found
              have one : part.freeBlocks = 1 := by
                rw [← taken]
                exact congrArg (· + 1) isFull
              obtain ⟨small, _⟩ := sector_of_firstClear wellFormed found
              have isTable : sectorOf (setSector inode 12 (part.dataStartLba + bit)) 12 =
                  part.dataStartLba + bit := by
                rw [sectorOf_setSector inode (by decide) (by decide) small, if_pos rfl]
              have isBit : part.dataStartLba + bit -
                  ((part.setBlockBit bit true).bitmapSync bit .block).dataStartLba = bit :=
                Nat.add_sub_cancel_left _ _
              rw [isPart₂] at isRest
              dsimp only at isRest
              rw [isTable, isBit, setBlockBit_undo found, setSector_idem] at isRest
              cases isRest
              exact .table bit found one rfl rfl
          | some lba' => cases isRest
        · cases isRest

theorem syncLoop_failed {pDe : DirEntry} {idxs : List Nat} (wellFormed : part.WellFormed) (mem : 12 ∈ idxs)
    (isZero : blocks.getD 12 0 = 0)
    (isRun : syncLoop blockBitmapAlloc part inode pDe blocks idxs = some (part', inode', false)) :
    EntryFailed part inode part' inode' := by
  induction idxs with
  | nil => cases mem
  | cons blockIdx rest inductionHypothesis =>
      unfold syncLoop at isRun
      dsimp only at isRun
      split at isRun
      · obtain ⟨⟨part₁, inode₁, added⟩, isAdded, isRest⟩ := Option.bind_eq_some_iff.mp isRun
        cases added with
        | none =>
            have failed := addBlock_failed wellFormed isAdded
            cases isRest
            exact failed
        | some blockLba => cases isRest
      · rename_i notZero
        split at isRun
        · cases isRun
        · apply inductionHypothesis _ isRun
          rcases List.mem_cons.mp mem with isHead | mem
          · rw [← isHead] at notZero
            exact absurd isZero notZero
          · exact mem

theorem syncDirEntry_failed {pDe : DirEntry} (wellFormed : part.WellFormed)
    (isRun : syncDirEntry blockBitmapAlloc part inode pDe = some (part', inode', false)) :
    EntryFailed part inode part' inode' := by
  unfold syncDirEntry at isRun
  split at isRun
  · exact syncLoop_failed wellFormed (List.mem_range.mpr (by decide)) (syncBlocks_twelve inode) isRun
  · cases isRun

/-- What is asked of the disk and of the directory when there is a block for a table but
none for the entry: the bit of the block is set on the disk before, and the directory has
no table. -/
def TableUndone (part : Volume) (inode : InodeTable.Inode) : Prop :=
  sectorOf inode 12 = 0 ∧ ∀ bit, firstClear part.blockBitmap = some bit → (syncedOnly part bit).disk = part.disk

theorem setSector_zero_iff : setSector inode 12 0 = inode ↔ sectorOf inode 12 = 0 := by
  constructor
  · intro same
    rw [← same, sectorOf_setSector inode (by decide) (by decide) (by decide), if_pos rfl]
  · intro isZero
    have isWord : inode.iSectors (sectorIdx 12) = 0 := UInt32.toNat_inj.mp isZero
    have same : Function.update inode.iSectors (sectorIdx 12) (UInt32.ofNat 0) = inode.iSectors := by
      rw [Function.update_eq_self_iff, isWord]
      rfl
    unfold setSector
    rw [same]

/-- `sync_dir_entry` with `false` changes nothing exactly when no block was free, or the
block of the table is undone. -/
theorem EntryFailed.restores_iff (failed : EntryFailed part inode part' inode') :
    part' = part ∧ inode' = inode ↔ part.freeBlocks = 0 ∨ TableUndone part inode := by
  cases failed with
  | unchanged isFull samePart sameInode => exact iff_of_true ⟨samePart, sameInode⟩ (.inl isFull)
  | table bit found one isPart isInode =>
      rw [isPart, isInode, setSector_zero_iff]
      constructor
      · rintro ⟨samePart, noTable⟩
        refine .inr ⟨noTable, fun other isOther => ?_⟩
        cases found.symm.trans isOther
        exact congrArg Volume.disk samePart
      · rintro (isFull | ⟨noTable, synced⟩)
        · omega
        · refine ⟨?_, noTable⟩
          have sameDisk := synced bit found
          unfold syncedOnly at sameDisk ⊢
          dsimp only at sameDisk
          rw [sameDisk]

/-- A failed insertion frees nothing that was taken before. -/
theorem EntryFailed.sameFree (failed : EntryFailed part inode part' inode') :
    part'.freeBlocks = part.freeBlocks := by
  cases failed with
  | unchanged isFull samePart sameInode => rw [samePart]
  | table bit found one isPart isInode =>
      rw [isPart]
      rfl

end ZyOs.Fs.DiskFull
