import ZyOs.Fs.Directory

/-!
Contract: the data of a regular file: `file_write` and `file_read`, from the point
where their two buffers are allocated.

Owns:
- the cases in which the writer and the reader each fill `all_blocks`;
- the loops over the sectors.

`sys_malloc` gives zeroed memory, so a word of `all_blocks` that is not filled is
zero. An inner `none` is the result -1. An outer `none` is a failed `ASSERT`, or an
index behind the end of `i_sectors` or `all_blocks`.
-/

namespace ZyOs.Fs

open ZyOs.Kernel
open InodeTable (Inode)

/-- `struct file` with the inode that it points to. -/
structure OpenFile where
  fdPos : UInt32
  inode : Inode

/-- `BLOCK_SIZE`. -/
def blockSize : Nat := 512

/-! ### `file_write` -/

/-- The first block of a file that was not written before. -/
def allocFirst (part : Volume) (inode : Inode) : Option (Volume × Inode × Bool) :=
  if sectorOf inode 0 = 0 then do
    let (part, blockLba) ← part.blockBitmapAlloc
    match blockLba with
    | none => return (part, inode, false)
    | some blockLba =>
        let blockBitmapIdx := blockLba - part.dataStartLba
        guard (blockBitmapIdx ≠ 0)
        return (part.bitmapSync blockBitmapIdx .block, setSector inode 0 blockLba, true)
  else
    some (part, inode, true)

/-- The loops that allocate the blocks from `file_has_used_blocks` on: a direct
block goes into the inode and `all_blocks`, another one into `all_blocks`. -/
def allocBlocks (part : Volume) (inode : Inode) (allBlocks : List Nat) :
    List Nat → Option (Volume × Inode × List Nat × Bool)
  | [] => some (part, inode, allBlocks, true)
  | blockIdx :: rest => do
      let (part, blockLba) ← part.blockBitmapAlloc
      match blockLba with
      | none => return (part, inode, allBlocks, false)
      | some blockLba =>
          let synced := part.bitmapSync (blockLba - part.dataStartLba) .block
          if blockIdx < 12 then
            guard (sectorOf inode blockIdx = 0)
            allocBlocks synced (setSector inode blockIdx blockLba) (allBlocks.set blockIdx blockLba) rest
          else
            allocBlocks synced inode (allBlocks.set blockIdx blockLba) rest

/-- `all_blocks` with the table of the inode behind the direct blocks. -/
def readTable (part : Volume) (inode : Inode) (allBlocks : List Nat) : List Nat :=
  allBlocks.take 12 ++
    (List.range 128).map fun i => word (ideRead part.disk (sectorOf inode 12) 1) (4 * i)

/-- `all_blocks` before it is filled. -/
def noBlocks : List Nat := List.replicate 140 0

/-- `all_blocks[idx] = i_sectors[idx]`. -/
def collect (inode : Inode) (allBlocks : List Nat) (idx : Nat) : List Nat :=
  allBlocks.set idx (sectorOf inode idx)

/-- How `file_write` fills `all_blocks`, with the blocks that it allocates. -/
def writeBlocks (part : Volume) (inode : Inode) (hasUsed willUse : Nat) :
    Option (Volume × Inode × List Nat × Bool) := do
  let added := List.range' hasUsed (willUse - hasUsed)
  if willUse = hasUsed then
    if hasUsed ≤ 12 then
      return (part, inode, collect inode noBlocks (hasUsed - 1), true)
    else
      guard (sectorOf inode 12 ≠ 0)
      return (part, inode, readTable part inode noBlocks, true)
  else if willUse ≤ 12 then
    guard (hasUsed ≤ 13)
    guard (sectorOf inode (hasUsed - 1) ≠ 0)
    allocBlocks part inode (collect inode noBlocks (hasUsed - 1)) added
  else if hasUsed ≤ 12 then
    let allBlocks := collect inode noBlocks (hasUsed - 1)
    let (part, blockLba) ← part.blockBitmapAlloc
    match blockLba with
    | none => return (part, inode, allBlocks, false)
    | some blockLba =>
        guard (sectorOf inode 12 = 0)
        let (part, inode, allBlocks, done) ← allocBlocks part (setSector inode 12 blockLba) allBlocks added
        if done then
          return (part.ideWrite blockLba (tableBuf allBlocks), inode, allBlocks, true)
        else
          return (part, inode, allBlocks, false)
  else
    guard (sectorOf inode 12 ≠ 0)
    let (part, inode, allBlocks, done) ← allocBlocks part inode (readTable part inode noBlocks) added
    if done then
      return (part.ideWrite (sectorOf inode 12) (tableBuf allBlocks), inode, allBlocks, true)
    else
      return (part, inode, allBlocks, false)

/-- The loop of `file_write` over the sectors, for `fuel` passes at most; a pass
writes a byte at least. -/
def writeLoop : Nat → Volume → OpenFile → (allBlocks : List Nat) → (firstWriteBlock : Bool) →
    (src : Buf) → (sizeLeft : Nat) → Option (Volume × OpenFile)
  | 0, part, file, _, _, _, sizeLeft => if sizeLeft = 0 then some (part, file) else none
  | fuel + 1, part, file, allBlocks, firstWriteBlock, src, sizeLeft =>
      if sizeLeft = 0 then
        some (part, file)
      else do
        let secIdx := file.inode.iSize.toNat / blockSize
        guard (secIdx < 140)
        let secLba := allBlocks.getD secIdx 0
        let secOffBytes := file.inode.iSize.toNat % blockSize
        let secLeftBytes := blockSize - secOffBytes
        let chunkSize := if sizeLeft < secLeftBytes then sizeLeft else secLeftBytes
        let ioBuf := if firstWriteBlock then ideRead part.disk secLba 1 else fun _ => 0
        let part := part.ideWrite secLba (memcpy ioBuf secOffBytes src chunkSize)
        let inode := { file.inode with iSize := file.inode.iSize + UInt32.ofNat chunkSize }
        writeLoop fuel part ⟨file.fdPos + UInt32.ofNat chunkSize, inode⟩ allBlocks false
          (fun i => src (chunkSize + i)) (sizeLeft - chunkSize)

/-- `file_write`, after its buffers are allocated. -/
def writeData (part : Volume) (file : OpenFile) (buf : Buf) (count : UInt32) :
    Option (Volume × OpenFile × Option UInt32) := do
  let (part, inode, done) ← allocFirst part file.inode
  if done = false then
    return (part, { file with inode := inode }, none)
  else
    let hasUsed := inode.iSize.toNat / blockSize + 1
    let willUse := (inode.iSize + count).toNat / blockSize + 1
    guard (willUse ≤ 140)
    let (part, inode, allBlocks, done) ← writeBlocks part inode hasUsed willUse
    if done = false then
      return (part, { file with inode := inode }, none)
    else
      let (part, file) ← writeLoop count.toNat part ⟨inode.iSize - 1, inode⟩ allBlocks true buf count.toNat
      let part ← part.inodeSync file.inode
      return (part, file, some count)

/-- The largest file: `BLOCK_SIZE * 140`. -/
def maxFileSize : UInt32 := 71680

/-- `file_write`. -/
def fileWrite (part : Volume) (file : OpenFile) (buf : Buf) (count : UInt32) :
    Option (Volume × OpenFile × Option UInt32) :=
  if file.inode.iSize + count > maxFileSize then
    some (part, file, none)
  else
    writeData part file buf count

/-! ### `file_read` -/

/-- `size`: as much of `count` as the file has. -/
def readSize (file : OpenFile) (count : UInt32) : UInt32 :=
  if file.fdPos + count > file.inode.iSize then file.inode.iSize - file.fdPos else count

/-- How `file_read` fills `all_blocks`. -/
def readBlockTable (part : Volume) (inode : Inode) (startIdx endIdx : Nat) : Option (List Nat) := do
  let direct := fun stop => (List.range' startIdx (stop - startIdx)).foldl (collect inode) noBlocks
  if startIdx = endIdx then
    if endIdx < 12 then
      return collect inode noBlocks endIdx
    else
      return readTable part inode noBlocks
  else if endIdx < 12 then
    return direct (endIdx + 1)
  else if startIdx < 12 then
    guard (sectorOf inode 12 ≠ 0)
    return readTable part inode (direct 12)
  else
    guard (sectorOf inode 12 ≠ 0)
    return readTable part inode noBlocks

/-- The loop of `file_read` over the sectors, for `fuel` passes at most; the bytes
are those that are copied to the buffer. -/
def readLoop : Nat → Volume → OpenFile → (allBlocks : List Nat) → (sizeLeft : Nat) →
    Option (OpenFile × List UInt8)
  | 0, _, file, _, sizeLeft => if sizeLeft = 0 then some (file, []) else none
  | fuel + 1, part, file, allBlocks, sizeLeft =>
      if sizeLeft = 0 then
        some (file, [])
      else do
        let secIdx := file.fdPos.toNat / blockSize
        guard (secIdx < 140)
        let secLba := allBlocks.getD secIdx 0
        let secOffBytes := file.fdPos.toNat % blockSize
        let secLeftBytes := blockSize - secOffBytes
        let chunkSize := if sizeLeft < secLeftBytes then sizeLeft else secLeftBytes
        let ioBuf := ideRead part.disk secLba 1
        let file := { file with fdPos := file.fdPos + UInt32.ofNat chunkSize }
        let (file, bytes) ← readLoop fuel part file allBlocks (sizeLeft - chunkSize)
        return (file, (List.range chunkSize).map (fun i => ioBuf (secOffBytes + i)) ++ bytes)

/-- `file_read`, after its buffers are allocated, of `size` bytes. -/
def readData (part : Volume) (file : OpenFile) (size : UInt32) : Option (OpenFile × List UInt8) := do
  let startIdx := file.fdPos.toNat / blockSize
  let endIdx := (file.fdPos + size).toNat / blockSize
  guard (startIdx < 139 ∧ endIdx < 139)
  let allBlocks ← readBlockTable part file.inode startIdx endIdx
  readLoop size.toNat part file allBlocks size.toNat

/-- The end of the file: `file_read` returns -1. -/
def atEnd (file : OpenFile) (count : UInt32) : Bool :=
  file.fdPos + count > file.inode.iSize && file.inode.iSize - file.fdPos == 0

/-- `file_read`: the bytes that it puts into the buffer; their number is what it
returns. -/
def fileRead (part : Volume) (file : OpenFile) (count : UInt32) :
    Option (OpenFile × Option (List UInt8)) :=
  if atEnd file count then
    some (file, none)
  else do
    let (file, bytes) ← readData part file (readSize file count)
    return (file, some bytes)

/-! ### No -1 for want of a block

`bitmap_scan` fails when no bit is clear, so the branches for a result -1 of
`block_bitmap_alloc` are not reached. -/

variable {part part' : Volume} {inode inode' : Inode} {done : Bool}

theorem allocFirst_done (isRun : allocFirst part inode = some (part', inode', done)) : done = true := by
  unfold allocFirst at isRun
  split at isRun
  · obtain ⟨⟨part₁, allocated⟩, isAlloc, isRest⟩ := Option.bind_eq_some_iff.mp isRun
    obtain ⟨bit, _, _, rfl⟩ := Volume.blockBitmapAlloc_eq_some isAlloc
    obtain ⟨_, _, isPair⟩ := Option.bind_eq_some_iff.mp isRest
    cases isPair
    rfl
  · cases isRun
    rfl

theorem allocBlocks_done {allBlocks allBlocks' idxs : List Nat}
    (isRun : allocBlocks part inode allBlocks idxs = some (part', inode', allBlocks', done)) :
    done = true := by
  induction idxs generalizing part inode allBlocks with
  | nil =>
      cases isRun
      rfl
  | cons blockIdx rest inductionHypothesis =>
      unfold allocBlocks at isRun
      obtain ⟨⟨part₁, allocated⟩, isAlloc, isRest⟩ := Option.bind_eq_some_iff.mp isRun
      obtain ⟨bit, _, _, rfl⟩ := Volume.blockBitmapAlloc_eq_some isAlloc
      dsimp only at isRest
      split at isRest
      · obtain ⟨_, _, isRest⟩ := Option.bind_eq_some_iff.mp isRest
        exact inductionHypothesis isRest
      · exact inductionHypothesis isRest

theorem writeBlocks_done {hasUsed willUse : Nat} {allBlocks : List Nat}
    (isRun : writeBlocks part inode hasUsed willUse = some (part', inode', allBlocks, done)) :
    done = true := by
  unfold writeBlocks at isRun
  dsimp only at isRun
  split at isRun
  · split at isRun
    · cases isRun
      rfl
    · obtain ⟨_, _, isRest⟩ := Option.bind_eq_some_iff.mp isRun
      cases isRest
      rfl
  · split at isRun
    · obtain ⟨_, _, isRest⟩ := Option.bind_eq_some_iff.mp isRun
      obtain ⟨_, _, isRest⟩ := Option.bind_eq_some_iff.mp isRest
      exact allocBlocks_done isRest
    · split at isRun
      · obtain ⟨⟨part₁, allocated⟩, isAlloc, isRest⟩ := Option.bind_eq_some_iff.mp isRun
        obtain ⟨bit, _, _, rfl⟩ := Volume.blockBitmapAlloc_eq_some isAlloc
        obtain ⟨_, _, isRest⟩ := Option.bind_eq_some_iff.mp isRest
        obtain ⟨⟨part₂, inode₂, blocks, done₂⟩, isBlocks, isRest⟩ := Option.bind_eq_some_iff.mp isRest
        rw [allocBlocks_done isBlocks] at isRest
        cases isRest
        rfl
      · obtain ⟨_, _, isRest⟩ := Option.bind_eq_some_iff.mp isRun
        obtain ⟨⟨part₂, inode₂, blocks, done₂⟩, isBlocks, isRest⟩ := Option.bind_eq_some_iff.mp isRest
        rw [allocBlocks_done isBlocks] at isRest
        cases isRest
        rfl

/-- `file_write` writes all that it is asked to, once its buffers are allocated. -/
theorem writeData_written {file file' : OpenFile} {buf : Buf} {count : UInt32} {written : Option UInt32}
    (isRun : writeData part file buf count = some (part', file', written)) : written = some count := by
  unfold writeData at isRun
  obtain ⟨⟨part₁, inode₁, done₁⟩, isFirst, isRest⟩ := Option.bind_eq_some_iff.mp isRun
  rw [allocFirst_done isFirst] at isRest
  simp only [Bool.true_eq_false, if_false] at isRest
  obtain ⟨_, _, isRest⟩ := Option.bind_eq_some_iff.mp isRest
  obtain ⟨⟨part₂, inode₂, blocks, done₂⟩, isBlocks, isRest⟩ := Option.bind_eq_some_iff.mp isRest
  rw [writeBlocks_done isBlocks] at isRest
  simp only [Bool.true_eq_false, if_false] at isRest
  obtain ⟨⟨part₃, file₃⟩, _, isRest⟩ := Option.bind_eq_some_iff.mp isRest
  obtain ⟨part₄, _, isRest⟩ := Option.bind_eq_some_iff.mp isRest
  cases isRest
  rfl

end ZyOs.Fs
