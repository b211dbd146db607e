import ZyOs.Device.PartitionScan
import ZyOs.Fs.PathSearch
import ZyOs.Kernel.BitmapScan

/-!
Contract: a new file system: `partition_format` writes the super block, the two
bitmaps, the inode table and the root directory, and `mount_partition` reads the
super block and the bitmaps back.

Owns:
- the size of the block bitmap, computed in two rounding steps, and its tail;
- `block_bitmap_alloc` on the mounted partition.

The loop that clears the tail runs for `block_bitmap_last_bit + 1` bits, so one
bit more than `block_bitmap_bit_len` is clear. Whether that bit stands for a
sector of the partition depends on the second rounding step.

`partition_format` yields `none` where an `ASSERT` of `ide_write` or of
`malloc_page` fails, and where the `memset` of the tail leaves the pages of
`buf`: what lies behind them is not mapped or another block's.

Does not own: the contents of files. The kernel has the pages for `buf`, which
`sys_malloc` gives zeroed. Sector numbers stay below `2 ^ 32`; only
`DIV_ROUND_UP` can overflow.
-/

namespace ZyOs.Fs.Format

open Device (maxLba)
open Kernel (Bitmap bitmapScan bitmapScanTest bitmapSet)

/-- `start_lba` and `sec_cnt` of a `struct partition`. -/
structure RawPartition where
  startLba : Nat
  secCnt : Nat
  secCnt_lt : secCnt < 2 ^ 32
  fits : startLba + secCnt ≤ 2 ^ 32

/-- `struct super_block`, without the padding. -/
@[ext]
structure SuperBlock where
  magic : Nat
  secCnt : Nat
  inodeCnt : Nat
  partLbaBase : Nat
  blockBitmapLba : Nat
  blockBitmapSects : Nat
  inodeBitmapLba : Nat
  inodeBitmapSects : Nat
  inodeTableLba : Nat
  inodeTableSects : Nat
  dataStartLba : Nat
  rootInodeNo : Nat
  dirEntrySize : Nat

def SuperBlock.words (sb : SuperBlock) (idx : Nat) : Nat :=
  match idx with
  | 0 => sb.magic
  | 1 => sb.secCnt
  | 2 => sb.inodeCnt
  | 3 => sb.partLbaBase
  | 4 => sb.blockBitmapLba
  | 5 => sb.blockBitmapSects
  | 6 => sb.inodeBitmapLba
  | 7 => sb.inodeBitmapSects
  | 8 => sb.inodeTableLba
  | 9 => sb.inodeTableSects
  | 10 => sb.dataStartLba
  | 11 => sb.rootInodeNo
  | 12 => sb.dirEntrySize
  | _ => 0

/-- The 512 bytes of a super block; nothing sets `pad`. -/
def SuperBlock.bytes (sb : SuperBlock) (pad : Buf) : Buf := fun i =>
  if i < 52 then wordsBuf sb.words i else pad i

def SuperBlock.ofBytes (buf : Buf) : SuperBlock where
  magic := word buf 0
  secCnt := word buf 4
  inodeCnt := word buf 8
  partLbaBase := word buf 12
  blockBitmapLba := word buf 16
  blockBitmapSects := word buf 20
  inodeBitmapLba := word buf 24
  inodeBitmapSects := word buf 28
  inodeTableLba := word buf 32
  inodeTableSects := word buf 36
  dataStartLba := word buf 40
  rootInodeNo := word buf 44
  dirEntrySize := word buf 48

/-! ### Formatting -/

def maxFilesPerPart : Nat := 4096

def bitsPerSector : Nat := 4096

/-- `DIV_ROUND_UP` of a `uint32_t`. -/
def divRoundUp (x step : Nat) : Nat := (x + step - 1) % 2 ^ 32 / step

def inodeBitmapSects : Nat := divRoundUp maxFilesPerPart bitsPerSector

def inodeTableSects : Nat := divRoundUp (inodeSize * maxFilesPerPart) sectorSize

/-- `free_sects`: what the boot sector, the super block, the inode bitmap and the
inode table leave. -/
def freeSects (secCnt : Nat) : Nat := secCnt - (1 + 1 + inodeBitmapSects + inodeTableSects)

def blockBitmapBitLen (secCnt : Nat) : Nat :=
  freeSects secCnt - divRoundUp (freeSects secCnt) bitsPerSector

def blockBitmapSects (secCnt : Nat) : Nat := divRoundUp (blockBitmapBitLen secCnt) bitsPerSector

/-- The super block that `partition_format` fills in. -/
def superBlock (part : RawPartition) : SuperBlock :=
  let blockBitmapLba := part.startLba + 2
  let inodeBitmapLba := blockBitmapLba + blockBitmapSects part.secCnt
  let inodeTableLba := inodeBitmapLba + inodeBitmapSects
  { magic := 0x19590318
    secCnt := part.secCnt
    inodeCnt := maxFilesPerPart
    partLbaBase := part.startLba
    blockBitmapLba := blockBitmapLba
    blockBitmapSects := blockBitmapSects part.secCnt
    inodeBitmapLba := inodeBitmapLba
    inodeBitmapSects := inodeBitmapSects
    inodeTableLba := inodeTableLba
    inodeTableSects := inodeTableSects
    dataStartLba := inodeTableLba + inodeTableSects
    rootInodeNo := 0
    dirEntrySize := Fs.dirEntrySize }

/-- The loop that clears bits `0 .. lastBit` of a byte. -/
def clearBits (lastBit : Nat) (byte : UInt8) : UInt8 :=
  (List.range (lastBit + 1)).foldl
    (fun byte bitIdx => byte &&& ~~~((1 : UInt8) <<< UInt8.ofNat bitIdx)) byte

/-- `buf_size` of `partition_format`. -/
def formatBufSize (sb : SuperBlock) : Nat :=
  let sects := if sb.blockBitmapSects ≥ sb.inodeBitmapSects then sb.blockBitmapSects
    else sb.inodeBitmapSects
  (if sects ≥ sb.inodeTableSects then sects else sb.inodeTableSects) * sectorSize % 2 ^ 32

/-- The bytes behind the `struct arena` of 12 bytes in the pages that `sys_malloc`
takes for more than 1024 bytes; `malloc_page` stops at 3840 pages. -/
def mallocRoom (size : Nat) : Option Nat :=
  let pageCnt := divRoundUp (size + 12) 4096
  if 0 < pageCnt ∧ pageCnt < 3840 then some (pageCnt * 4096 - 12) else none

/-- Where the `memset` of the tail ends: at the end of the sector of the bitmap
that bit `bitLen` lies in. -/
def tailEnd (bitLen : Nat) : Nat := bitLen / 8 + (sectorSize - bitLen / 8 % sectorSize)

/-- The buffer of `room` bytes that is written as the block bitmap. -/
def blockBitmapBuf (bitLen room : Nat) : Option Buf :=
  let buf : Buf := Function.update (fun _ => 0) 0 1
  let lastByte := bitLen / 8
  let lastBit := bitLen % 8
  let lastSize := sectorSize - lastByte % sectorSize
  if lastByte + lastSize ≤ room then
    let buf := memset buf lastByte 0xff lastSize
    some (Function.update buf lastByte (clearBits lastBit (buf lastByte)))
  else
    none

/-- The inode bitmap: inode 0 belongs to the root directory. -/
def inodeBitmapBuf : Buf := Function.update (fun _ => 0) 0 1

/-- The inode table: inode 0 has the two entries of the root directory. -/
def inodeTableBuf (sb : SuperBlock) : Buf := wordsBuf fun idx =>
  if idx = 1 then sb.dirEntrySize * 2 else if idx = 4 then sb.dataStartLba else 0

/-- The entries `.` and `..` of the root directory. -/
def rootDirBuf : Buf := fun i =>
  if i = 0 ∨ i = 24 ∨ i = 25 then dot else if i = 20 ∨ i = 44 then 2 else 0

/-- `ide_write`: its own `ASSERT`s, and that of `select_sector` for the first sector
of each 256. -/
def diskWrite (disk : Disk) (lba : Nat) (buf : Buf) (secCnt : Nat) : Option Disk :=
  if lba ≤ maxLba ∧ secCnt > 0 ∧ lba + (secCnt - 1) / 256 * 256 ≤ maxLba then
    some (ideWrite disk lba buf secCnt)
  else
    none

/-- `partition_format`. -/
def partitionFormat (part : RawPartition) (pad : Buf) (disk : Disk) : Option Disk := do
  let sb := superBlock part
  let disk ← diskWrite disk (part.startLba + 1) (sb.bytes pad) 1
  let room ← mallocRoom (formatBufSize sb)
  let buf ← blockBitmapBuf (blockBitmapBitLen part.secCnt) room
  let disk ← diskWrite disk sb.blockBitmapLba buf sb.blockBitmapSects
  let disk ← diskWrite disk sb.inodeBitmapLba inodeBitmapBuf sb.inodeBitmapSects
  let disk ← diskWrite disk sb.inodeTableLba (inodeTableBuf sb) sb.inodeTableSects
  diskWrite disk sb.dataStartLba rootDirBuf 1

/-! ### Mounting -/

/-- What `mount_partition` adds to a partition. -/
structure Mounted where
  sb : SuperBlock
  blockBitmap : Bitmap
  inodeBitmap : Bitmap

/-- A bitmap that is read from the disk. -/
def bitmapRead (disk : Disk) (lba sects : Nat) : Bitmap where
  btmpBytesLen := sects * sectorSize
  bits := fun i => (ideRead disk lba sects i).toBitVec

/-- `mount_partition`. -/
def mountPartition (part : RawPartition) (disk : Disk) : Mounted :=
  let sb := SuperBlock.ofBytes (ideRead disk (part.startLba + 1) 1)
  { sb := sb
    blockBitmap := bitmapRead disk sb.blockBitmapLba sb.blockBitmapSects
    inodeBitmap := bitmapRead disk sb.inodeBitmapLba sb.inodeBitmapSects }

/-- `block_bitmap_alloc`; `none` is a failed `ASSERT` in `bitmap_scan`. -/
def blockBitmapAlloc (m : Mounted) : Option (Mounted × Int) := do
  let bitIdx ← bitmapScan m.blockBitmap 1
  if bitIdx = -1 then
    return (m, -1)
  else
    return ({ m with blockBitmap := bitmapSet m.blockBitmap bitIdx.toNat true },
      m.sb.dataStartLba + bitIdx)

/-- A block is given back, as `inode_release` and `file_write` do. -/
def blockFree (m : Mounted) (lba : Int) : Mounted :=
  { m with blockBitmap := bitmapSet m.blockBitmap (lba - m.sb.dataStartLba).toNat false }

/-- Allocations on a mounted partition, with what `block_bitmap_alloc` has
returned so far. A block that is given back was returned before, or is that of
the root directory. -/
inductive AllocRun (mounted : Mounted) : Mounted → List Int → Prop where
  | start : AllocRun mounted mounted []
  | alloc {m m' : Mounted} {returned : List Int} {lba : Int} (run : AllocRun mounted m returned)
      (eq : blockBitmapAlloc m = some (m', lba)) : AllocRun mounted m' (lba :: returned)
  | free {m : Mounted} {returned : List Int} {lba : Int} (run : AllocRun mounted m returned)
      (used : lba ∈ returned ∨ lba = m.sb.dataStartLba) (block : lba ≠ -1) :
      AllocRun mounted (blockFree m lba) returned

/-! ### What a new file system promises -/

/-- The parts of a partition, each with its first sector and its size. -/
def regions (part : RawPartition) (sb : SuperBlock) : List (Nat × Nat) :=
  [(part.startLba, 1), (part.startLba + 1, 1), (sb.blockBitmapLba, sb.blockBitmapSects),
    (sb.inodeBitmapLba, sb.inodeBitmapSects), (sb.inodeTableLba, sb.inodeTableSects),
    (sb.dataStartLba, part.startLba + part.secCnt - sb.dataStartLba)]

/-- A bit that the bitmap has and that is clear, or the bit of the root directory. -/
def Represented (btmp : Bitmap) (i : Nat) : Prop :=
  i < 8 * btmp.btmpBytesLen ∧ (i = 0 ∨ bitmapScanTest btmp i = false)

/-- What a mounted partition relies on after `partition_format`. -/
structure WellFormatted (part : RawPartition) (m : Mounted) : Prop where
  /-- Each part starts where the one before it ends. -/
  consecutive : (regions part m.sb).IsChain fun first second => first.1 + first.2 = second.1
  disjoint : (regions part m.sb).Pairwise fun first second => first.1 + first.2 ≤ second.1
  inside : ∀ region ∈ regions part m.sb,
    part.startLba ≤ region.1 ∧ region.1 + region.2 ≤ part.startLba + part.secCnt
  dataSector : m.sb.dataStartLba < part.startLba + part.secCnt
  /-- The root directory has block 0. -/
  rootBit : 0 < 8 * m.blockBitmap.btmpBytesLen ∧ bitmapScanTest m.blockBitmap 0 = true
  clearInside : ∀ i < 8 * m.blockBitmap.btmpBytesLen, bitmapScanTest m.blockBitmap i = false →
    m.sb.dataStartLba + i < part.startLba + part.secCnt
  allocInside : ∀ m' returned, AllocRun m m' returned → ∀ lba ∈ returned, lba ≠ -1 →
    (m.sb.dataStartLba : Int) ≤ lba ∧ lba < (part.startLba + part.secCnt : Nat)
  /-- No two data sectors are left out of the bitmap. -/
  oneLeftOut : ∀ i j, m.sb.dataStartLba + i < part.startLba + part.secCnt →
    m.sb.dataStartLba + j < part.startLba + part.secCnt →
    ¬Represented m.blockBitmap i → ¬Represented m.blockBitmap j → i = j

/-! ### Sizes -/

theorem inodeBitmapSects_eq : inodeBitmapSects = 1 := by decide

theorem inodeTableSects_eq : inodeTableSects = 608 := by decide

theorem freeSects_eq (secCnt : Nat) : freeSects secCnt = secCnt - 611 := by
  rw [freeSects, inodeBitmapSects_eq, inodeTableSects_eq]

/-- The rounding steps, when they do not overflow. -/
theorem sizes_spec {secCnt : Nat} (large : 613 ≤ secCnt) (noOverflow : secCnt + 3484 < 2 ^ 32) :
    ∃ m bitLen sects, secCnt = 611 + bitLen + (m + 1) ∧
      4096 * m < secCnt - 611 ∧ secCnt - 611 ≤ 4096 * (m + 1) ∧
      4096 * sects < bitLen ∧ bitLen ≤ 4096 * (sects + 1) ∧
      blockBitmapBitLen secCnt = bitLen ∧ blockBitmapSects secCnt = sects + 1 := by
  have first : divRoundUp (freeSects secCnt) bitsPerSector = (secCnt - 611 + 4095) / 4096 := by
    rw [freeSects_eq, divRoundUp, bitsPerSector, Nat.mod_eq_of_lt (by omega)]
    rfl
  have bits : blockBitmapBitLen secCnt = secCnt - 611 - (secCnt - 611 + 4095) / 4096 := by
    rw [blockBitmapBitLen, first, freeSects_eq]
  have second : blockBitmapSects secCnt =
      (secCnt - 611 - (secCnt - 611 + 4095) / 4096 + 4095) / 4096 := by
    rw [blockBitmapSects, bits, divRoundUp, bitsPerSector, Nat.mod_eq_of_lt (by omega)]
    rfl
  refine ⟨(secCnt - 611 - 1) / 4096, _, (secCnt - 611 - (secCnt - 611 + 4095) / 4096 - 1) / 4096,
    ?_, ?_, ?_, ?_, ?_, bits, ?_⟩ <;> omega

/-- With an overflow the block bitmap has no sectors. -/
theorem sizes_overflow {secCnt : Nat} (upper : secCnt < 2 ^ 32)
    (overflow : 2 ^ 32 ≤ secCnt + 3484) : blockBitmapSects secCnt = 0 := by
  have free := freeSects_eq secCnt
  have first : divRoundUp (freeSects secCnt) bitsPerSector = 0 := by
    rw [free, divRoundUp, bitsPerSector]
    omega
  rw [blockBitmapSects, blockBitmapBitLen, first, free, divRoundUp, bitsPerSector]
  omega

theorem blockBitmapSects_le {secCnt : Nat} (large : 613 ≤ secCnt) (upper : secCnt < 2 ^ 32) :
    blockBitmapSects secCnt + 611 < secCnt := by
  by_cases overflow : 2 ^ 32 ≤ secCnt + 3484
  · rw [sizes_overflow upper overflow]
    omega
  · obtain ⟨m, bitLen, sects, total, _, _, low, _, _, eq⟩ := sizes_spec large (by omega)
    omega

theorem superBlock_dataStartLba (part : RawPartition) :
    (superBlock part).dataStartLba = part.startLba + 611 + blockBitmapSects part.secCnt := by
  simp only [superBlock, inodeBitmapSects_eq, inodeTableSects_eq]
  omega

/-! ### A formatting that goes through -/

/-- The tail of the block bitmap ends inside the block that `sys_malloc` gives. -/
def TailFits (sb : SuperBlock) : Prop :=
  ∃ room, mallocRoom (formatBufSize sb) = some room ∧ tailEnd (blockBitmapBitLen sb.secCnt) ≤ room

/-- The block bitmap in the buffer, its tail filled and cleared. -/
def blockBitmapBytes (bitLen : Nat) : Buf :=
  let buf := memset (Function.update (fun _ => 0) 0 1) (bitLen / 8) 0xff (sectorSize - bitLen / 8 % sectorSize)
  Function.update buf (bitLen / 8) (clearBits (bitLen % 8) (buf (bitLen / 8)))

/-- The five writes. -/
def formatDisk (part : RawPartition) (pad : Buf) (disk : Disk) : Disk :=
  let sb := superBlock part
  let disk := ideWrite disk (part.startLba + 1) (sb.bytes pad) 1
  let disk := ideWrite disk sb.blockBitmapLba (blockBitmapBytes (blockBitmapBitLen part.secCnt))
    sb.blockBitmapSects
  let disk := ideWrite disk sb.inodeBitmapLba inodeBitmapBuf sb.inodeBitmapSects
  let disk := ideWrite disk sb.inodeTableLba (inodeTableBuf sb) sb.inodeTableSects
  ideWrite disk sb.dataStartLba rootDirBuf 1

theorem blockBitmapBuf_eq_some {bitLen room : Nat} {buf : Buf} :
    blockBitmapBuf bitLen room = some buf ↔ tailEnd bitLen ≤ room ∧ buf = blockBitmapBytes bitLen := by
  unfold blockBitmapBuf tailEnd blockBitmapBytes
  dsimp only
  split
  · rename_i inside
    rw [Option.some.injEq]
    exact ⟨fun same => ⟨inside, same.symm⟩, fun same => same.2.symm⟩
  · rename_i outside
    exact ⟨fun isNone => absurd isNone (Option.some_ne_none _).symm, fun inside => absurd inside.1 outside⟩

theorem diskWrite_eq_some {disk disk' : Disk} {lba secCnt : Nat} {buf : Buf} :
    diskWrite disk lba buf secCnt = some disk' ↔
      (lba ≤ maxLba ∧ secCnt > 0 ∧ lba + (secCnt - 1) / 256 * 256 ≤ maxLba) ∧
        disk' = ideWrite disk lba buf secCnt := by
  unfold diskWrite
  split
  · rename_i inside
    rw [Option.some.injEq]
    exact ⟨fun same => ⟨inside, same.symm⟩, fun same => same.2.symm⟩
  · rename_i outside
    exact ⟨fun isNone => absurd isNone (Option.some_ne_none _).symm, fun inside => absurd inside.1 outside⟩

/-- The root directory is written last and lies behind everything else, so its
sector decides whether the `ASSERT`s of `ide_write` hold. -/
theorem partitionFormat_eq_some {part : RawPartition} {pad : Buf} {disk formatted : Disk} :
    partitionFormat part pad disk = some formatted ↔
      (0 < blockBitmapSects part.secCnt ∧ (superBlock part).dataStartLba ≤ maxLba ∧
        TailFits (superBlock part)) ∧
      formatted = formatDisk part pad disk := by
  have table : (superBlock part).inodeTableSects = 608 := inodeTableSects_eq
  have inodes : (superBlock part).inodeBitmapSects = 1 := inodeBitmapSects_eq
  have blocks : (superBlock part).blockBitmapSects = blockBitmapSects part.secCnt := rfl
  have dataLba := superBlock_dataStartLba part
  have blockLba : (superBlock part).blockBitmapLba = part.startLba + 2 := rfl
  have inodeLba : (superBlock part).inodeBitmapLba = part.startLba + 2 + blockBitmapSects part.secCnt := rfl
  have tableLba : (superBlock part).inodeTableLba =
      part.startLba + 2 + blockBitmapSects part.secCnt + inodeBitmapSects := rfl
  rw [inodeBitmapSects_eq] at tableLba
  unfold partitionFormat TailFits formatDisk
  simp only [Option.bind_eq_bind, Option.bind_eq_some_iff, diskWrite_eq_some, blockBitmapBuf_eq_some]
  constructor
  · rintro ⟨d₁, ⟨_, rfl⟩, room, isRoom, buf, ⟨fits, rfl⟩, d₂, ⟨positive, rfl⟩, d₃, ⟨_, rfl⟩, d₄, ⟨_, rfl⟩, last, rfl⟩
    exact ⟨⟨positive.2.1, last.1, room, isRoom, fits⟩, rfl⟩
  · rintro ⟨⟨positive, onDisk, room, isRoom, fits⟩, rfl⟩
    refine ⟨_, ⟨by omega, rfl⟩, room, isRoom, _, ⟨fits, rfl⟩, _, ⟨by omega, rfl⟩, _, ⟨by omega, rfl⟩, _,
      ⟨by omega, rfl⟩, by omega, rfl⟩

/-! ### Reading back -/

theorem SuperBlock.ofBytes_congr {buf buf' : Buf} (same : ∀ i < 52, buf i = buf' i) :
    SuperBlock.ofBytes buf = SuperBlock.ofBytes buf' := by
  have words : ∀ off, off + 4 ≤ 52 → word buf off = word buf' off := by
    intro off inside
    unfold word
    rw [same off (by omega), same (off + 1) (by omega), same (off + 2) (by omega),
      same (off + 3) (by omega)]
  unfold SuperBlock.ofBytes
  congr 1 <;> exact words _ (by omega)

theorem SuperBlock.ofBytes_words {sb : SuperBlock} (fits : ∀ idx, sb.words idx < 2 ^ 32) :
    SuperBlock.ofBytes (wordsBuf sb.words) = sb := by
  have words : ∀ idx, word (wordsBuf sb.words) (4 * idx) = sb.words idx := fun idx =>
    word_wordsBuf (fits idx)
  exact SuperBlock.ext (words 0) (words 1) (words 2) (words 3) (words 4) (words 5) (words 6)
    (words 7) (words 8) (words 9) (words 10) (words 11) (words 12)

section Formatted

variable {part : RawPartition} (pad : Buf) (disk : Disk)

theorem superBlock_words_lt (large : 613 ≤ part.secCnt) (idx : Nat) :
    (superBlock part).words idx < 2 ^ 32 := by
  have sects := blockBitmapSects_le large part.secCnt_lt
  have fits := part.fits
  have upper := part.secCnt_lt
  unfold SuperBlock.words
  split
  case h_14 => decide
  all_goals
    simp only [superBlock, inodeBitmapSects_eq, inodeTableSects_eq, maxFilesPerPart, dirEntrySize]
    omega

/-- The super block is in its sector after formatting. -/
theorem format_superBlock (large : 613 ≤ part.secCnt) :
    (mountPartition part (formatDisk part pad disk)).sb = superBlock part := by
  have kept : formatDisk part pad disk (part.startLba + 1) =
      ideWrite disk (part.startLba + 1) ((superBlock part).bytes pad) 1 (part.startLba + 1) := by
    unfold formatDisk
    rw [ideWrite_other, ideWrite_other, ideWrite_other, ideWrite_other]
    all_goals simp only [superBlock]
    all_goals omega
  rw [← SuperBlock.ofBytes_words (superBlock_words_lt large)]
  unfold mountPartition
  apply SuperBlock.ofBytes_congr
  intro i inside
  have inSector : i < sectorSize := by
    simp only [sectorSize]
    omega
  rw [ideRead_apply _ _ inSector, kept, ideWrite_self _ _ _ inSector, SuperBlock.bytes,
    if_pos inside]

/-- The bytes of the block bitmap on the formatted disk. -/
theorem format_blockBitmap_byte {k : Nat}
    (inside : k < blockBitmapSects part.secCnt * sectorSize) :
    ideRead (formatDisk part pad disk) (superBlock part).blockBitmapLba
      (superBlock part).blockBitmapSects k = blockBitmapBytes (blockBitmapBitLen part.secCnt) k := by
  have pos : 0 < sectorSize := by decide
  have sector : k / sectorSize < blockBitmapSects part.secCnt := Nat.div_lt_of_lt_mul
    (by rwa [Nat.mul_comm])
  have inSector : k % sectorSize < sectorSize := Nat.mod_lt k pos
  have kept : formatDisk part pad disk ((superBlock part).blockBitmapLba + k / sectorSize) =
      ideWrite (ideWrite disk (part.startLba + 1) ((superBlock part).bytes pad) 1)
        (superBlock part).blockBitmapLba (blockBitmapBytes (blockBitmapBitLen part.secCnt))
        (superBlock part).blockBitmapSects
        ((superBlock part).blockBitmapLba + k / sectorSize) := by
    unfold formatDisk
    rw [ideWrite_other, ideWrite_other, ideWrite_other]
    all_goals simp only [superBlock]
    all_goals omega
  unfold ideRead
  rw [if_pos (by exact inside), kept, ideWrite, if_pos ⟨Nat.le_add_right _ _, Nat.add_lt_add_left sector _, inSector⟩,
    Nat.add_sub_cancel_left, Nat.div_add_mod']

/-! ### Bits -/

theorem clearBits_ff_bit {lastBit odd : Nat} (last : lastBit < 8) (small : odd < 8) :
    (clearBits lastBit 0xff).toBitVec.getLsbD odd = decide (lastBit < odd) := by
  have bits : ∀ lastBit < 8, ∀ odd < 8,
      (clearBits lastBit 0xff).toBitVec.getLsbD odd = decide (lastBit < odd) := by
    decide
  exact bits lastBit last odd small

/-- Bit `i` of the buffer: the bits after `bitLen` are set, to the end of the
sector that bit lies in. -/
theorem blockBitmapBytes_bit (bitLen i : Nat) :
    (blockBitmapBytes bitLen (i / 8)).toBitVec.getLsbD (i % 8) =
      decide ((i = 0 ∧ 8 ≤ bitLen) ∨ (bitLen < i ∧ i / 4096 ≤ bitLen / 4096)) := by
  have small : i % 8 < 8 := Nat.mod_lt i (by decide)
  unfold blockBitmapBytes
  simp only [sectorSize]
  by_cases last : i / 8 = bitLen / 8
  · have filled : memset (Function.update (fun _ => 0) 0 1) (bitLen / 8) 0xff
        (512 - bitLen / 8 % 512) (bitLen / 8) = 0xff := by
      rw [memset, memcpy, if_pos (by omega)]
    rw [last, Function.update_self, filled, clearBits_ff_bit (Nat.mod_lt _ (by decide)) small,
      decide_eq_decide]
    omega
  · rw [Function.update_of_ne last, memset, memcpy]
    by_cases filled : bitLen / 8 ≤ i / 8 ∧ i / 8 < bitLen / 8 + (512 - bitLen / 8 % 512)
    · have ones : ∀ odd < 8, (0xff : UInt8).toBitVec.getLsbD odd = true := by decide
      rw [if_pos filled, ones _ small]
      symm
      rw [decide_eq_true_iff]
      omega
    · rw [if_neg filled]
      by_cases zero : i / 8 = 0
      · have one : ∀ odd < 8, (1 : UInt8).toBitVec.getLsbD odd = decide (odd = 0) := by decide
        rw [zero, Function.update_self, one _ small, decide_eq_decide]
        omega
      · rw [Function.update_of_ne zero]
        have none : ((0 : UInt8).toBitVec).getLsbD (i % 8) = false := by simp
        rw [none]
        symm
        rw [decide_eq_false_iff_not]
        omega

theorem mounted_bytesLen (large : 613 ≤ part.secCnt) :
    (mountPartition part (formatDisk part pad disk)).blockBitmap.btmpBytesLen =
      blockBitmapSects part.secCnt * 512 := by
  have sb := format_superBlock pad disk large
  unfold mountPartition bitmapRead at *
  simp only at sb ⊢
  rw [sb]
  rfl

/-- Bit `i` of the block bitmap of the mounted partition. -/
theorem mounted_bit (large : 613 ≤ part.secCnt) {i : Nat}
    (inside : i < 4096 * blockBitmapSects part.secCnt) :
    bitmapScanTest (mountPartition part (formatDisk part pad disk)).blockBitmap i =
      decide ((i = 0 ∧ 8 ≤ blockBitmapBitLen part.secCnt) ∨
        (blockBitmapBitLen part.secCnt < i ∧ i / 4096 ≤ blockBitmapBitLen part.secCnt / 4096)) := by
  have sb := format_superBlock pad disk large
  rw [Kernel.bitmapScanTest_eq, ← blockBitmapBytes_bit]
  unfold mountPartition bitmapRead at *
  simp only at sb ⊢
  rw [sb, format_blockBitmap_byte]
  simp only [sectorSize]
  omega

end Formatted

/-! ### Allocation -/

/-- The sectors that a mounted partition can hand out lie below `limit`. -/
structure AllocInv (mounted m : Mounted) (limit : Nat) (returned : List Int) : Prop where
  sb : m.sb = mounted.sb
  bytesLen : m.blockBitmap.btmpBytesLen = mounted.blockBitmap.btmpBytesLen
  clear : ∀ i < 8 * m.blockBitmap.btmpBytesLen, bitmapScanTest m.blockBitmap i = false →
    m.sb.dataStartLba + i < limit
  returned : ∀ lba ∈ returned, lba ≠ -1 → (m.sb.dataStartLba : Int) ≤ lba ∧ lba < limit

theorem AllocInv.alloc {mounted m m' : Mounted} {limit : Nat} {returned : List Int} {lba : Int}
    (inv : AllocInv mounted m limit returned) (eq : blockBitmapAlloc m = some (m', lba)) :
    AllocInv mounted m' limit (lba :: returned) := by
  unfold blockBitmapAlloc at eq
  simp only [Option.bind_eq_bind, Option.bind_eq_some_iff] at eq
  obtain ⟨bitIdx, scanned, eq⟩ := eq
  rcases Kernel.bitmapScan_spec scanned with missing | ⟨bit, rfl, _, inside, clear⟩
  · rw [if_pos missing] at eq
    simp only [Option.pure_def, Option.some.injEq, Prod.mk.injEq] at eq
    obtain ⟨rfl, rfl⟩ := eq
    refine ⟨inv.sb, inv.bytesLen, inv.clear, ?_⟩
    intro lba mem block
    rcases List.mem_cons.mp mem with rfl | old
    · exact absurd rfl block
    · exact inv.returned lba old block
  · rw [if_neg (by omega)] at eq
    simp only [Option.pure_def, Option.some.injEq, Prod.mk.injEq] at eq
    obtain ⟨rfl, rfl⟩ := eq
    have below := inv.clear bit (inside rfl) (clear bit (by omega) (by omega))
    refine ⟨inv.sb, inv.bytesLen, ?_, ?_⟩
    · intro i small test
      rw [Kernel.bitmapScanTest_bitmapSet] at test
      split at test
      · cases test
      · exact inv.clear i small test
    · intro lba mem block
      rcases List.mem_cons.mp mem with rfl | old
      · dsimp only
        omega
      · exact inv.returned lba old block

theorem AllocInv.free {mounted m : Mounted} {limit : Nat} {returned : List Int} {lba : Int}
    (inv : AllocInv mounted m limit returned) (data : m.sb.dataStartLba < limit)
    (used : lba ∈ returned ∨ lba = m.sb.dataStartLba) (block : lba ≠ -1) :
    AllocInv mounted (blockFree m lba) limit returned := by
  have range : (m.sb.dataStartLba : Int) ≤ lba ∧ lba < limit := by
    rcases used with old | root
    · exact inv.returned lba old block
    · omega
  refine ⟨inv.sb, inv.bytesLen, ?_, inv.returned⟩
  intro i small test
  unfold blockFree at test
  rw [Kernel.bitmapScanTest_bitmapSet] at test
  split at test
  · rename_i freed
    subst freed
    unfold blockFree
    dsimp only
    omega
  · exact inv.clear i small test

/-- Allocation stays where the clear bits are. -/
theorem AllocRun.inv {mounted m : Mounted} {limit : Nat} {returned : List Int}
    (run : AllocRun mounted m returned) (data : mounted.sb.dataStartLba < limit)
    (clear : ∀ i < 8 * mounted.blockBitmap.btmpBytesLen,
      bitmapScanTest mounted.blockBitmap i = false → mounted.sb.dataStartLba + i < limit) :
    AllocInv mounted m limit returned := by
  induction run with
  | start => exact ⟨rfl, rfl, clear, fun _ none => nomatch none⟩
  | alloc _ eq inv => exact inv.alloc eq
  | free _ used block inv => exact inv.free (inv.sb ▸ data) used block

/-! ### When a new file system is well formed -/

/-- The sizes for which the extra clear bit stands for a sector of the partition:
the sectors left for the block bitmap and the data exceed `4096 * m` by at most
`m + 1`. The last two conditions matter from `m = 4096` on. -/
def ExactSize (secCnt : Nat) : Prop :=
  secCnt + 3484 < 2 ^ 32 ∧
    ∃ m, 4096 * m + 611 < secCnt ∧ secCnt ≤ 4096 * m + 4707 ∧ secCnt ≤ 4097 * m + 612 ∧
      4097 * m < secCnt + 7580 ∧ 4097 * m ≠ secCnt + 3484

section

variable {part : RawPartition} (pad : Buf) (disk : Disk)

theorem superBlock_layout (large : 613 ≤ part.secCnt) :
    ((regions part (superBlock part)).IsChain fun first second => first.1 + first.2 = second.1) ∧
      ((regions part (superBlock part)).Pairwise fun first second =>
        first.1 + first.2 ≤ second.1) ∧
      (∀ region ∈ regions part (superBlock part),
        part.startLba ≤ region.1 ∧ region.1 + region.2 ≤ part.startLba + part.secCnt) ∧
      (superBlock part).dataStartLba < part.startLba + part.secCnt := by
  have sects := blockBitmapSects_le large part.secCnt_lt
  have data := superBlock_dataStartLba part
  refine ⟨?_, ?_, ?_, by omega⟩
  · simp [regions, superBlock]
  · simp [regions, superBlock, inodeBitmapSects_eq, inodeTableSects_eq]
    omega
  · simp [regions, superBlock, inodeBitmapSects_eq, inodeTableSects_eq] at data ⊢
    omega

/-- A data sector without a bit, or with a bit that is set. -/
theorem not_represented {bitLen sects i : Nat} (large : 613 ≤ part.secCnt)
    (bits : blockBitmapBitLen part.secCnt = bitLen) (size : blockBitmapSects part.secCnt = sects)
    (missing : ¬Represented (mountPartition part (formatDisk part pad disk)).blockBitmap i) :
    4096 * sects ≤ i ∨ bitLen < i := by
  by_contra both
  apply missing
  unfold Represented
  rw [mounted_bytesLen pad disk large, mounted_bit pad disk large (by omega), bits, size]
  refine ⟨by omega, ?_⟩
  by_cases zero : i = 0
  · exact .inl zero
  · right
    rw [decide_eq_false_iff_not]
    omega

theorem not_represented_of {bitLen sects i : Nat} (large : 613 ≤ part.secCnt)
    (bits : blockBitmapBitLen part.secCnt = bitLen) (size : blockBitmapSects part.secCnt = sects)
    (outside : 4096 * sects ≤ i ∨ (bitLen < i ∧ i / 4096 ≤ bitLen / 4096)) :
    ¬Represented (mountPartition part (formatDisk part pad disk)).blockBitmap i := by
  unfold Represented
  rw [mounted_bytesLen pad disk large, size]
  rintro ⟨inside, clear⟩
  rw [mounted_bit pad disk large (by omega), bits, decide_eq_false_iff_not] at clear
  omega

theorem wellFormatted_of_exactSize (large : 613 ≤ part.secCnt) (size : ExactSize part.secCnt) :
    WellFormatted part (mountPartition part (formatDisk part pad disk)) := by
  obtain ⟨noOverflow, k, low, high, tail, far, notFar⟩ := size
  obtain ⟨m, bitLen, sects, total, mLow, mHigh, bitLow, bitHigh, bits, size⟩ :=
    sizes_spec large noOverflow
  obtain rfl : k = m := by omega
  obtain ⟨consecutive, disjoint, inside, data⟩ := superBlock_layout large
  have sb := format_superBlock pad disk large
  have start := superBlock_dataStartLba part
  have len := mounted_bytesLen pad disk large
  have clearInside : ∀ i < 8 * (mountPartition part (formatDisk part pad disk)).blockBitmap.btmpBytesLen,
      bitmapScanTest (mountPartition part (formatDisk part pad disk)).blockBitmap i = false →
      (superBlock part).dataStartLba + i < part.startLba + part.secCnt := by
    intro i small clear
    rw [len, size] at small
    rw [mounted_bit pad disk large (by omega), bits, decide_eq_false_iff_not] at clear
    omega
  refine ⟨sb ▸ consecutive, sb ▸ disjoint, sb ▸ inside, sb ▸ data, ?_, sb ▸ clearInside, ?_, ?_⟩
  · rw [mounted_bit pad disk large (by omega), len, size, bits, decide_eq_true_iff]
    omega
  · intro m' returned run lba mem block
    have inv := @AllocRun.inv _ _ (part.startLba + part.secCnt) _ run (sb ▸ data) (sb ▸ clearInside)
    have range := inv.returned lba mem block
    rwa [inv.sb] at range
  · intro i j iData jData iMissing jMissing
    have iOut := not_represented pad disk large bits size iMissing
    have jOut := not_represented pad disk large bits size jMissing
    rw [sb, start, size] at iData jData
    -- the second rounding step saves one sector or two
    have saved : k = sects + 1 ∨ k = sects + 2 := by omega
    rcases saved with rfl | rfl
    · omega
    · have notFull : bitLen < 4096 * (sects + 1) := by omega
      omega

theorem WellFormatted.exactSize (large : 613 ≤ part.secCnt)
    (formatted : WellFormatted part (mountPartition part (formatDisk part pad disk))) :
    ExactSize part.secCnt := by
  have len := mounted_bytesLen pad disk large
  have sb := format_superBlock pad disk large
  have start := superBlock_dataStartLba part
  have noOverflow : part.secCnt + 3484 < 2 ^ 32 := by
    by_contra overflow
    have none := sizes_overflow part.secCnt_lt (by omega)
    have some := formatted.rootBit.1
    rw [len, none] at some
    omega
  obtain ⟨m, bitLen, sects, total, mLow, mHigh, bitLow, bitHigh, bits, size⟩ :=
    sizes_spec large noOverflow
  -- two data sectors outside the bitmap
  have notTwo : ∀ i, (superBlock part).dataStartLba + (i + 1) < part.startLba + part.secCnt →
      (4096 * (sects + 1) ≤ i ∨ (bitLen < i ∧ i / 4096 ≤ bitLen / 4096)) →
      (4096 * (sects + 1) ≤ i + 1 ∨ (bitLen < i + 1 ∧ (i + 1) / 4096 ≤ bitLen / 4096)) →
      False := by
    intro i data iOut jOut
    have same := formatted.oneLeftOut i (i + 1) (by rw [sb]; omega) (by rw [sb]; omega)
      (not_represented_of pad disk large bits size iOut)
      (not_represented_of pad disk large bits size jOut)
    omega
  refine ⟨noOverflow, m, by omega, by omega, ?_, ?_, ?_⟩
  · -- the bit of index `bitLen` is clear
    by_contra short
    have clear := formatted.clearInside bitLen (by rw [len, size]; omega)
    rw [mounted_bit pad disk large (by omega), bits, decide_eq_false_iff_not, sb] at clear
    have inside := clear (by omega)
    omega
  · by_contra far
    exact notTwo (bitLen + 1) (by omega) (by omega) (by omega)
  · intro far
    exact notTwo bitLen (by omega) (by omega) (by omega)

end

/-! ### When formatting goes through -/

/-- The block that `sys_malloc` gives holds the block bitmap and its tail: there are
fewer than 3840 pages, and the bits do not fill a number of sectors that, with
the arena header, fills the pages to 12 bytes less than the sector of the tail. -/
def BufferFits (secCnt : Nat) : Prop :=
  blockBitmapSects secCnt ≤ 30711 ∧
    ¬(blockBitmapBitLen secCnt = 4096 * blockBitmapSects secCnt ∧ 608 ≤ blockBitmapSects secCnt ∧
      blockBitmapSects secCnt % 8 = 7)

theorem tailEnd_eq (bitLen : Nat) : tailEnd bitLen = 512 * (bitLen / 4096 + 1) := by
  unfold tailEnd sectorSize
  omega

theorem formatBufSize_eq {part : RawPartition} (small : blockBitmapSects part.secCnt ≤ 2 ^ 20) :
    formatBufSize (superBlock part) = max (blockBitmapSects part.secCnt) 608 * 512 := by
  have table : (superBlock part).inodeTableSects = 608 := inodeTableSects_eq
  have inodes : (superBlock part).inodeBitmapSects = 1 := inodeBitmapSects_eq
  have blocks : (superBlock part).blockBitmapSects = blockBitmapSects part.secCnt := rfl
  unfold formatBufSize sectorSize
  rw [table, inodes, blocks]
  dsimp only
  split <;> split <;> omega

/-- The block bitmap has `2 ^ 20` sectors at most. -/
theorem blockBitmapSects_small (secCnt : Nat) : blockBitmapSects secCnt ≤ 2 ^ 20 := by
  unfold blockBitmapSects divRoundUp bitsPerSector
  omega

theorem mallocRoom_eq_some {size room : Nat} (small : size < 2 ^ 31) :
    mallocRoom size = some room ↔
      (size + 4107) / 4096 < 3840 ∧ room = (size + 4107) / 4096 * 4096 - 12 := by
  have pages : divRoundUp (size + 12) 4096 = (size + 4107) / 4096 := by
    rw [divRoundUp, Nat.mod_eq_of_lt (by omega)]
    rfl
  unfold mallocRoom
  rw [pages]
  dsimp only
  split
  · rename_i inside
    rw [Option.some.injEq]
    exact ⟨fun same => ⟨inside.2, same.symm⟩, fun same => same.2.symm⟩
  · rename_i outside
    refine ⟨fun isNone => absurd isNone (Option.some_ne_none _).symm, fun inside => ?_⟩
    omega

theorem tailFits_iff {part : RawPartition} (large : 613 ≤ part.secCnt)
    (noOverflow : part.secCnt + 3484 < 2 ^ 32) : TailFits (superBlock part) ↔ BufferFits part.secCnt := by
  obtain ⟨m, bitLen, sects, -, -, -, bitLow, bitHigh, bits, size⟩ := sizes_spec large noOverflow
  have small := blockBitmapSects_small part.secCnt
  have isCnt : (superBlock part).secCnt = part.secCnt := rfl
  unfold TailFits BufferFits
  rw [formatBufSize_eq small, isCnt, tailEnd_eq, bits, size]
  rw [size] at small
  constructor
  · rintro ⟨room, isRoom, fits⟩
    obtain ⟨pages, rfl⟩ := (mallocRoom_eq_some (by omega)).mp isRoom
    omega
  · rintro ⟨pages, apart⟩
    refine ⟨_, (mallocRoom_eq_some (by omega)).mpr ⟨by omega, rfl⟩, ?_⟩
    omega

/-- `partition_format` goes through, and what it leaves is a well formed file system. -/
def FormatSound (part : RawPartition) (pad : Buf) (disk : Disk) : Prop :=
  ∃ formatted, partitionFormat part pad disk = some formatted ∧
    WellFormatted part (mountPartition part formatted)

/-- `partition_format` makes a well formed file system exactly on partitions of
these sizes, when the root directory is on the disk and the block bitmap fits
its buffer. -/
theorem partition_format_iff (part : RawPartition) (large : 613 ≤ part.secCnt) (pad : Buf)
    (disk : Disk) :
    FormatSound part pad disk ↔
      ExactSize part.secCnt ∧ BufferFits part.secCnt ∧
        part.startLba + 611 + blockBitmapSects part.secCnt ≤ maxLba := by
  unfold FormatSound
  simp only [partitionFormat_eq_some, superBlock_dataStartLba]
  constructor
  · rintro ⟨_, ⟨⟨_, onDisk, fits⟩, rfl⟩, formatted⟩
    have size := formatted.exactSize pad disk large
    exact ⟨size, (tailFits_iff large size.1).mp fits, onDisk⟩
  · rintro ⟨size, fits, onDisk⟩
    obtain ⟨_, _, sects, _, _, _, _, _, _, isSects⟩ := sizes_spec large size.1
    exact ⟨_, ⟨⟨by omega, onDisk, (tailFits_iff large size.1).mpr fits⟩, rfl⟩,
      wellFormatted_of_exactSize pad disk large size⟩

theorem small_secCnt_lt : 4708 < 2 ^ 32 ∧ 0 + 4708 ≤ 2 ^ 32 := by decide

/-- A partition of 4708 sectors: 4097 are left for the block bitmap and the data. -/
def smallPartition : RawPartition := ⟨0, 4708, small_secCnt_lt.1, small_secCnt_lt.2⟩

theorem partition_format_small : FormatSound smallPartition (fun _ => 0) fun _ _ => 0 := by
  apply (partition_format_iff smallPartition (by decide) (fun _ => 0) fun _ _ => 0).mpr
  exact ⟨⟨by decide, 1, by decide⟩, ⟨by decide, by decide⟩, by decide⟩

theorem plain_secCnt_lt : 10000 < 2 ^ 32 ∧ 0 + 10000 ≤ 2 ^ 32 := by decide

/-- A partition of 10000 sectors, 9389 of which are left: 3 for the block bitmap and
9386 for the data. Bit 9386 of the bitmap is clear. -/
def plainPartition : RawPartition := ⟨0, 10000, plain_secCnt_lt.1, plain_secCnt_lt.2⟩

theorem partition_format_plain : ∃ formatted,
    partitionFormat plainPartition (fun _ => 0) (fun _ _ => 0) = some formatted ∧
      ¬WellFormatted plainPartition (mountPartition plainPartition formatted) := by
  have fits : TailFits (superBlock plainPartition) :=
    (tailFits_iff (by decide) (by decide)).mpr ⟨by decide, by decide⟩
  refine ⟨_, partitionFormat_eq_some.mpr ⟨⟨by decide, by decide, fits⟩, rfl⟩, ?_⟩
  intro formatted
  obtain ⟨_, m, low, high, tail, _⟩ := formatted.exactSize _ _ (by decide)
  simp only [plainPartition] at low high tail
  omega

end ZyOs.Fs.Format
