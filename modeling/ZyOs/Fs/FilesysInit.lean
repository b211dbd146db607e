import ZyOs.Device.PartitionScan
import ZyOs.Fs.Format

/-!
Contract: `filesys_init`, up to the mount: which partitions of which disks are formatted.

Owns:
- the three nested loops over channels, disks and partitions, with `part_idx` and the
  pointer `part`, which moves from `prim_parts` to `logic_parts`;
- `partition_format` for any `start_lba` and `sec_cnt` that `partition_scan` can record,
  with the writes counted for each sector.

The first disk of a channel is skipped, so a channel is its second disk. A sector past
`max_lba` is not on the disk: an `ASSERT` or the drive stops the transfer. `outside` also
stands for a `memset` of `partition_format` that leaves the block of its buffer.

Does not own: the memory of the buffers. The kernel has the pages for them, and
`sys_malloc` gives zeroed memory.
-/

namespace ZyOs.Fs.FilesysInit

open Device (addLba maxLba)
open Format (SuperBlock blockBitmapBitLen blockBitmapBuf blockBitmapSects formatBufSize inodeBitmapBuf
  inodeBitmapSects inodeTableBuf inodeTableSects mallocRoom maxFilesPerPart rootDirBuf)

/-! ### The state -/

/-- `struct disk`, with the sectors of the disk. A partition that the scan has not set has
a `sec_cnt` of 0. -/
structure Hd where
  primParts : Nat → Option Device.Partition
  logicParts : Nat → Option Device.Partition
  disk : Disk

/-- The sectors, how often each was written, and the `part_idx` of each partition that was
formatted, in order. -/
structure Drive where
  disk : Disk
  writeCnt : Nat → Nat
  formatted : List Nat

/-- Where the pointer `part` is. -/
inductive PartPtr where
  | prim (idx : Nat)
  | logic (idx : Nat)

/-- `part ++`. -/
def PartPtr.next : PartPtr → PartPtr
  | .prim idx => .prim (idx + 1)
  | .logic idx => .logic (idx + 1)

inductive Stop where
  | assertFailed
  | outside
deriving DecidableEq

/-- `*part`. -/
def Hd.deref (hd : Hd) : PartPtr → Except Stop (Option Device.Partition)
  | .prim idx => if idx < 4 then .ok (hd.primParts idx) else .error .outside
  | .logic idx => if idx < 8 then .ok (hd.logicParts idx) else .error .outside

/-- The magic number. -/
def fsMagic : Nat := 0x19590318

/-! ### Formatting -/

/-- The sector of the super block. -/
def sbLba (part : Device.Partition) : Nat := addLba part.startLba 1

/-- The super block of `partition_format`. -/
def superBlock (part : Device.Partition) : SuperBlock :=
  let blockBitmapLba := addLba part.startLba 2
  let inodeBitmapLba := addLba blockBitmapLba (blockBitmapSects part.secCnt)
  let inodeTableLba := addLba inodeBitmapLba inodeBitmapSects
  { magic := fsMagic
    secCnt := part.secCnt
    inodeCnt := maxFilesPerPart
    partLbaBase := part.startLba
    blockBitmapLba := blockBitmapLba
    blockBitmapSects := blockBitmapSects part.secCnt
    inodeBitmapLba := inodeBitmapLba
    inodeBitmapSects := inodeBitmapSects
    inodeTableLba := inodeTableLba
    inodeTableSects := inodeTableSects
    dataStartLba := addLba inodeTableLba inodeTableSects
    rootInodeNo := 0
    dirEntrySize := Fs.dirEntrySize }

/-- `ide_write`. -/
def Drive.write (d : Drive) (lba : Nat) (buf : Buf) (secCnt : Nat) : Except Stop Drive :=
  if secCnt > 0 ∧ lba + secCnt ≤ maxLba + 1 then
    .ok { d with
      disk := ideWrite d.disk lba buf secCnt
      writeCnt := fun sec =>
        if lba ≤ sec ∧ sec < lba + secCnt then d.writeCnt sec + 1 else d.writeCnt sec }
  else
    .error .assertFailed

/-- `buf` of `partition_format` with the block bitmap in it. -/
def bitmapBuf (sb : SuperBlock) : Except Stop Buf :=
  match mallocRoom (formatBufSize sb) with
  | none => .error .assertFailed
  | some room =>
      match blockBitmapBuf (blockBitmapBitLen sb.secCnt) room with
      | none => .error .outside
      | some buf => .ok buf

/-- `partition_format`; `pad` is what the stack has in the rest of the super block. -/
def partitionFormat (part : Device.Partition) (pad : Buf) (d : Drive) : Except Stop Drive :=
  let sb := superBlock part
  d.write (sbLba part) (sb.bytes pad) 1 >>= fun d =>
  bitmapBuf sb >>= fun buf =>
  d.write sb.blockBitmapLba buf sb.blockBitmapSects >>= fun d =>
  d.write sb.inodeBitmapLba inodeBitmapBuf sb.inodeBitmapSects >>= fun d =>
  d.write sb.inodeTableLba (inodeTableBuf sb) sb.inodeTableSects >>= fun d =>
  d.write sb.dataStartLba rootDirBuf 1

/-! ### The loops -/

/-- There is a file system: the magic number is in the sector of the super block. -/
def HasMagic (disk : Disk) (part : Device.Partition) : Prop :=
  (SuperBlock.ofBytes (ideRead disk (sbLba part) 1)).magic = fsMagic

instance (disk : Disk) (part : Device.Partition) : Decidable (HasMagic disk part) := by
  unfold HasMagic
  infer_instance

/-- The body of the loop over the partitions. -/
def visitPart (pad : Nat → Buf) (partIdx : Nat) (part : Option Device.Partition) (d : Drive) :
    Except Stop Drive :=
  match part with
  | none => .ok d
  | some part =>
      if part.secCnt ≠ 0 then
        if sbLba part ≤ maxLba then
          if HasMagic d.disk part then
            .ok d
          else
            partitionFormat part (pad partIdx) { d with formatted := d.formatted ++ [partIdx] }
        else
          .error .assertFailed
      else
        .ok d

/-- The loop over the partitions, for the indices that are left below 12. -/
def scanParts (pad : Nat → Buf) (hd : Hd) : Nat → Nat → PartPtr → Drive → Except Stop Drive
  | 0, _, _, d => .ok d
  | left + 1, partIdx, part, d =>
      let part := if partIdx = 4 then .logic 0 else part
      hd.deref part >>= fun p =>
      visitPart pad partIdx p d >>= fun d =>
      scanParts pad hd left (partIdx + 1) part.next d

/-- The second disk of a channel, from the `part_idx` that the disk before has left. -/
def scanDisk (pad : Nat → Buf) (hd : Hd) (partIdx : Nat) : Except Stop (Drive × Nat) :=
  scanParts pad hd (12 - partIdx) partIdx (.prim 0) ⟨hd.disk, fun _ => 0, []⟩ >>= fun d =>
  .ok (d, partIdx + (12 - partIdx))

/-- The loop over the channels. -/
def scanChannels (pad : Nat → Buf) : List Hd → Nat → Except Stop (List Drive)
  | [], _ => .ok []
  | hd :: rest, partIdx =>
      scanDisk pad hd partIdx >>= fun scanned =>
      scanChannels pad rest scanned.2 >>= fun drives =>
      .ok (scanned.1 :: drives)

/-- `filesys_init`, up to the mount. -/
def filesysInit (pad : Nat → Buf) (channels : List Hd) : Except Stop (List Drive) :=
  scanChannels pad channels 0

end ZyOs.Fs.FilesysInit
