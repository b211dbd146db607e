import ZyOs.Fs.InodeTable
import ZyOs.Fs.PathSearch
import ZyOs.Kernel.Bitmap

/-!
Contract: a mounted partition: the disk with its layout, and the two bitmaps in
memory.

Owns:
- `inode_bitmap_alloc`, `block_bitmap_alloc` and `bitmap_sync`;
- `inode_sync` and `inode_delete` on the disk of the volume;
- the layout that the calls rely on: the bitmaps and the inode table end where
  the data area starts.

Does not own: what is in the data area. A result of `none` is a failed `ASSERT`;
that of `bitmap_scan` fails when no bit is clear.
-/

namespace ZyOs.Fs

open ZyOs.Kernel
open InodeTable (Inode)

/-- `struct partition` after `mount_partition`, with the fields of its super block. -/
structure Volume where
  disk : Disk
  startLba : Nat
  secCnt : Nat
  blockBitmapLba : Nat
  inodeBitmapLba : Nat
  inodeTableLba : Nat
  dataStartLba : Nat
  blockBitmap : Bitmap
  inodeBitmap : Bitmap
  tableInside : inodeTableLba + 608 ≤ startLba + secCnt
  sectorsFit : startLba + secCnt ≤ 2 ^ 32

/-- `INODE_BITMAP` and `BLOCK_BITMAP`. -/
inductive BitmapType where
  | inode
  | block
deriving DecidableEq

namespace Volume

/-- `inode_bitmap_alloc`; `none` inside for -1. -/
def inodeBitmapAlloc (part : Volume) : Option (Volume × Option Nat) := do
  let bitIdx ← bitmapScan part.inodeBitmap 1
  if bitIdx = -1 then
    return (part, none)
  else
    return ({ part with inodeBitmap := bitmapSet part.inodeBitmap bitIdx.toNat true },
      some bitIdx.toNat)

/-- `block_bitmap_alloc`; `none` inside for -1. -/
def blockBitmapAlloc (part : Volume) : Option (Volume × Option Nat) := do
  let bitIdx ← bitmapScan part.blockBitmap 1
  if bitIdx = -1 then
    return (part, none)
  else
    return ({ part with blockBitmap := bitmapSet part.blockBitmap bitIdx.toNat true },
      some (part.dataStartLba + bitIdx.toNat))

/-- `bitmap_sync`. -/
def bitmapSync (part : Volume) (bitIdx : Nat) (btmpType : BitmapType) : Volume :=
  let offSec := bitIdx / 4096
  let offSize := offSec * 512
  let (secLba, btmp) := match btmpType with
    | .inode => (part.inodeBitmapLba + offSec, part.inodeBitmap)
    | .block => (part.blockBitmapLba + offSec, part.blockBitmap)
  { part with
    disk := ideWrite part.disk secLba (fun i => UInt8.ofBitVec (btmp.bits (offSize + i))) 1 }

/-- `bitmap_set(&part->block_bitmap, bit_idx, value)`. -/
def setBlockBit (part : Volume) (bitIdx : Nat) (value : Bool) : Volume :=
  { part with blockBitmap := bitmapSet part.blockBitmap bitIdx value }

/-- `bitmap_set(&part->inode_bitmap, bit_idx, value)`. -/
def setInodeBit (part : Volume) (bitIdx : Nat) (value : Bool) : Volume :=
  { part with inodeBitmap := bitmapSet part.inodeBitmap bitIdx value }

def ideWrite (part : Volume) (lba : Nat) (buf : Buf) : Volume :=
  { part with disk := Fs.ideWrite part.disk lba buf 1 }

/-- The part of the volume that `inode_sync` uses. -/
def inodeTable (part : Volume) : InodeTable.Partition :=
  ⟨part.disk, part.startLba, part.secCnt, part.inodeTableLba, [], part.tableInside, part.sectorsFit⟩

/-- `inode_sync`. -/
def inodeSync (part : Volume) (inode : Inode) : Option Volume := do
  let table ← InodeTable.inodeSync part.inodeTable inode
  return { part with disk := table.disk }

/-- `inode_delete`. -/
def inodeDelete (part : Volume) (inodeNo : Nat) : Option Volume := do
  let table ← InodeTable.inodeDelete part.inodeTable inodeNo
  return { part with disk := table.disk }

/-- The inode that `inode_open` reads from the disk. -/
def readInode (part : Volume) (inodeNo : Nat) : Option Inode := do
  let pos ← inodeLocate part.inodeTableLba inodeNo
  return Inode.ofBytes (ideRead part.disk pos.secLba (InodeTable.secs pos)) pos.offSize

/-! ### Layout -/

/-- The data area lies behind the block bitmap and the inode table, and its
sectors have 32-bit addresses. -/
structure WellFormed (part : Volume) : Prop where
  bitmapBelow : ∀ bit < 8 * part.blockBitmap.btmpBytesLen,
    part.blockBitmapLba + bit / 4096 < part.dataStartLba
  tableBelow : part.inodeTableLba + 608 ≤ part.dataStartLba
  dataFits : part.dataStartLba + 8 * part.blockBitmap.btmpBytesLen ≤ 2 ^ 32

/-- A sector of the data area whose bit is set. -/
structure InUse (part : Volume) (lba : Nat) : Prop where
  inData : part.dataStartLba ≤ lba
  inside : lba - part.dataStartLba < 8 * part.blockBitmap.btmpBytesLen
  bit : bitmapScanTest part.blockBitmap (lba - part.dataStartLba) = true

/-- The layout is the same, and so are the sectors of the data area but those that
are listed. -/
structure Writes (part part' : Volume) (written : List Nat) : Prop where
  dataStartLba : part'.dataStartLba = part.dataStartLba
  blockBitmapLba : part'.blockBitmapLba = part.blockBitmapLba
  inodeTableLba : part'.inodeTableLba = part.inodeTableLba
  bytesLen : part'.blockBitmap.btmpBytesLen = part.blockBitmap.btmpBytesLen
  disk : ∀ sec, part.dataStartLba ≤ sec → sec ∉ written → part'.disk sec = part.disk sec

variable {part part' part'' : Volume} {written written' : List Nat} {lba bit : Nat}

theorem Writes.trans (first : part.Writes part' written) (second : part'.Writes part'' written') :
    part.Writes part'' (written ++ written') where
  dataStartLba := second.dataStartLba.trans first.dataStartLba
  blockBitmapLba := second.blockBitmapLba.trans first.blockBitmapLba
  inodeTableLba := second.inodeTableLba.trans first.inodeTableLba
  bytesLen := second.bytesLen.trans first.bytesLen
  disk sec inData notIn := by
    rw [List.mem_append, not_or] at notIn
    rw [← first.dataStartLba] at inData
    rw [second.disk sec inData notIn.2]
    rw [first.dataStartLba] at inData
    exact first.disk sec inData notIn.1

theorem Writes.wellFormed (writes : part.Writes part' written) (wellFormed : part.WellFormed) :
    part'.WellFormed where
  bitmapBelow bit inside := by
    rw [writes.bytesLen] at inside
    rw [writes.blockBitmapLba, writes.dataStartLba]
    exact wellFormed.bitmapBelow bit inside
  tableBelow := by
    rw [writes.inodeTableLba, writes.dataStartLba]
    exact wellFormed.tableBelow
  dataFits := by
    rw [writes.dataStartLba, writes.bytesLen]
    exact wellFormed.dataFits

theorem writes_ideWrite (part : Volume) (lba : Nat) (buf : Buf) :
    part.Writes (part.ideWrite lba buf) [lba] :=
  ⟨rfl, rfl, rfl, rfl, fun sec _ notIn => by
    have ne : sec ≠ lba := by simpa using notIn
    exact ideWrite_other _ _ (by omega)⟩

theorem writes_setBlockBit (part : Volume) (bit : Nat) (value : Bool) :
    part.Writes (part.setBlockBit bit value) [] :=
  ⟨rfl, rfl, rfl, rfl, fun _ _ _ => rfl⟩

theorem writes_bitmapSync (wellFormed : part.WellFormed)
    (inside : bit < 8 * part.blockBitmap.btmpBytesLen) :
    part.Writes (part.bitmapSync bit .block) [] :=
  ⟨rfl, rfl, rfl, rfl, fun sec inData _ => by
    have below := wellFormed.bitmapBelow bit inside
    have other : sec < part.blockBitmapLba + bit / 4096 ∨
        part.blockBitmapLba + bit / 4096 + 1 ≤ sec := by
      omega
    have same := ideWrite_other part.disk
      (fun i => UInt8.ofBitVec (part.blockBitmap.bits (bit / 4096 * 512 + i))) other
    exact same⟩

/-- `inode_sync` succeeds, and writes to the inode table only. -/
theorem inodeSync_spec (wellFormed : part.WellFormed) (inode : Inode) :
    ∃ part', part.inodeSync inode = some part' ∧ part.Writes part' [] ∧
      part'.blockBitmap = part.blockBitmap := by
  obtain ⟨synced, isSynced, behind⟩ := InodeTable.inodeSync_behind part.inodeTable inode
  unfold inodeSync
  rw [isSynced]
  refine ⟨_, rfl, ⟨rfl, rfl, rfl, rfl, fun sec inData _ => ?_⟩, rfl⟩
  exact behind sec (wellFormed.tableBelow.trans inData)

/-! ### Blocks in use -/

theorem InUse.pos (inUse : part.InUse lba) (wellFormed : part.WellFormed) : lba ≠ 0 := by
  have below := wellFormed.tableBelow
  have inData := inUse.inData
  omega

theorem InUse.lt (inUse : part.InUse lba) (wellFormed : part.WellFormed) : lba < 2 ^ 32 := by
  have inside := inUse.inside
  have fits := wellFormed.dataFits
  omega

theorem InUse.congr (inUse : part.InUse lba) (writes : part.Writes part' written)
    (same : bitmapScanTest part'.blockBitmap (lba - part.dataStartLba) =
      bitmapScanTest part.blockBitmap (lba - part.dataStartLba)) : part'.InUse lba where
  inData := by
    rw [writes.dataStartLba]
    exact inUse.inData
  inside := by
    rw [writes.dataStartLba, writes.bytesLen]
    exact inUse.inside
  bit := by
    rw [writes.dataStartLba, same]
    exact inUse.bit

theorem InUse.of_sameBitmap (inUse : part.InUse lba) (writes : part.Writes part' written)
    (same : part'.blockBitmap = part.blockBitmap) : part'.InUse lba :=
  inUse.congr writes (by rw [same])

/-- `block_bitmap_alloc` takes the first clear bit. -/
theorem blockBitmapAlloc_eq (part : Volume) :
    part.blockBitmapAlloc = (firstClear part.blockBitmap).map fun bit =>
      (part.setBlockBit bit true, some (part.dataStartLba + bit)) := by
  unfold blockBitmapAlloc
  rw [bitmapScan_eq]
  cases firstClear part.blockBitmap with
  | none => rfl
  | some bit =>
      have notFailed : ((bit : Int)) ≠ -1 := by omega
      simp only [Option.map_some, if_true, Option.bind_eq_bind, Option.bind_some, if_neg notFailed,
        Int.toNat_natCast]
      rfl

/-- `block_bitmap_alloc` does not return -1: `bitmap_scan` fails before. -/
theorem blockBitmapAlloc_eq_some {allocated : Option Nat}
    (isRun : part.blockBitmapAlloc = some (part', allocated)) :
    ∃ bit, firstClear part.blockBitmap = some bit ∧ part' = part.setBlockBit bit true ∧
      allocated = some (part.dataStartLba + bit) := by
  rw [blockBitmapAlloc_eq] at isRun
  obtain ⟨bit, isBit, isPair⟩ := Option.map_eq_some_iff.mp isRun
  cases isPair
  exact ⟨bit, isBit, rfl, rfl⟩

theorem inodeBitmapAlloc_isSome {allocated : Option Nat}
    (isRun : part.inodeBitmapAlloc = some (part', allocated)) : allocated ≠ none := by
  unfold inodeBitmapAlloc at isRun
  rw [bitmapScan_eq] at isRun
  cases isBit : firstClear part.inodeBitmap with
  | none =>
      rw [isBit] at isRun
      cases isRun
  | some bit =>
      have notFailed : ((bit : Int)) ≠ -1 := by omega
      rw [isBit] at isRun
      simp only [Option.map_some, if_true, Option.bind_eq_bind, Option.bind_some, if_neg notFailed] at isRun
      cases isRun
      exact Option.some_ne_none _

/-- The inode table is written without the inode bitmap. -/
theorem inodeSync_inodeBitmap {inode : Inode} (isRun : part.inodeSync inode = some part') :
    part'.inodeBitmap = part.inodeBitmap := by
  obtain ⟨table, _, isPart⟩ := Option.bind_eq_some_iff.mp isRun
  cases isPart
  rfl

theorem inodeDelete_inodeBitmap {inodeNo : Nat} (isRun : part.inodeDelete inodeNo = some part') :
    part'.inodeBitmap = part.inodeBitmap := by
  obtain ⟨table, _, isPart⟩ := Option.bind_eq_some_iff.mp isRun
  cases isPart
  rfl

/-- The bits from here on are clear. -/
def ClearFrom (part : Volume) (start : Nat) : Prop :=
  ∀ bit, start ≤ bit → bit < 8 * part.blockBitmap.btmpBytesLen →
    bitmapScanTest part.blockBitmap bit = false

/-- A block that was just allocated: its bit is the only one that changes, and was
the first that was clear. -/
structure Allocated (part part' : Volume) (lba : Nat) : Prop where
  writes : part.Writes part' []
  wasFree : ¬ part.InUse lba
  inUse : part'.InUse lba
  others : ∀ other, part.InUse other → part'.InUse other
  clearFrom : ∀ start, part.ClearFrom start → part'.ClearFrom (start + 1)

/-- `block_bitmap_alloc` with its `bitmap_sync`. -/
theorem allocated_of_firstClear (wellFormed : part.WellFormed)
    (isClear : firstClear part.blockBitmap = some bit) :
    part.Allocated ((part.setBlockBit bit true).bitmapSync bit .block) (part.dataStartLba + bit) := by
  obtain ⟨inside, clear, least⟩ := firstClear_some isClear
  have writes : part.Writes ((part.setBlockBit bit true).bitmapSync bit .block) [] :=
    (writes_setBlockBit part bit true).trans
      (writes_bitmapSync ((writes_setBlockBit part bit true).wellFormed wellFormed) inside)
  have bits : ∀ i, bitmapScanTest ((part.setBlockBit bit true).bitmapSync bit .block).blockBitmap i =
      if i = bit then true else bitmapScanTest part.blockBitmap i :=
    fun i => bitmapScanTest_bitmapSet part.blockBitmap bit i true
  refine ⟨writes, fun inUse => ?_, ⟨?_, ?_, ?_⟩, fun other inUse => inUse.congr writes ?_,
    fun start clearFrom i above below => ?_⟩
  · have isSet := inUse.bit
    rw [Nat.add_sub_cancel_left, clear] at isSet
    cases isSet
  · exact Nat.le_add_right _ _
  · show part.dataStartLba + bit - part.dataStartLba < _
    rw [Nat.add_sub_cancel_left]
    exact inside
  · show bitmapScanTest _ (part.dataStartLba + bit - part.dataStartLba) = true
    rw [Nat.add_sub_cancel_left, bits, if_pos rfl]
  · rw [bits]
    split
    · rename_i isBit
      rw [inUse.bit]
    · rfl
  · have isClear := clearFrom i (by omega) below
    rw [bits, if_neg, isClear]
    -- the first clear bit is not behind `start`
    intro isBit
    have isSet := least start (by omega)
    rw [clearFrom start (Nat.le_refl _) (by omega)] at isSet
    cases isSet

end Volume

/-! ### A blank volume -/

theorem blankVolume_table : 3 + 608 ≤ 0 + 8192 := by decide

theorem blankVolume_sectors : 0 + 8192 ≤ 2 ^ 32 := by decide

/-- A volume whose disk is blank; the first block is taken. -/
def blankVolume : Volume where
  disk := fun _ _ => 0
  startLba := 0
  secCnt := 8192
  blockBitmapLba := 1
  inodeBitmapLba := 2
  inodeTableLba := 3
  dataStartLba := 611
  blockBitmap := ⟨512, fun i => if i = 0 then 1#8 else 0⟩
  inodeBitmap := ⟨512, fun _ => 0⟩
  tableInside := blankVolume_table
  sectorsFit := blankVolume_sectors

theorem blankVolume_wellFormed : blankVolume.WellFormed where
  bitmapBelow bit inside := by
    have inside : bit < 8 * 512 := inside
    show 1 + bit / 4096 < 611
    omega
  tableBelow := by decide
  dataFits := by decide

end ZyOs.Fs
