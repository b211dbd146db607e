import ZyOs.Fs.Disk

/-!
Contract: `partition_scan`, and the loop of `ide_init` over the disks.

Owns:
- the partition table in a boot sector;
- the globals `ext_lba_base`, `p_no` and `l_no`, which every frame of the
  recursion and every disk share;
- what is recorded in `struct disk` and in `partition_list`, and the sectors that
  are read.

The tables lead the recursion, so it has fuel. An index past the end of
`prim_parts` or `logic_parts` ends the scan, as a failed `ASSERT` does.

Does not own: the buffer of a sector, `identify_disk`, the channel.
-/

namespace ZyOs.Device

open Fs

/-! ### Tables -/

/-- `struct partition_table_entry`, without heads, sectors and cylinders. -/
structure PartitionTableEntry where
  fsType : UInt8
  startLba : Nat
  secCnt : Nat
deriving DecidableEq

/-- `max_lba`. -/
def maxLba : Nat := 80 * 1024 * 1024 / 512 - 1

/-- An entry of `partition_table` in a `struct boot_sector`. -/
def tableEntryAt (bs : Buf) (partIdx : Nat) : PartitionTableEntry :=
  let off := 446 + 16 * partIdx
  ⟨bs (off + 4), word bs (off + 8), word bs (off + 12)⟩

def partitionTable (disk : Disk) (lba : Nat) : List PartitionTableEntry :=
  (List.range 4).map (tableEntryAt (ideRead disk lba 1))

/-- The sum of two `uint32_t`. -/
def addLba (base off : Nat) : Nat := (base + off) % 2 ^ 32

/-! ### The scan -/

/-- `struct partition`: what the scan sets. The name is the disk's with this number
behind it. -/
structure Partition where
  startLba : Nat
  secCnt : Nat
  myDisk : Nat
  number : Nat
deriving DecidableEq

/-- A `part_tag`: the disk, and the index in `prim_parts` or in `logic_parts`. -/
inductive PartTag where
  | prim (hd idx : Nat)
  | logic (hd idx : Nat)
deriving DecidableEq

/-- The globals, the record of the disk, and the sectors read from it so far. -/
structure Scan where
  extLbaBase : Nat
  pNo : Nat
  lNo : Nat
  primParts : Nat → Option Partition
  logicParts : Nat → Option Partition
  partitionList : List PartTag
  reads : List Nat

/-- Why a scan does not return. -/
inductive ScanStop where
  | outOfFuel
  | assertFailed
  | outside
deriving DecidableEq

/-- A primary partition is entered in `prim_parts`. -/
def Scan.addPrim (s : Scan) (hd extLba : Nat) (p : PartitionTableEntry) : Scan :=
  { s with
    primParts := Function.update s.primParts s.pNo
      (some ⟨addLba extLba p.startLba, p.secCnt, hd, s.pNo + 1⟩)
    partitionList := s.partitionList ++ [.prim hd s.pNo]
    pNo := s.pNo + 1 }

/-- A logical partition is entered in `logic_parts`. -/
def Scan.addLogic (s : Scan) (hd extLba : Nat) (p : PartitionTableEntry) : Scan :=
  { s with
    logicParts := Function.update s.logicParts s.lNo
      (some ⟨addLba extLba p.startLba, p.secCnt, hd, s.lNo + 5⟩)
    partitionList := s.partitionList ++ [.logic hd s.lNo]
    lNo := s.lNo + 1 }

/-- The branch for a primary partition. -/
def recordPrim (hd extLba : Nat) (p : PartitionTableEntry) (s : Scan) : Except ScanStop Scan :=
  if s.pNo < 4 then
    let s := s.addPrim hd extLba p
    if s.pNo < 4 then .ok s else .error .assertFailed
  else
    .error .outside

/-- The branch for a logical partition, up to the test of `l_no`. -/
def recordLogic (hd extLba : Nat) (p : PartitionTableEntry) (s : Scan) : Except ScanStop Scan :=
  if s.lNo < 8 then .ok (s.addLogic hd extLba p) else .error .outside

/-- The loop of `partition_scan`, with the entries that are left; `scan` is the
recursive call. -/
def scanEntries (scan : Nat → Scan → Except ScanStop Scan) (hd extLba : Nat) :
    List PartitionTableEntry → Scan → Except ScanStop Scan
  | [], s => .ok s
  | p :: rest, s =>
      if p.fsType = 5 then do
        let s ← if s.extLbaBase ≠ 0 then scan (addLba p.startLba s.extLbaBase) s
          else scan p.startLba { s with extLbaBase := p.startLba }
        scanEntries scan hd extLba rest s
      else if p.fsType ≠ 0 then
        if extLba = 0 then do
          let s ← recordPrim hd extLba p s
          scanEntries scan hd extLba rest s
        else do
          let s ← recordLogic hd extLba p s
          if s.lNo ≥ 8 then return s else scanEntries scan hd extLba rest s
      else
        scanEntries scan hd extLba rest s

/-- `partition_scan`. -/
def partitionScan (disk : Disk) (hd : Nat) : Nat → Nat → Scan → Except ScanStop Scan
  | 0, _, _ => .error .outOfFuel
  | fuel + 1, extLba, s =>
      if extLba ≤ maxLba then
        scanEntries (partitionScan disk hd fuel) hd extLba (partitionTable disk extLba)
          { s with reads := s.reads ++ [extLba] }
      else
        .error .assertFailed

/-- The state in which `ide_init` scans a disk. -/
def scanStart (extLbaBase : Nat) (partitionList : List PartTag) : Scan where
  extLbaBase := extLbaBase
  pNo := 0
  lNo := 0
  primParts _ := none
  logicParts _ := none
  partitionList := partitionList
  reads := []

/-- The scans of `ide_init`, one disk after the other. -/
def scanDisks (fuel : Nat) : List (Nat × Disk) → Nat → List PartTag → Except ScanStop (List Scan)
  | [], _, _ => .ok []
  | (hd, disk) :: rest, extLbaBase, partitionList => do
      let s ← partitionScan disk hd fuel 0 (scanStart extLbaBase partitionList)
      let others ← scanDisks fuel rest s.extLbaBase s.partitionList
      return s :: others

/-- `ide_init`: of the two disks on a channel only the second is scanned. -/
def ideInit (fuel hdCnt : Nat) (devices : Nat → Nat → Disk) : Except ScanStop (List Scan) :=
  if hdCnt > 0 then
    scanDisks fuel ((List.range ((hdCnt + 1) / 2)).map fun channelNo =>
      (channelNo * 2 + 1, devices channelNo 1)) 0 []
  else
    .error .assertFailed

end ZyOs.Device
