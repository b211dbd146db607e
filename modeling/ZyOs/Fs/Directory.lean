import ZyOs.Fs.Volume

/-!
Contract: the entries of a directory on the disk: `create_dir_entry`,
`sync_dir_entry` and `delete_dir_entry`, and the part of `sys_mkdir` that makes a
directory.

Owns:
- the 24 bytes of `struct dir_entry`;
- the blocks of a directory: twelve direct ones, and a table of 128 more.

`sync_dir_entry` does not read the table: it looks at the direct blocks, and
allocates a table and a block when they are full. `delete_dir_entry` does not end
when it has to count the blocks of the table.

A result of `none` is a failed `ASSERT`, or a loop that does not end.
-/

namespace ZyOs.Fs

open ZyOs.Kernel
open InodeTable (Inode)

/-! ### Entries -/

/-- The bytes of an entry in memory. -/
def DirEntry.bytes (entry : DirEntry) : Buf := fun i =>
  if i < maxFileNameLen then entry.filename.getD i 0
  else wordsBuf (fun idx => if idx = 4 then entry.iNo else entry.fType.value) i

/-- `create_dir_entry`, into an entry that is zero. -/
def createDirEntry (filename : List UInt8) (inodeNo : Nat) (fileType : FileTypes) :
    Option DirEntry :=
  if filename.length ≤ maxFileNameLen then
    some ⟨filename ++ List.replicate (maxFileNameLen - filename.length) 0, inodeNo, fileType⟩
  else
    none

/-- `SECTOR_SIZE / dir_entry_size`. -/
def dirEntrysPerSec : Nat := sectorSize / dirEntrySize

/-- `(dir_e + idx)->f_type`. -/
def fTypeAt (buf : Buf) (idx : Nat) : Nat := word buf (idx * dirEntrySize + 20)

/-! ### Blocks -/

theorem sectorIdx_lt (idx : Nat) : idx % 13 < 13 := Nat.mod_lt idx (by decide)

/-- An index of `i_sectors`. -/
def sectorIdx (idx : Nat) : Fin 13 := ⟨idx % 13, sectorIdx_lt idx⟩

/-- `inode->i_sectors[idx]`. -/
def sectorOf (inode : Inode) (idx : Nat) : Nat := (inode.iSectors (sectorIdx idx)).toNat

def setSector (inode : Inode) (idx lba : Nat) : Inode :=
  { inode with iSectors := Function.update inode.iSectors (sectorIdx idx) (UInt32.ofNat lba) }

/-- The inode, as far as a search uses it. -/
def searchInode (inode : Inode) : DirInode where
  iNo := inode.iNo.toNat
  iOpenCnts := inode.iOpenCnts.toNat
  iSectors := (List.range 13).map (sectorOf inode)

/-- The direct blocks, as `sync_dir_entry` collects them. -/
def directBlocks (inode : Inode) : List Nat := (List.range 12).map (sectorOf inode)

/-- The 128 words behind the direct blocks of `all_blocks`. -/
def tableBuf (allBlocks : List Nat) : Buf := wordsBuf fun i => allBlocks.getD (12 + i) 0

/-! ### `sync_dir_entry` -/

/-- The new block of `sync_dir_entry`: its address goes into the inode, or with a
new table into the inode, or into the table. -/
def addBlock (part : Volume) (dirInode : Inode) (allBlocks : List Nat) (blockIdx : Nat) :
    Option (Volume × Inode × Option Nat) := do
  let (part, blockLba) ← part.blockBitmapAlloc
  match blockLba with
  | none => return (part, dirInode, none)
  | some blockLba =>
      let part := part.bitmapSync (blockLba - part.dataStartLba) .block
      if blockIdx < 12 then
        return (part, setSector dirInode blockIdx blockLba, some blockLba)
      else if blockIdx = 12 then
        let dirInode := setSector dirInode 12 blockLba
        let (part, blockLba) ← part.blockBitmapAlloc
        match blockLba with
        | none =>
            let part := part.setBlockBit (sectorOf dirInode 12 - part.dataStartLba) false
            return (part, setSector dirInode 12 0, none)
        | some blockLba =>
            let part := part.bitmapSync (blockLba - part.dataStartLba) .block
            let part := part.ideWrite (sectorOf dirInode 12) (tableBuf (allBlocks.set 12 blockLba))
            return (part, dirInode, some blockLba)
      else
        let part := part.ideWrite (sectorOf dirInode 12) (tableBuf (allBlocks.set blockIdx blockLba))
        return (part, dirInode, some blockLba)

/-- The loop of `sync_dir_entry`, over the indices of the blocks that are left. -/
def syncLoop (part : Volume) (dirInode : Inode) (pDe : DirEntry) (allBlocks : List Nat) :
    List Nat → Option (Volume × Inode × Bool)
  | [] => some (part, dirInode, false)
  | blockIdx :: rest =>
      let lba := allBlocks.getD blockIdx 0
      if lba = 0 then do
        let (part, dirInode, blockLba) ← addBlock part dirInode allBlocks blockIdx
        match blockLba with
        | none => return (part, dirInode, false)
        | some blockLba =>
            let ioBuf := memcpy (fun _ => 0) 0 pDe.bytes dirEntrySize
            return (part.ideWrite blockLba ioBuf,
              { dirInode with iSize := dirInode.iSize + UInt32.ofNat dirEntrySize }, true)
      else
        let ioBuf := ideRead part.disk lba 1
        match (List.range dirEntrysPerSec).find? fun idx => fTypeAt ioBuf idx = 0 with
        | some idx =>
            some (part.ideWrite lba (memcpy ioBuf (idx * dirEntrySize) pDe.bytes dirEntrySize),
              { dirInode with iSize := dirInode.iSize + UInt32.ofNat dirEntrySize }, true)
        | none => syncLoop part dirInode pDe allBlocks rest

/-- `sync_dir_entry`; the words of `all_blocks` behind the direct blocks are zero. -/
def syncDirEntry (part : Volume) (dirInode : Inode) (pDe : DirEntry) :
    Option (Volume × Inode × Bool) :=
  if dirInode.iSize.toNat % dirEntrySize = 0 then
    syncLoop part dirInode pDe (directBlocks dirInode ++ List.replicate 128 0) (List.range 140)
  else
    none

/-! ### `delete_dir_entry` -/

/-- Why `delete_dir_entry` has not returned. -/
inductive Stop where
  | assert
  | fuel
deriving DecidableEq

/-- A result of `none` is a failed `ASSERT`. -/
def orAssert {α : Type} : Option α → Except Stop α
  | none => .error .assert
  | some a => .ok a

/-- A result of `none` is a loop that is not over. -/
def orFuel {α : Type} : Option α → Except Stop α
  | none => .error .fuel
  | some a => .ok a

/-- What `delete_dir_entry` finds in a sector. -/
structure SectorScan where
  dirEntryCnt : Nat
  isDirFirstBlock : Bool
  dirEntryFound : Option Nat

/-- The loop of `delete_dir_entry` over the entries of a sector. -/
def scanSector (ioBuf : Buf) (inodeNo : Nat) : List Nat → SectorScan → Option SectorScan
  | [], scan => some scan
  | idx :: rest, scan =>
      let entry := dirEntryAt ioBuf idx
      if fTypeAt ioBuf idx ≠ 0 then
        if entry.name = [dot] then
          scanSector ioBuf inodeNo rest { scan with isDirFirstBlock := true }
        else if entry.name ≠ [dot] ∧ entry.name ≠ [dot, dot] then
          if entry.iNo = inodeNo then
            if scan.dirEntryFound = none then
              scanSector ioBuf inodeNo rest
                { scan with dirEntryCnt := scan.dirEntryCnt + 1, dirEntryFound := some idx }
            else
              none
          else
            scanSector ioBuf inodeNo rest { scan with dirEntryCnt := scan.dirEntryCnt + 1 }
        else
          scanSector ioBuf inodeNo rest scan
      else
        scanSector ioBuf inodeNo rest scan

/-- The loop that counts the blocks of the table, for `fuel` passes; its index
stays the same. -/
def countIndirect (allBlocks : List Nat) : Nat → (indirectBlockIdx indirectBlocks : Nat) → Option Nat
  | 0, _, _ => none
  | fuel + 1, indirectBlockIdx, indirectBlocks =>
      if indirectBlockIdx < 140 then
        countIndirect allBlocks fuel indirectBlockIdx
          (if allBlocks.getD indirectBlockIdx 0 ≠ 0 then indirectBlocks + 1 else indirectBlocks)
      else
        some indirectBlocks

/-- The block of the entry is given back. -/
def dropRun (fuel : Nat) (part : Volume) (dirInode : Inode) (allBlocks : List Nat) (blockIdx : Nat) :
    Except Stop (Volume × Inode) := do
  let blockBitmapIdx := allBlocks.getD blockIdx 0 - part.dataStartLba
  let part := (part.setBlockBit blockBitmapIdx false).bitmapSync blockBitmapIdx .block
  if blockIdx < 12 then
    return (part, setSector dirInode blockIdx 0)
  else
    let indirectBlocks ← orFuel (countIndirect allBlocks fuel 12 0)
    orAssert (guard (1 ≤ indirectBlocks))
    if 1 < indirectBlocks then
      return (part.ideWrite (sectorOf dirInode 12) (tableBuf (allBlocks.set blockIdx 0)), dirInode)
    else
      let blockBitmapIdx := sectorOf dirInode 12 - part.dataStartLba
      let part := (part.setBlockBit blockBitmapIdx false).bitmapSync blockBitmapIdx .block
      return (part, setSector dirInode 12 0)

/-- The inode with one entry less. -/
def subEntrySize (inode : Inode) : Inode :=
  { inode with iSize := inode.iSize - UInt32.ofNat dirEntrySize }

/-- The volume after a slot is cleared. -/
def Volume.clearEntry (part : Volume) (lba idx : Nat) : Volume :=
  part.ideWrite lba (memset (ideRead part.disk lba 1) (idx * dirEntrySize) 0 dirEntrySize)

/-- The end of `delete_dir_entry`, once the entry is gone. -/
def finishDelete (part : Volume) (inode : Inode) : Option (Volume × Inode × Bool) := do
  guard (dirEntrySize ≤ inode.iSize.toNat)
  let part ← part.inodeSync (subEntrySize inode)
  return (part, subEntrySize inode, true)

/-- The entry is taken away, and its block when it was the only one there. -/
def takeOutRun (fuel : Nat) (part : Volume) (dirInode : Inode) (allBlocks : List Nat)
    (blockIdx : Nat) (scan : SectorScan) (idx : Nat) : Except Stop (Volume × Inode) :=
  if scan.dirEntryCnt = 1 ∧ scan.isDirFirstBlock = false then
    dropRun fuel part dirInode allBlocks blockIdx
  else
    .ok (part.clearEntry (allBlocks.getD blockIdx 0) idx, dirInode)

/-- What the loop does in the block where it finds the entry. -/
def deleteAtRun (fuel : Nat) (part : Volume) (dirInode : Inode) (allBlocks : List Nat)
    (blockIdx : Nat) (scan : SectorScan) (idx : Nat) : Except Stop (Volume × Inode × Bool) := do
  orAssert (guard (1 ≤ scan.dirEntryCnt))
  let result ← takeOutRun fuel part dirInode allBlocks blockIdx scan idx
  orAssert (finishDelete result.1 result.2)

/-- The loop of `delete_dir_entry`, over the indices of the blocks that are left. -/
def deleteLoopRun (fuel : Nat) (part : Volume) (dirInode : Inode) (inodeNo : Nat)
    (allBlocks : List Nat) : List Nat → Except Stop (Volume × Inode × Bool)
  | [] => .ok (part, dirInode, false)
  | blockIdx :: rest =>
      let lba := allBlocks.getD blockIdx 0
      if lba = 0 then
        deleteLoopRun fuel part dirInode inodeNo allBlocks rest
      else
        match scanSector (ideRead part.disk lba 1) inodeNo (List.range dirEntrysPerSec) ⟨0, false, none⟩ with
        | none => .error .assert
        | some scan =>
            match scan.dirEntryFound with
            | none => deleteLoopRun fuel part dirInode inodeNo allBlocks rest
            | some idx => deleteAtRun fuel part dirInode allBlocks blockIdx scan idx

/-- `delete_dir_entry`, with its two ways not to return apart. -/
def deleteRun (fuel : Nat) (part : Volume) (dirInode : Inode) (inodeNo : Nat) :
    Except Stop (Volume × Inode × Bool) :=
  deleteLoopRun fuel part dirInode inodeNo (allBlocks part.disk (searchInode dirInode)) (List.range 140)

/-- What is left of these when the two ways not to return are one. -/
def dropBlock (fuel : Nat) (part : Volume) (dirInode : Inode) (allBlocks : List Nat)
    (blockIdx : Nat) : Option (Volume × Inode) :=
  (dropRun fuel part dirInode allBlocks blockIdx).toOption

def deleteLoop (fuel : Nat) (part : Volume) (dirInode : Inode) (inodeNo : Nat)
    (allBlocks idxs : List Nat) : Option (Volume × Inode × Bool) :=
  (deleteLoopRun fuel part dirInode inodeNo allBlocks idxs).toOption

/-- `delete_dir_entry`. -/
def deleteDirEntry (fuel : Nat) (part : Volume) (dirInode : Inode) (inodeNo : Nat) :
    Option (Volume × Inode × Bool) :=
  (deleteRun fuel part dirInode inodeNo).toOption

/-! ### A new directory -/

/-- `inode_init`. -/
def inodeInit (inodeNo : Nat) : Inode :=
  ⟨UInt32.ofNat inodeNo, 0, 0, 0, fun _ => 0, 0, 0⟩

/-- The inode of a new directory with its block, and the entries `.` and `..` in
the block. -/
def initDirectory (part : Volume) (inodeNo parentNo blockLba : Nat) : Option (Volume × Inode) := do
  let newDirInode := setSector (inodeInit inodeNo) 0 blockLba
  let blockBitmapIdx := blockLba - part.dataStartLba
  guard (blockBitmapIdx ≠ 0)
  let part := part.bitmapSync blockBitmapIdx .block
  let self ← createDirEntry [dot] inodeNo .directory
  let up ← createDirEntry [dot, dot] parentNo .directory
  let ioBuf := memcpy (memcpy (fun _ => 0) 0 self.bytes dirEntrySize) dirEntrySize up.bytes dirEntrySize
  let part := part.ideWrite blockLba ioBuf
  return (part, { newDirInode with iSize := UInt32.ofNat (2 * dirEntrySize) })

/-- The part of `sys_mkdir` that gives the new inode its block. -/
def makeDirectory (part : Volume) (inodeNo parentNo : Nat) : Option (Volume × Inode) := do
  let (part, blockLba) ← part.blockBitmapAlloc
  let blockLba ← blockLba
  initDirectory part inodeNo parentNo blockLba

end ZyOs.Fs
