import Mathlib.Logic.Relation
import ZyOs.Fs.Format
import ZyOs.Fs.FileLimits
import ZyOs.Fs.HeapRuns

/-!
Contract: the buffers of `ide_read` and `ide_write`: how many sectors a transfer
moves, and how many bytes its buffer has from there on.

Owns:
- the transfers of each function of the file system, and the functions that it calls,
  with the buffers that it passes on;
- `Inside`: whatever an operation comes to stays in its buffer, and an inode in two
  sectors has two sectors of buffer in `inode_sync` and `inode_delete`;
- the operations that this holds of.

A function stands for its calls, with the arguments that decide how much is moved:
inode numbers and the sizes of buffers. A call is listed with all the arguments that it
may have, whether or not a run comes there. The one whose buffer can be too small is
listed for the inodes for which a run of `sys_write` comes there.

Does not own: an allocation that fails. A buffer is one that `sys_malloc` has returned,
on the stack, or in a structure. The super block that is mounted was written by
`partition_format`, and the block of a file or of a directory has a bit in the bitmap.
-/

namespace ZyOs.Fs.Calls

open ZyOs.Kernel ZyOs.Memory ZyOs.Lib
open Format (formatBufSize)

/-- An `ide_read` or an `ide_write` of `secCnt` sectors, through a pointer with `room`
bytes of its buffer behind it. -/
structure Transfer where
  secCnt : Nat
  room : Nat
deriving DecidableEq, Repr

def Transfer.Fits (transfer : Transfer) : Prop := transfer.secCnt * sectorSize ≤ transfer.room

/-- An operation of the file system that uses the disk. A `sys_write` is to a file with
this inode number. -/
inductive FsOperation where
  | filesysInit
  | sysOpen
  | sysRead
  | sysWrite (iNo : UInt32)
  | sysUnlink
  | sysMkdir
  | sysRmdir
  | sysOpendir
  | sysReaddir
  | sysChdir
  | sysStat
  | sysGetcwd

/-- A function that transfers sectors or calls one that does; `ioBuf` is the size of the
buffer that it is given. -/
inductive FsFunction where
  | operation (op : FsOperation)
  | partitionFormat (part : Format.RawPartition)
  | mountPartition (part : Format.RawPartition)
  | openRootDir
  | searchFile
  | fileCreate
  | fileOpen (inodeNo : Nat)
  | fileWrite (iNo : UInt32)
  | fileRead
  | dirOpen (inodeNo : Nat)
  | searchDirEntry
  | syncDirEntry (ioBuf : Nat)
  | deleteDirEntry (ioBuf : Nat)
  | dirRead
  | dirRemove
  | getParentDirInodeNr (ioBuf : Nat)
  | getChildDirName (ioBuf : Nat)
  | inodeSync (iNo : UInt32) (ioBuf : Nat)
  | inodeDelete (inodeNo ioBuf : Nat)
  | inodeOpen (inodeNo : Nat)
  | inodeRelease (inodeNo : Nat)
  | bitmapSync (bitIdx bytesLen : Nat)

/-! ### Transfers -/

/-- `all_blocks`: 140 words. -/
def allBlocksSize : Nat := 140 * 4

/-- The indirect block table, behind the twelve words for the direct blocks. -/
def tableTransfer : Transfer := ⟨1, allBlocksSize - 12 * 4⟩

/-- The sectors of an inode; where the inode table starts plays no part in their number. -/
def slotTransfer (n ioBuf : Nat) : List Transfer :=
  ((inodeLocate 0 n).map fun pos => ⟨InodeTable.secs pos, ioBuf⟩).toList

/-- The sectors of an inode, with the buffer that `inode_open` allocates for them. -/
def openTransfer (n : Nat) : List Transfer :=
  ((inodeLocate 0 n).map fun pos => ⟨InodeTable.secs pos, if pos.twoSec then 1024 else 512⟩).toList

/-- The size of a bitmap that `mount_partition` allocates. -/
def bitmapSize (sects : Nat) : Nat := sects * sectorSize % 2 ^ 32

/-- The transfers of a function; a buffer that is read and written is listed once. -/
def FsFunction.transfers : FsFunction → List Transfer
  | .operation .filesysInit => [⟨1, sectorSize⟩]
  | .operation .sysMkdir => [⟨1, sectorSize * 2⟩]
  | .operation _ => []
  | .partitionFormat part =>
      let sb := Format.superBlock part
      let bufSize := formatBufSize sb
      -- the super block itself has 512 bytes
      [⟨1, 512⟩, ⟨sb.blockBitmapSects, bufSize⟩, ⟨sb.inodeBitmapSects, bufSize⟩,
        ⟨sb.inodeTableSects, bufSize⟩, ⟨1, bufSize⟩]
  | .mountPartition part =>
      let sb := Format.superBlock part
      [⟨1, sectorSize⟩, ⟨sb.blockBitmapSects, bitmapSize sb.blockBitmapSects⟩,
        ⟨sb.inodeBitmapSects, bitmapSize sb.inodeBitmapSects⟩]
  | .openRootDir | .searchFile | .fileCreate | .fileOpen _ | .dirOpen _ | .dirRemove => []
  | .fileWrite _ | .fileRead => [tableTransfer, ⟨1, blockSize⟩]
  | .searchDirEntry => [tableTransfer, ⟨1, sectorSize⟩]
  | .syncDirEntry ioBuf | .deleteDirEntry ioBuf | .getChildDirName ioBuf =>
      [tableTransfer, ⟨1, ioBuf⟩]
  -- into `dir_buf`
  | .dirRead => [tableTransfer, ⟨1, 512⟩]
  | .getParentDirInodeNr ioBuf => [⟨1, ioBuf⟩]
  | .inodeSync iNo ioBuf => slotTransfer (UInt8.ofNat iNo.toNat).toNat ioBuf
  | .inodeDelete inodeNo ioBuf => slotTransfer inodeNo ioBuf
  | .inodeOpen inodeNo => openTransfer inodeNo
  | .inodeRelease _ => [tableTransfer]
  | .bitmapSync bitIdx bytesLen => [⟨1, bytesLen - bitIdx / 4096 * blockSize⟩]

/-! ### Calls -/

/-- `bitmap_sync` for a bit of a bitmap. -/
def bitmapSyncs : Set FsFunction :=
  {f | ∃ bitIdx sects, bitIdx < sects * Format.bitsPerSector ∧
    f = .bitmapSync bitIdx (sects * sectorSize)}

/-- Some `sys_write` to a file with this inode number comes to the end of `file_write`. -/
def WriteReturns (iNo : UInt32) : Prop :=
  ∃ s fd globalFd ptr buf count written s', s.fdTable s.cur fd.toNat = some globalFd ∧
    (s.fileTable globalFd).fdInode = some ptr ∧ (s.inode ptr).node.iNo = iNo ∧ 2 < fd ∧
    sysWrite fd buf count s = some (some written, s')

/-- The functions that a function calls. -/
def FsFunction.callees : FsFunction → Set FsFunction
  | .operation .filesysInit =>
      Set.range .partitionFormat ∪ Set.range .mountPartition ∪ {.openRootDir}
  | .operation .sysOpen => {.searchFile, .fileCreate} ∪ Set.range .fileOpen
  | .operation .sysRead => {.fileRead}
  | .operation (.sysWrite iNo) => {.fileWrite iNo}
  | .operation .sysUnlink =>
      {.searchFile, .deleteDirEntry (sectorSize + sectorSize)} ∪ Set.range .inodeRelease
  | .operation .sysMkdir =>
      {.searchFile, .syncDirEntry (sectorSize * 2)} ∪
        (Set.range fun iNo => .inodeSync iNo (sectorSize * 2)) ∪ bitmapSyncs
  | .operation .sysRmdir => {.searchFile, .dirRemove} ∪ Set.range .dirOpen
  | .operation .sysOpendir => {.searchFile} ∪ Set.range .dirOpen
  | .operation .sysReaddir => {.dirRead}
  | .operation .sysChdir => {.searchFile}
  | .operation .sysStat => {.searchFile} ∪ Set.range .inodeOpen
  | .operation .sysGetcwd => {.getParentDirInodeNr sectorSize, .getChildDirName sectorSize}
  | .searchFile => {.searchDirEntry} ∪ Set.range .dirOpen
  | .fileCreate =>
      {.syncDirEntry 1024} ∪ (Set.range fun iNo => .inodeSync iNo 1024) ∪ bitmapSyncs
  | .fileWrite iNo => {f | WriteReturns iNo ∧ f = .inodeSync iNo blockSize} ∪ bitmapSyncs
  | .openRootDir => {.inodeOpen 0}
  | .fileOpen inodeNo | .dirOpen inodeNo => {.inodeOpen inodeNo}
  | .syncDirEntry _ => bitmapSyncs
  | .deleteDirEntry ioBuf => (Set.range fun iNo => .inodeSync iNo ioBuf) ∪ bitmapSyncs
  | .dirRemove => {.deleteDirEntry (sectorSize * 2)} ∪ Set.range .inodeRelease
  | .getParentDirInodeNr _ | .getChildDirName _ => Set.range .inodeOpen
  | .inodeRelease inodeNo => {.inodeOpen inodeNo, .inodeDelete inodeNo 1024} ∪ bitmapSyncs
  | .partitionFormat _ | .mountPartition _ | .fileRead | .searchDirEntry | .dirRead
  | .inodeSync _ _ | .inodeDelete _ _ | .inodeOpen _ | .bitmapSync _ _ => ∅

/-- What a function comes to by calls. -/
def FsFunction.Reaches : FsFunction → FsFunction → Prop :=
  Relation.ReflTransGen fun f g => g ∈ f.callees

/-- The inode does not end in the sector in which it starts. -/
def Straddles (n : Nat) : Prop := 512 - n * inodeSize % 512 < inodeSize

instance (n : Nat) : Decidable (Straddles n) := inferInstanceAs (Decidable (_ < _))

/-- Two sectors of buffer for an inode in two sectors. -/
def FsFunction.HasRoom : FsFunction → Prop
  | .inodeSync iNo ioBuf => Straddles iNo.toNat → 1024 ≤ ioBuf
  | .inodeDelete inodeNo ioBuf => Straddles inodeNo → 1024 ≤ ioBuf
  | _ => True

/-- All that a function comes to stays in its buffers. -/
structure FsFunction.Inside (f : FsFunction) : Prop where
  fits : ∀ g, f.Reaches g → ∀ transfer ∈ g.transfers, transfer.Fits
  hasRoom : ∀ g, f.Reaches g → g.HasRoom

/-- A write to a file whose inode is in two sectors. -/
def FsOperation.WritesStraddling : FsOperation → Prop
  | .sysWrite iNo => Straddles iNo.toNat
  | _ => False

/-! ### From the callees to the caller -/

namespace FsFunction

variable {f g : FsFunction} {n ioBuf inodeNo : Nat} {iNo : UInt32}

/-- A function stays in its buffers when it does so itself and its callees do. -/
theorem inside_iff : f.Inside ↔
    (∀ transfer ∈ f.transfers, transfer.Fits) ∧ f.HasRoom ∧ ∀ g ∈ f.callees, g.Inside := by
  constructor
  · intro inside
    refine ⟨inside.fits f .refl, inside.hasRoom f .refl, fun g isCallee => ⟨?_, ?_⟩⟩
    · exact fun h reaches => inside.fits h (.head isCallee reaches)
    · exact fun h reaches => inside.hasRoom h (.head isCallee reaches)
  · intro ⟨fits, hasRoom, callees⟩
    refine ⟨fun h reaches => ?_, fun h reaches => ?_⟩
    · cases reaches.cases_head with
      | inl same =>
          rw [← same]
          exact fits
      | inr first =>
          obtain ⟨g, isCallee, rest⟩ := first
          exact (callees g isCallee).fits h rest
    · cases reaches.cases_head with
      | inl same =>
          rw [← same]
          exact hasRoom
      | inr first =>
          obtain ⟨g, isCallee, rest⟩ := first
          exact (callees g isCallee).hasRoom h rest

theorem Inside.callee (inside : f.Inside) (isCallee : g ∈ f.callees) : g.Inside :=
  (inside_iff.mp inside).2.2 g isCallee

theorem tableTransfer_fits : tableTransfer.Fits := by
  show 1 * 512 ≤ 140 * 4 - 12 * 4
  decide

theorem sector_fits (room : 512 ≤ ioBuf) : (⟨1, ioBuf⟩ : Transfer).Fits := by
  simpa [Transfer.Fits, sectorSize] using room

/-! ### Inodes -/

/-- An inode and the one in whose slot `inode_sync` puts it straddle alike. -/
theorem straddles_slot (iNo : UInt32) :
    Straddles (UInt8.ofNat iNo.toNat).toNat ↔ Straddles iNo.toNat := by
  have slot : (UInt8.ofNat iNo.toNat).toNat = iNo.toNat % 256 := UInt8.toNat_ofNat
  rw [slot]
  -- 256 inodes take 38 whole sectors
  have sameOffset : iNo.toNat % 256 * 76 % 512 = iNo.toNat * 76 % 512 := by omega
  simp only [Straddles, inodeSize, sameOffset]

theorem slotTransfer_fits_iff (inTable : n < 4096) :
    (∀ transfer ∈ slotTransfer n ioBuf, transfer.Fits) ↔
      512 ≤ ioBuf ∧ (Straddles n → 1024 ≤ ioBuf) := by
  simp only [slotTransfer, inodeLocate, if_pos inTable, Option.map_some, Option.toList_some,
    List.mem_singleton, forall_eq, Transfer.Fits, InodeTable.secs, sectorSize, decide_eq_true_eq]
  by_cases straddles : Straddles n
  · have twoSec : 512 - n * inodeSize % 512 < inodeSize := straddles
    rw [if_pos twoSec]
    simp only [straddles, forall_const]
    omega
  · have oneSec : ¬ 512 - n * inodeSize % 512 < inodeSize := straddles
    rw [if_neg oneSec]
    simp only [straddles, false_implies, and_true]

theorem inodeSync_inside_iff :
    (inodeSync iNo ioBuf).Inside ↔ 512 ≤ ioBuf ∧ (Straddles iNo.toNat → 1024 ≤ ioBuf) := by
  have inTable : (UInt8.ofNat iNo.toNat).toNat < 4096 := by
    have byte := (UInt8.ofNat iNo.toNat).toNat_lt
    omega
  have slot := @slotTransfer_fits_iff _ ioBuf inTable
  rw [straddles_slot] at slot
  rw [inside_iff]
  constructor
  · exact fun inside => slot.mp inside.1
  · intro room
    exact ⟨slot.mpr room, room.2, fun g isCallee => isCallee.elim⟩

theorem inodeDelete_inside (room : 1024 ≤ ioBuf) : (inodeDelete inodeNo ioBuf).Inside := by
  refine inside_iff.mpr ⟨?_, fun _ => room, fun g isCallee => isCallee.elim⟩
  by_cases inTable : inodeNo < 4096
  · exact (slotTransfer_fits_iff inTable).mpr ⟨by omega, fun _ => room⟩
  · intro transfer isTransfer
    simp [transfers, slotTransfer, inodeLocate, if_neg inTable] at isTransfer

/-- `inode_open` allocates what it reads. -/
theorem inodeOpen_inside (inodeNo : Nat) : (inodeOpen inodeNo).Inside := by
  refine inside_iff.mpr ⟨fun transfer isTransfer => ?_, trivial, fun g isCallee => isCallee.elim⟩
  obtain ⟨pos, _, rfl⟩ := Option.map_eq_some_iff.mp (Option.mem_toList.mp isTransfer)
  unfold Transfer.Fits InodeTable.secs
  cases pos.twoSec <;> decide

/-! ### Bitmaps and directories -/

theorem bitmapSyncs_inside (isSync : f ∈ bitmapSyncs) : f.Inside := by
  obtain ⟨bitIdx, sects, inBitmap, rfl⟩ := isSync
  refine inside_iff.mpr ⟨fun transfer isTransfer => ?_, trivial, fun g isCallee => isCallee.elim⟩
  obtain rfl := List.mem_singleton.mp isTransfer
  simp only [Format.bitsPerSector] at inBitmap
  simp only [Transfer.Fits, sectorSize, blockSize]
  omega

/-- A function that transfers nothing itself. -/
theorem inside_of_callees (transfers : f.transfers = []) (hasRoom : f.HasRoom)
    (callees : ∀ g ∈ f.callees, g.Inside) : f.Inside := by
  refine inside_iff.mpr ⟨?_, hasRoom, callees⟩
  rw [transfers]
  exact fun transfer isTransfer => absurd isTransfer List.not_mem_nil

/-- A function that transfers the table and whole sectors. -/
theorem inside_of_sectors (transfers : f.transfers = [tableTransfer, ⟨1, ioBuf⟩])
    (room : 512 ≤ ioBuf) (hasRoom : f.HasRoom) (callees : ∀ g ∈ f.callees, g.Inside) : f.Inside := by
  refine inside_iff.mpr ⟨?_, hasRoom, callees⟩
  rw [transfers]
  simp only [List.mem_cons, List.not_mem_nil, or_false, forall_eq_or_imp, forall_eq]
  exact ⟨tableTransfer_fits, sector_fits room⟩

theorem dirOpen_inside (inodeNo : Nat) : (dirOpen inodeNo).Inside := by
  refine inside_of_callees rfl trivial ?_
  rintro g rfl
  exact inodeOpen_inside inodeNo

theorem searchDirEntry_inside : searchDirEntry.Inside :=
  inside_of_sectors rfl (by decide) trivial fun _ isCallee => isCallee.elim

theorem syncDirEntry_inside (room : 512 ≤ ioBuf) : (syncDirEntry ioBuf).Inside :=
  inside_of_sectors rfl room trivial fun _ isSync => bitmapSyncs_inside isSync

theorem deleteDirEntry_inside (room : 1024 ≤ ioBuf) : (deleteDirEntry ioBuf).Inside := by
  refine inside_of_sectors rfl (by omega) trivial ?_
  rintro g (⟨iNo, rfl⟩ | isSync)
  · exact inodeSync_inside_iff.mpr ⟨by omega, fun _ => room⟩
  · exact bitmapSyncs_inside isSync

theorem inodeRelease_inside (inodeNo : Nat) : (inodeRelease inodeNo).Inside := by
  refine inside_iff.mpr ⟨?_, trivial, ?_⟩
  · intro transfer isTransfer
    rw [List.mem_singleton.mp isTransfer]
    exact tableTransfer_fits
  · rintro g ((rfl | rfl) | isSync)
    · exact inodeOpen_inside inodeNo
    · exact inodeDelete_inside (Nat.le_refl _)
    · exact bitmapSyncs_inside isSync

theorem dirRemove_inside : dirRemove.Inside := by
  refine inside_of_callees rfl trivial ?_
  rintro g (rfl | ⟨inodeNo, rfl⟩)
  · exact deleteDirEntry_inside (by decide)
  · exact inodeRelease_inside inodeNo

theorem searchFile_inside : searchFile.Inside := by
  refine inside_of_callees rfl trivial ?_
  rintro g (rfl | ⟨inodeNo, rfl⟩)
  · exact searchDirEntry_inside
  · exact dirOpen_inside inodeNo

theorem getParentDirInodeNr_inside (room : 512 ≤ ioBuf) : (getParentDirInodeNr ioBuf).Inside := by
  refine inside_iff.mpr ⟨?_, trivial, ?_⟩
  · intro transfer isTransfer
    rw [List.mem_singleton.mp isTransfer]
    exact sector_fits room
  · rintro g ⟨inodeNo, rfl⟩
    exact inodeOpen_inside inodeNo

theorem getChildDirName_inside (room : 512 ≤ ioBuf) : (getChildDirName ioBuf).Inside := by
  refine inside_of_sectors rfl room trivial ?_
  rintro g ⟨inodeNo, rfl⟩
  exact inodeOpen_inside inodeNo

/-! ### Files -/

theorem fileCreate_inside : fileCreate.Inside := by
  refine inside_of_callees rfl trivial ?_
  rintro g ((rfl | ⟨iNo, rfl⟩) | isSync)
  · exact syncDirEntry_inside (by decide)
  · exact inodeSync_inside_iff.mpr ⟨by decide, fun _ => Nat.le_refl _⟩
  · exact bitmapSyncs_inside isSync

theorem fileOpen_inside (inodeNo : Nat) : (fileOpen inodeNo).Inside := by
  refine inside_of_callees rfl trivial ?_
  rintro g rfl
  exact inodeOpen_inside inodeNo

theorem fileRead_inside : fileRead.Inside :=
  inside_of_sectors rfl (by decide) trivial fun _ isCallee => isCallee.elim

/-- The buffer of `file_write` is enough for an inode in one sector. -/
theorem fileWrite_inside_iff :
    (fileWrite iNo).Inside ↔ (WriteReturns iNo → ¬ Straddles iNo.toNat) := by
  constructor
  · intro inside returns straddles
    have synced := inside.callee (.inl ⟨returns, rfl⟩)
    exact absurd ((inodeSync_inside_iff.mp synced).2 straddles) (by decide)
  · intro oneSector
    refine inside_of_sectors rfl (by decide) trivial ?_
    rintro g (⟨returns, rfl⟩ | isSync)
    · exact inodeSync_inside_iff.mpr ⟨by decide, fun straddles => absurd straddles (oneSector returns)⟩
    · exact bitmapSyncs_inside isSync

/-! ### A new file system -/

theorem bitmapSize_eq {sects : Nat} (small : sects ≤ 2 ^ 20) : bitmapSize sects = sects * sectorSize := by
  unfold bitmapSize sectorSize
  omega

/-- The buffer of `partition_format` is as large as the largest of the three areas. -/
theorem formatBufSize_room {sb : Format.SuperBlock} (blockBitmap : sb.blockBitmapSects ≤ 2 ^ 20)
    (inodeBitmap : sb.inodeBitmapSects ≤ 2 ^ 20) (inodeTable : sb.inodeTableSects ≤ 2 ^ 20) :
    sb.blockBitmapSects * sectorSize ≤ formatBufSize sb ∧
      sb.inodeBitmapSects * sectorSize ≤ formatBufSize sb ∧
      sb.inodeTableSects * sectorSize ≤ formatBufSize sb := by
  unfold formatBufSize sectorSize
  dsimp only
  split <;> split <;> omega

theorem partitionFormat_inside (part : Format.RawPartition) : (partitionFormat part).Inside := by
  refine inside_iff.mpr ⟨?_, trivial, fun _ isCallee => isCallee.elim⟩
  have inodeBitmap : (Format.superBlock part).inodeBitmapSects = 1 :=
    show Format.inodeBitmapSects = 1 by decide
  have inodeTable : (Format.superBlock part).inodeTableSects = 608 :=
    show Format.inodeTableSects = 608 by decide
  obtain ⟨first, second, third⟩ := @formatBufSize_room (Format.superBlock part)
    (Format.blockBitmapSects_small part.secCnt) (by omega) (by omega)
  have one : 1 * sectorSize ≤ formatBufSize (Format.superBlock part) := by
    rw [inodeBitmap] at second
    exact second
  simp only [transfers, List.mem_cons, List.not_mem_nil, or_false, forall_eq_or_imp, forall_eq]
  exact ⟨sector_fits (Nat.le_refl _), first, second, third, one⟩

theorem mountPartition_inside (part : Format.RawPartition) : (mountPartition part).Inside := by
  refine inside_iff.mpr ⟨?_, trivial, fun _ isCallee => isCallee.elim⟩
  have inodeBitmap : (Format.superBlock part).inodeBitmapSects ≤ 2 ^ 20 :=
    show Format.inodeBitmapSects ≤ 2 ^ 20 by decide
  simp only [transfers, List.mem_cons, List.not_mem_nil, or_false, forall_eq_or_imp, forall_eq]
  refine ⟨sector_fits (Nat.le_refl _), ?_, ?_⟩
  · exact (bitmapSize_eq (Format.blockBitmapSects_small part.secCnt)).ge
  · exact (bitmapSize_eq inodeBitmap).ge

end FsFunction

/-! ### Operations -/

open FsFunction

theorem FsOperation.inside_of_reads {op : FsOperation} (reads : ∀ iNo, op ≠ .sysWrite iNo) :
    (FsFunction.operation op).Inside := by
  cases op with
  | filesysInit =>
      refine inside_iff.mpr ⟨?_, trivial, ?_⟩
      · intro transfer isTransfer
        rw [List.mem_singleton.mp isTransfer]
        exact sector_fits (Nat.le_refl _)
      · rintro g ((⟨part, rfl⟩ | ⟨part, rfl⟩) | rfl)
        · exact partitionFormat_inside part
        · exact mountPartition_inside part
        · refine inside_of_callees rfl trivial ?_
          rintro g rfl
          exact inodeOpen_inside 0
  | sysOpen =>
      refine inside_of_callees rfl trivial ?_
      rintro g ((rfl | rfl) | ⟨inodeNo, rfl⟩)
      · exact searchFile_inside
      · exact fileCreate_inside
      · exact fileOpen_inside inodeNo
  | sysRead =>
      refine inside_of_callees rfl trivial ?_
      rintro g rfl
      exact FsFunction.fileRead_inside
  | sysWrite iNo => exact absurd rfl (reads iNo)
  | sysUnlink =>
      refine inside_of_callees rfl trivial ?_
      rintro g ((rfl | rfl) | ⟨inodeNo, rfl⟩)
      · exact searchFile_inside
      · exact deleteDirEntry_inside (by decide)
      · exact inodeRelease_inside inodeNo
  | sysMkdir =>
      refine inside_iff.mpr ⟨?_, trivial, ?_⟩
      · intro transfer isTransfer
        rw [List.mem_singleton.mp isTransfer]
        exact sector_fits (by decide)
      · rintro g (((rfl | rfl) | ⟨iNo, rfl⟩) | isSync)
        · exact searchFile_inside
        · exact syncDirEntry_inside (by decide)
        · exact inodeSync_inside_iff.mpr ⟨by decide, fun _ => Nat.le_refl _⟩
        · exact bitmapSyncs_inside isSync
  | sysRmdir =>
      refine inside_of_callees rfl trivial ?_
      rintro g ((rfl | rfl) | ⟨inodeNo, rfl⟩)
      · exact searchFile_inside
      · exact dirRemove_inside
      · exact dirOpen_inside inodeNo
  | sysOpendir =>
      refine inside_of_callees rfl trivial ?_
      rintro g (rfl | ⟨inodeNo, rfl⟩)
      · exact searchFile_inside
      · exact dirOpen_inside inodeNo
  | sysReaddir =>
      refine inside_of_callees rfl trivial ?_
      rintro g rfl
      exact inside_of_sectors rfl (by decide) trivial fun _ isCallee => isCallee.elim
  | sysChdir =>
      refine inside_of_callees rfl trivial ?_
      rintro g rfl
      exact searchFile_inside
  | sysStat =>
      refine inside_of_callees rfl trivial ?_
      rintro g (rfl | ⟨inodeNo, rfl⟩)
      · exact searchFile_inside
      · exact inodeOpen_inside inodeNo
  | sysGetcwd =>
      refine inside_of_callees rfl trivial ?_
      rintro g (rfl | rfl)
      · exact getParentDirInodeNr_inside (by decide)
      · exact getChildDirName_inside (by decide)

/-! ### Writes that return -/

/-- A process with descriptor 3 for a new file. -/
def newFileState (iNo : UInt32) : State :=
  { bootState with
    inode := fun _ => ⟨inodeInit iNo.toNat, 1, true⟩
    fileTable := fun _ => ⟨0, 1, some kHeapStart⟩
    fdTable := fun _ _ => some 3 }

section

variable {s : State} {ptr : Ptr}

/-- A block of the user heap that `sys_malloc` answers with. -/
theorem malloc_user (user : s.pgdirNull s.cur = false) (isAnswer : s.answers s.asked = some ptr)
    (isFree : s.heap ptr = none) (inHeap : OpenFiles.inHeap false ptr) :
    malloc s = some (some ptr, { s with
      heap := Function.update s.heap ptr (some .user), asked := s.asked + 1 }) := by
  show sysMalloc (s.pgdirNull s.cur) s = _
  rw [user]
  unfold sysMalloc
  dsimp only
  rw [isAnswer]
  exact if_pos ⟨isFree, inHeap⟩

theorem free_user (user : s.pgdirNull s.cur = false) (inUse : s.heap ptr = some .user) :
    free ptr s = some ((), { s with heap := Function.update s.heap ptr none }) := by
  show sysFree (s.pgdirNull s.cur) ptr s = _
  rw [user]
  exact if_pos ⟨fun isKernel => absurd isKernel Bool.false_ne_true, inUse⟩

/-- `file_write` returns, when `sys_malloc` answers with two blocks and the data can be
written. -/
theorem fileWrite_returns {fdIdx : Nat} {buf : Buf} {count written : UInt32} {ioBuf allBlocks : Ptr}
    {part' : Volume} {file' : OpenFile} (user : s.pgdirNull s.cur = false)
    (refers : (s.fileTable fdIdx).fdInode = some ptr)
    (accepted : ¬ (s.inode ptr).node.iSize + count > maxFileSize)
    (first : s.answers s.asked = some ioBuf) (second : s.answers (s.asked + 1) = some allBlocks)
    (other : allBlocks ≠ ioBuf) (isFree : s.heap ioBuf = none) (isFree' : s.heap allBlocks = none)
    (inHeap : OpenFiles.inHeap false ioBuf) (inHeap' : OpenFiles.inHeap false allBlocks)
    (isData : writeData s.part ⟨(s.fileTable fdIdx).fdPos, (s.inode ptr).node⟩ buf count =
      some (part', file', some written)) :
    ∃ s', Calls.fileWrite fdIdx buf count s = some (some written, s') := by
  have found : deref (s.fileTable fdIdx).fdInode s = some (ptr, s) := by
    rw [refers]
    rfl
  have ioBufUsed : Function.update (Function.update s.heap ioBuf (some .user)) allBlocks (some .user) ioBuf =
      some .user := by
    rw [Function.update_of_ne other.symm, Function.update_self]
  have isPart (t : State) (same : t.part = s.part) :
      onPart (fun part => (writeData part ⟨(s.fileTable fdIdx).fdPos, (s.inode ptr).node⟩ buf count).map
        fun result => (result.1, result.2.1, result.2.2)) t =
          some ((file', some written), { t with part := part' }) := by
    unfold onPart
    dsimp only
    rw [same, isData]
    rfl
  have firstMalloc := malloc_user user first isFree inHeap
  have secondMalloc := @malloc_user
    { s with heap := Function.update s.heap ioBuf (some .user), asked := s.asked + 1 } allBlocks user second
    ((Function.update_of_ne other _ _).trans isFree') inHeap'
  unfold Calls.fileWrite
  rw [bind_returns (show (get : Call State) s = some (s, s) from rfl), bind_returns found, if_neg accepted,
    bind_returns firstMalloc]
  dsimp only
  rw [bind_returns secondMalloc]
  dsimp only
  rw [bind_returns (isPart _ ?_)]
  dsimp only
  rw [bind_returns (show setOpenFile fdIdx ptr file' _ = some ((), _) from rfl), bind_returns (free_user ?_ ?_),
    bind_returns (free_user ?_ ?_)]
  · exact ⟨_, rfl⟩
  · exact user
  · exact (Function.update_of_ne other.symm _ _).trans ioBufUsed
  · exact user
  · exact Function.update_self _ _ _
  · rfl

end

/-- A file with any inode number can be written to. -/
theorem writeReturns (iNo : UInt32) : WriteReturns iNo := by
  have room := blankVolume_free
  have needs : writeNeeds (inodeInit iNo.toNat) 1 ≤ 143 :=
    writeNeeds_le (show (0 : UInt32).toNat + (1 : UInt32).toNat ≤ 71680 by decide)
  obtain ⟨part', file', isRun, _⟩ := fileWrite_spec blankVolume_wellFormed (Written.created iNo.toNat).shape
    (show (0 : UInt32).toNat + (1 : UInt32).toNat < 71680 by decide) (needs.trans (by omega))
    (fun _ => rootTaken_of_bit (by decide)) 0 (fun _ => 97)
  have isData : writeData blankVolume ⟨0, inodeInit iNo.toNat⟩ (fun _ => 97) 1 =
      some (part', file', some 1) := isRun
  have accepted : ¬ (0 : UInt32) + 1 > maxFileSize := by decide
  have second : (newFileState iNo).answers ((newFileState iNo).asked + 1) = some 0x804a000 :=
    congrArg some (show 0x8049000 + 4096 * (0 + 1) = 0x804a000 by decide)
  obtain ⟨s', isWrite⟩ := @fileWrite_returns (newFileState iNo) kHeapStart 3 (fun _ => 97) 1 1 0x8049000
    0x804a000 part' file' rfl rfl accepted rfl second (by decide) rfl rfl (by decide) (by decide) isData
  refine ⟨newFileState iNo, 3, 3, kHeapStart, fun _ => 97, 1, 1, s', rfl, rfl, ?_, by decide, ?_⟩
  · exact UInt32.ofNat_toNat
  · have arrives : fdLocal2global (Int.toNat 3) (newFileState iNo) = some (3, newFileState iNo) := rfl
    have isRead : (get : Call State) (newFileState iNo) = some (newFileState iNo, newFileState iNo) := rfl
    have opened : opensForWriting ((newFileState iNo).fileTable 3).fdFlag = true :=
      show opensForWriting 1 = true by decide
    unfold sysWrite
    rw [if_neg (by decide), if_neg (by decide), bind_returns arrives, bind_returns isRead, if_pos opened]
    exact isWrite

/-! ### The operations that stay in their buffers -/

/-- The buffers of an operation are enough exactly when it is no `sys_write` to a file
whose inode is in two sectors. -/
theorem inside_iff_oneSector (op : FsOperation) :
    (FsFunction.operation op).Inside ↔ ¬ op.WritesStraddling := by
  cases op with
  | sysWrite iNo =>
      constructor
      · intro inside
        exact fileWrite_inside_iff.mp (inside.callee rfl) (writeReturns iNo)
      · intro oneSector
        refine inside_of_callees rfl trivial ?_
        rintro g rfl
        exact fileWrite_inside_iff.mpr fun _ => oneSector
  | _ => exact iff_of_true (FsOperation.inside_of_reads (by simp)) not_false

/-- The inode of number 6 is in two sectors, and `file_write` has one. -/
theorem write_to_six_outside : ¬ (FsFunction.operation (.sysWrite 6)).Inside ∧
    (FsFunction.operation (.sysWrite 6)).Reaches (.inodeSync 6 512) ∧
    FsFunction.transfers (.inodeSync 6 512) = [⟨2, 512⟩] := by
  have callsWrite : FsFunction.fileWrite 6 ∈ (FsFunction.operation (.sysWrite 6)).callees := rfl
  have callsSync : FsFunction.inodeSync 6 512 ∈ (FsFunction.fileWrite 6).callees :=
    .inl ⟨writeReturns 6, rfl⟩
  have reaches : (FsFunction.operation (.sysWrite 6)).Reaches (.inodeSync 6 512) :=
    .head callsWrite (.single callsSync)
  refine ⟨fun inside => ?_, reaches, by decide⟩
  exact absurd (inside.hasRoom _ reaches (by decide)) (by decide)

end ZyOs.Fs.Calls
