import ZyOs.Fs.PathSearch

/-!
Contract: directory streams: `sys_opendir`, `sys_readdir`, `sys_rewinddir` and
`sys_closedir`, while no directory changes.

Owns:
- the position of a stream, which lives in its `struct dir`: a new one for every
  path but `/`, and the one `root_dir` for `/`;
- `dir_read`, which finds the entry at that position.

A `struct dir` from `sys_malloc` is named by the order of creation; what is in
use is not handed out again, so two of them are never the same. A result of
`none` is a failed `ASSERT`, or a use of a stream that is not open.

Does not own: how a path is found.
-/

namespace ZyOs.Fs.DirStreams

/-! ### Reading an entry -/

/-- What `dir_read` has found in a sector: the offset of the entry after the last
used one, or the entry to return. -/
inductive Scan where
  | passed (curDirEntryPos : Nat)
  | found (entry : DirEntry)
deriving DecidableEq

/-- The inner loop of `dir_read`, over the entries of one sector. -/
def readEntries (buf : Buf) (dirPos : Nat) : List Nat → Nat → Option Scan
  | [], cur => some (.passed cur)
  | idx :: rest, cur =>
      if word buf (idx * dirEntrySize + 20) ≠ 0 then
        if cur < dirPos then
          readEntries buf dirPos rest (cur + dirEntrySize)
        else if cur = dirPos then
          some (.found (dirEntryAt buf idx))
        else
          none
      else
        readEntries buf dirPos rest cur

/-- The outer loop of `dir_read`, over the blocks. -/
def readBlocks (disk : Disk) (iSize dirPos : Nat) : List Nat → Nat → Option (Option DirEntry)
  | [], _ => some none
  | lba :: rest, cur =>
      if dirPos ≥ iSize then
        some none
      else if lba = 0 then
        readBlocks disk iSize dirPos rest cur
      else
        match readEntries (ideRead disk lba 1) dirPos (List.range (sectorSize / dirEntrySize)) cur with
        | none => none
        | some (.passed cur) => readBlocks disk iSize dirPos rest cur
        | some (.found entry) => some (some entry)

/-- `all_blocks`, up to `block_cnt`. -/
def blocksOf (disk : Disk) (inode : DirInode) : List Nat :=
  inode.iSectors.take 12 ++
    (if inode.iSectors.getD 12 0 ≠ 0 then
      (List.range 128).map fun i => word (ideRead disk (inode.iSectors.getD 12 0) 1) (4 * i)
    else
      [])

/-- `dir_read`: the entry, or `NULL`. -/
def dirRead (disk : Disk) (inode : DirInode) (iSize dirPos : Nat) : Option (Option DirEntry) :=
  readBlocks disk iSize dirPos (blocksOf disk inode) 0

/-! ### Streams -/

/-- `struct dir`. -/
structure Stream where
  inode : DirInode
  dirPos : Nat

/-- A `struct dir *`. -/
inductive DirPtr where
  | rootDir
  | heap (idx : Nat)
deriving DecidableEq

/-- The partition, the `i_size` of its inodes, `root_dir`, and the `struct dir`s
from `sys_malloc`, `none` for one that is freed. -/
structure Streams where
  part : Partition
  iSize : Nat → Nat
  rootPos : Nat
  dirs : List (Option Stream)

/-- `open_root_dir`. -/
def openRootDir (part : Partition) (iSize : Nat → Nat) : Streams := ⟨part, iSize, 0, []⟩

namespace Streams

/-- The `struct dir` behind a pointer. -/
def deref (s : Streams) : DirPtr → Option Stream
  | .rootDir => some ⟨s.part.rootInode, s.rootPos⟩
  | .heap idx => (s.dirs[idx]?).join

def setPos (s : Streams) (dir : DirPtr) (dirPos : Nat) : Streams :=
  match dir with
  | .rootDir => { s with rootPos := dirPos }
  | .heap idx =>
      { s with dirs := s.dirs.modify idx (Option.map fun stream => { stream with dirPos := dirPos }) }

/-- `sys_opendir`; `NULL` is `none` inside. `dirE` is the uninitialised variable
of `search_file`. -/
def sysOpendir (s : Streams) (dirE : DirEntry) (name : List UInt8) :
    Option (Streams × Option DirPtr) :=
  if name.length < maxPathLen then
    if name.head? = some slash ∧ (name.tail = [] ∨ name.head? = some dot) then
      some (s, some .rootDir)
    else do
      let (part, record) ← searchFile s.part dirE name
      if record.ret ≠ -1 ∧ record.fileType = .directory then
        let (part, dir) ← part.dirOpen record.ret.toNat
        return ({ s with part := part.dirClose record.parentDir
                         dirs := s.dirs ++ [some ⟨dir.inode, 0⟩] }, some (.heap s.dirs.length))
      else
        return ({ s with part := part.dirClose record.parentDir }, none)
  else
    none

/-- `sys_readdir`. -/
def sysReaddir (s : Streams) (dir : DirPtr) : Option (Streams × Option DirEntry) := do
  let stream ← s.deref dir
  let entry ← dirRead s.part.disk stream.inode (s.iSize stream.inode.iNo) stream.dirPos
  if entry.isSome then
    return (s.setPos dir (stream.dirPos + dirEntrySize), entry)
  else
    return (s, none)

/-- `sys_rewinddir`. -/
def sysRewinddir (s : Streams) (dir : DirPtr) : Option Streams := do
  let _ ← s.deref dir
  return s.setPos dir 0

/-- `sys_closedir`; `root_dir` stays open. -/
def sysClosedir (s : Streams) (dir : DirPtr) : Option Streams :=
  match dir with
  | .rootDir => some s
  | .heap idx => do
      let stream ← s.deref (.heap idx)
      return { s with part := s.part.dirClose ⟨false, stream.inode⟩, dirs := s.dirs.set idx none }

/-- Calls on streams, none of which fails an `ASSERT`. -/
inductive Run : Streams → Streams → Prop where
  | refl (s : Streams) : Run s s
  | opendir {s t u : Streams} {dirE : DirEntry} {name : List UInt8} {ret : Option DirPtr}
      (run : Run s t) (eq : t.sysOpendir dirE name = some (u, ret)) : Run s u
  | readdir {s t u : Streams} {dir : DirPtr} {ret : Option DirEntry} (run : Run s t)
      (eq : t.sysReaddir dir = some (u, ret)) : Run s u
  | rewinddir {s t u : Streams} {dir : DirPtr} (run : Run s t)
      (eq : t.sysRewinddir dir = some u) : Run s u
  | closedir {s t u : Streams} {dir : DirPtr} (run : Run s t)
      (eq : t.sysClosedir dir = some u) : Run s u

/-! ### Two streams -/

inductive Op where
  | read
  | rewind
deriving DecidableEq

/-- Which of the two handles a call is on. -/
inductive Handle where
  | first
  | second
deriving DecidableEq

/-- Calls on two handles: what each `sys_readdir` returns. -/
def calls (s : Streams) (dir : Handle → DirPtr) :
    List (Handle × Op) → Option (List (Handle × Option DirEntry))
  | [] => some []
  | (who, .read) :: rest => do
      let (s, entry) ← s.sysReaddir (dir who)
      let entries ← calls s dir rest
      return (who, entry) :: entries
  | (who, .rewind) :: rest => do
      let s ← s.sysRewinddir (dir who)
      calls s dir rest

/-- What a handle returns is what it returns without the calls on the other. -/
def Independent (s : Streams) (dir : Handle → DirPtr) : Prop :=
  ∀ ops who, ∃ together alone, s.calls dir ops = some together ∧
    s.calls dir (ops.filter (·.1 = who)) = some alone ∧
    together.filter (·.1 = who) = alone

end Streams

end ZyOs.Fs.DirStreams
