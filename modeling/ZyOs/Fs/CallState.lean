import ZyOs.Fs.FileData
import ZyOs.Fs.OpenFiles

/-!
Contract: the state that the file-system calls share, and the functions from which
they are made: blocks of the heap, inodes in memory, directories, open files.

Owns:
- the heap, as the blocks in use with the pool of each, and what `sys_malloc`
  answers, call by call;
- `inode_open`, `inode_close` and `inode_release`;
- `dir_open`, `dir_close` and `search_dir_entry`.

A call is a function of the state. A result of `none` is a failed `ASSERT`, an
access through `NULL`, or an access behind the end of an array. A buffer that is
only read and written by its call is its block; what it holds is a value.
-/

namespace ZyOs.Fs.Calls

open ZyOs.Kernel ZyOs.Memory

/-- The address of a block. -/
abbrev Ptr := Nat

/-- `struct inode` in memory: as on the disk, with the two fields that are kept in
memory only. -/
structure MemInode where
  node : InodeTable.Inode
  iOpenCnts : Nat
  writeDeny : Bool

/-- `inode->i_no`. -/
def MemInode.iNo (inode : MemInode) : Nat := inode.node.iNo.toNat

/-- `struct dir`: its block, `none` for `&root_dir`, and its inode. -/
structure Dir where
  block : Option Ptr
  inode : Ptr
deriving DecidableEq, Repr

/-- `struct file`. -/
structure File where
  fdPos : UInt32
  fdFlag : Nat
  fdInode : Option Ptr
deriving DecidableEq, Repr

/-- `answers` is what `sys_malloc` answers, and `asked` how often it was called;
`cur` is the running task. `dirs` are the directories that `sys_opendir` returned
and that are not closed, `keys` the characters in the keyboard buffer. -/
structure State where
  part : Volume
  heap : Ptr → Option PoolFlags
  answers : Nat → Option Ptr
  asked : Nat
  inode : Ptr → MemInode
  openInodes : List Ptr
  rootInode : Ptr
  fileTable : Nat → File
  cur : Pid
  pgdirNull : Pid → Bool
  fdTable : Pid → Nat → Option Nat
  cwdInodeNr : Pid → Nat
  dirs : List Dir
  keys : List UInt8

/-- A function that works on the state. -/
abbrev Call (α : Type) := StateT State Option α

/-- `ASSERT`. -/
def check (condition : Prop) [Decidable condition] : Call Unit := fun s =>
  if condition then some ((), s) else none

/-- An access through a pointer. -/
def deref (ptr : Option Ptr) : Call Ptr := fun s => ptr.map (·, s)

/-- A function of the volume. -/
def onPart {α : Type} (step : Volume → Option (Volume × α)) : Call α := fun s =>
  (step s.part).map fun result => (result.2, { s with part := result.1 })

/-! ### Blocks -/

/-- `sys_malloc` with this `pgdir`; an answer that is no free block of the heap is
`NULL`. -/
def sysMalloc (pgdirNull : Bool) : Call (Option Ptr) := fun s =>
  let asked := { s with asked := s.asked + 1 }
  match s.answers s.asked with
  | none => some (none, asked)
  | some ptr =>
      if s.heap ptr = none ∧ OpenFiles.inHeap pgdirNull ptr then
        some (some ptr, { asked with
          heap := Function.update s.heap ptr (some (if pgdirNull then .kernel else .user)) })
      else
        some (none, asked)

/-- `sys_free` with this `pgdir`. -/
def sysFree (pgdirNull : Bool) (ptr : Ptr) : Call Unit := fun s =>
  if (pgdirNull → kHeapStart ≤ ptr) ∧ s.heap ptr = some (if pgdirNull then .kernel else .user) then
    some ((), { s with heap := Function.update s.heap ptr none })
  else
    none

/-- `sys_malloc` by the running task. -/
def malloc : Call (Option Ptr) := do
  let s ← get
  sysMalloc (s.pgdirNull s.cur)

/-- `sys_malloc` whose result is not checked before it is used. -/
def mallocUnchecked : Call Ptr := do
  let ptr ← malloc
  deref ptr

/-- `sys_free` by the running task. -/
def free (ptr : Ptr) : Call Unit := do
  let s ← get
  sysFree (s.pgdirNull s.cur) ptr

/-! ### Inodes -/

def setInode (ptr : Ptr) (inode : MemInode) : Call Unit := fun s =>
  some ((), { s with inode := Function.update s.inode ptr inode })

/-- The fields that are also on the disk. -/
def setNode (ptr : Ptr) (node : InodeTable.Inode) : Call Unit := do
  let s ← get
  setInode ptr { s.inode ptr with node := node }

def setWriteDeny (ptr : Ptr) (value : Bool) : Call Unit := do
  let s ← get
  setInode ptr { s.inode ptr with writeDeny := value }

/-- `list_push(&cur_part->open_inodes, &inode->inode_tag)`, and one opening. -/
def pushInode (ptr : Ptr) (node : InodeTable.Inode) (writeDeny : Bool) : Call Unit := fun s =>
  some ((), { s with
    inode := Function.update s.inode ptr ⟨node, 1, writeDeny⟩
    openInodes := ptr :: s.openInodes })

/-- `inode_open`. The inode is allocated with `pgdir` set to `NULL`. -/
def inodeOpen (inodeNo : Nat) : Call Ptr := do
  let s ← get
  match s.openInodes.find? fun ptr => (s.inode ptr).iNo = inodeNo with
  | some ptr => do
      setInode ptr { s.inode ptr with iOpenCnts := (s.inode ptr).iOpenCnts + 1 }
      return ptr
  | none => do
      let node ← onPart fun part => (part.readInode inodeNo).map (part, ·)
      let inodeFound ← sysMalloc true
      let inodeBuf ← mallocUnchecked
      let inodeFound ← deref inodeFound
      pushInode inodeFound node (node.writeDeny != 0)
      free inodeBuf
      return inodeFound

/-- The inode leaves the list. -/
def unlinkInode (ptr : Ptr) : Call Unit := fun s =>
  some ((), { s with openInodes := s.openInodes.erase ptr })

/-- `inode_close`. -/
def inodeClose (ptr : Ptr) : Call Unit := do
  let s ← get
  let cnts := OpenFiles.countDown (s.inode ptr).iOpenCnts
  setInode ptr { s.inode ptr with iOpenCnts := cnts }
  if cnts = 0 then do
    unlinkInode ptr
    sysFree true ptr

/-- The loop of `inode_release` over the blocks that are left. -/
def releaseBlocks (part : Volume) : List Nat → Option Volume
  | [] => some part
  | lba :: rest =>
      if lba = 0 then
        releaseBlocks part rest
      else if part.dataStartLba < lba then
        let blockBitmapIdx := lba - part.dataStartLba
        releaseBlocks ((part.setBlockBit blockBitmapIdx false).bitmapSync blockBitmapIdx .block) rest
      else
        none

/-- The blocks that `inode_release` gives back: the table first. -/
def inodeBlocks (part : Volume) (node : InodeTable.Inode) : List Nat :=
  sectorOf node 12 :: allBlocks part.disk (searchInode node)

/-- `inode_release`. -/
def inodeRelease (inodeNo : Nat) : Call Unit := do
  let inodeToDel ← inodeOpen inodeNo
  let s ← get
  check ((s.inode inodeToDel).iNo = inodeNo)
  onPart fun part => do
    let part ← releaseBlocks part (inodeBlocks part (s.inode inodeToDel).node)
    return ((part.setInodeBit inodeNo false).bitmapSync inodeNo .inode, ())
  let ioBuf ← mallocUnchecked
  onPart fun part => (part.inodeDelete inodeNo).map (·, ())
  free ioBuf
  inodeClose inodeToDel

/-! ### Directories -/

/-- `&root_dir`. -/
def rootDir (s : State) : Dir := ⟨none, s.rootInode⟩

/-- `dir_open`. -/
def dirOpen (inodeNo : Nat) : Call Dir := do
  let pdir ← malloc
  let inode ← inodeOpen inodeNo
  let pdir ← deref pdir
  return ⟨some pdir, inode⟩

/-- `dir_close`. -/
def dirClose (dir : Dir) : Call Unit :=
  match dir.block with
  | none => pure ()
  | some block => do
      inodeClose dir.inode
      free block

/-- `search_dir_entry`. -/
def searchDirEntry (pdir : Dir) (name : List UInt8) : Call (Option DirEntry) := do
  match ← malloc with
  | none => return none
  | some allBlocks => do
      let buf ← mallocUnchecked
      let s ← get
      let dirE := Fs.searchDirEntry s.part.disk
        ⟨pdir.block.isNone, searchInode (s.inode pdir.inode).node⟩ name
      free buf
      free allBlocks
      return dirE

/-- `sync_dir_entry`. -/
def syncDirEntry (parentDir : Dir) (pDe : DirEntry) : Call Bool := do
  let s ← get
  let (node, done) ← onPart fun part =>
    (Fs.syncDirEntry part (s.inode parentDir.inode).node pDe).map fun result =>
      (result.1, result.2.1, result.2.2)
  setNode parentDir.inode node
  return done

/-- `delete_dir_entry`; the count of indirect blocks is given `fuel` passes. -/
def deleteDirEntry (fuel : Nat) (pdir : Dir) (inodeNo : Nat) : Call Bool := do
  let s ← get
  let (node, done) ← onPart fun part =>
    (Fs.deleteDirEntry fuel part (s.inode pdir.inode).node inodeNo).map fun result =>
      (result.1, result.2.1, result.2.2)
  setNode pdir.inode node
  return done

/-- `dir_is_empty`. -/
def dirIsEmpty (dir : Dir) : Call Bool := do
  let s ← get
  return decide ((s.inode dir.inode).node.iSize.toNat = dirEntrySize * 2)

/-- `dir_remove`; `false` for -1. -/
def dirRemove (fuel : Nat) (parentDir childDir : Dir) : Call Bool := do
  let s ← get
  let child := (s.inode childDir.inode).node
  check ((List.range' 1 12).all fun blockIdx => sectorOf child blockIdx = 0)
  match ← malloc with
  | none => return false
  | some ioBuf => do
      let _ ← deleteDirEntry fuel parentDir child.iNo.toNat
      inodeRelease child.iNo.toNat
      free ioBuf
      return true

end ZyOs.Fs.Calls
