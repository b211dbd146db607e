import ZyOs.Memory.Pages
import Mathlib.Logic.Relation

/-!
Contract: the tables of open files: `file_table`, the `fd_table` of every
process and the open inodes, with `get_free_slot_in_global`, `pcb_fd_install`,
`inode_open`, `inode_close`, `file_create`, `file_open`, `file_close` and
`sys_close`, and what `sys_fork` does to them.

Owns:
- the heap blocks of the inodes, with the pool each block came from: the pool is
  chosen by the `pgdir` of the running task;
- the inode bitmap, as the numbers that are in use.

What the path search finds and where `sys_malloc` places a block are inputs of
the calls. A result of `none` is a failed `ASSERT`, an access through `NULL`, or
a block that is freed to a pool it did not come from.

Does not own: the contents of directories and files.
-/

namespace ZyOs.Fs

open ZyOs.Memory

abbrev maxFileOpen : Nat := 32

abbrev maxFilesOpenPerProc : Nat := 8

/-- A process or kernel thread. -/
abbrev Pid := Nat

/-- A `struct inode`, named by its address. -/
abbrev InodePtr := Nat

/-- `struct inode`. -/
structure Inode where
  iNo : Nat
  iOpenCnts : Nat
  writeDeny : Bool

/-- `struct file`. -/
structure File where
  fdPos : Nat
  fdFlag : Nat
  fdInode : Option InodePtr

/-- `pgdirNull` says which tasks are kernel threads; `dirs` are the inodes of the
`struct dir`s in use, `root_dir` apart: `dir_close` leaves that one open. -/
structure OpenFiles where
  pgdirNull : Pid → Bool
  heap : InodePtr → Option PoolFlags
  inode : InodePtr → Inode
  openInodes : List InodePtr
  dirs : List InodePtr
  inodeBitmap : Nat → Bool
  fileTable : Nat → File
  fdTable : Pid → Nat → Option Nat

/-- `flag & O_WRONLY || flag & O_RDWR`. -/
def opensForWriting (flag : Nat) : Bool := flag &&& 1 != 0 || flag &&& 2 != 0

namespace OpenFiles

/-! ### Blocks -/

/-- The blocks of the kernel heap lie at `K_HEAP_START` and above, those of a
user heap below the kernel. -/
def inHeap (pgdirNull : Bool) (ptr : InodePtr) : Bool :=
  if pgdirNull then decide (kHeapStart ≤ ptr) else decide (ptr < 0xc0000000)

/-- `sys_malloc` with this `pgdir`, at a block that is not in use. -/
def sysMalloc (s : OpenFiles) (pgdirNull : Bool) (ptr : InodePtr) : Option OpenFiles :=
  if s.heap ptr = none ∧ inHeap pgdirNull ptr then
    some { s with
      heap := Function.update s.heap ptr (some (if pgdirNull then .kernel else .user)) }
  else
    none

/-- `sys_free` with this `pgdir`. The first condition is its `ASSERT`. -/
def sysFree (s : OpenFiles) (pgdirNull : Bool) (ptr : InodePtr) : Option OpenFiles :=
  if (pgdirNull → kHeapStart ≤ ptr) ∧ s.heap ptr = some (if pgdirNull then .kernel else .user) then
    some { s with heap := Function.update s.heap ptr none }
  else
    none

/-! ### Inodes -/

def setInode (s : OpenFiles) (ptr : InodePtr) (inode : Inode) : OpenFiles :=
  { s with inode := Function.update s.inode ptr inode }

/-- `inode->write_deny = value`. -/
def setWriteDeny (s : OpenFiles) (ptr : InodePtr) (value : Bool) : OpenFiles :=
  s.setInode ptr { s.inode ptr with writeDeny := value }

/-- `inode->i_open_cnts ++`. -/
def countUp (s : OpenFiles) (ptr : InodePtr) : OpenFiles :=
  s.setInode ptr { s.inode ptr with iOpenCnts := (s.inode ptr).iOpenCnts + 1 }

/-- `inode_open`. A new inode is allocated with `pgdir` set to `NULL`; the disk
has `write_deny` clear. -/
def inodeOpen (s : OpenFiles) (iNo : Nat) (ptr : InodePtr) : Option (OpenFiles × InodePtr) :=
  match s.openInodes.find? fun found => (s.inode found).iNo = iNo with
  | some found => some (s.countUp found, found)
  | none =>
      if iNo < 4096 then do
        let s ← s.sysMalloc true ptr
        let s := s.setInode ptr ⟨iNo, 1, false⟩
        return ({ s with openInodes := ptr :: s.openInodes }, ptr)
      else
        none

/-- `inode->i_open_cnts --` on a `uint32_t`. -/
def countDown (cnts : Nat) : Nat := if cnts = 0 then 2 ^ 32 - 1 else cnts - 1

/-- `inode_close`. The inode is freed with `pgdir` set to `NULL`. -/
def inodeClose (s : OpenFiles) (ptr : InodePtr) : Option OpenFiles :=
  let cnts := countDown (s.inode ptr).iOpenCnts
  let s := s.setInode ptr { s.inode ptr with iOpenCnts := cnts }
  if cnts = 0 then
    { s with openInodes := s.openInodes.erase ptr }.sysFree true ptr
  else
    some s

/-- `dir_open`. -/
def dirOpen (s : OpenFiles) (iNo : Nat) (ptr : InodePtr) : Option OpenFiles := do
  let (s, found) ← s.inodeOpen iNo ptr
  return { s with dirs := found :: s.dirs }

/-- `dir_close` of one of the `struct dir`s. -/
def dirClose (s : OpenFiles) (ptr : InodePtr) : Option OpenFiles :=
  if ptr ∈ s.dirs then
    { s with dirs := s.dirs.erase ptr }.inodeClose ptr
  else
    none

/-- What `inode_release` does to the tables. -/
def inodeRelease (s : OpenFiles) (iNo : Nat) (ptr : InodePtr) : Option OpenFiles := do
  let (s, found) ← s.inodeOpen iNo ptr
  { s with inodeBitmap := Function.update s.inodeBitmap iNo false }.inodeClose found

/-! ### Slots and descriptors -/

/-- `get_free_slot_in_global`. -/
def getFreeSlotInGlobal (s : OpenFiles) : Option Nat :=
  (List.range' 3 (maxFileOpen - 3)).find? fun fdIdx => (s.fileTable fdIdx).fdInode = none

/-- `pcb_fd_install`. -/
def pcbFdInstall (s : OpenFiles) (pid : Pid) (globalFdIdx : Nat) : OpenFiles × Option Nat :=
  match (List.range' 3 (maxFilesOpenPerProc - 3)).find? fun localFdIdx =>
      s.fdTable pid localFdIdx = none with
  | none => (s, none)
  | some localFdIdx =>
      ({ s with
        fdTable := Function.update s.fdTable pid
          (Function.update (s.fdTable pid) localFdIdx (some globalFdIdx)) }, some localFdIdx)

def setFile (s : OpenFiles) (fdIdx : Nat) (file : File) : OpenFiles :=
  { s with fileTable := Function.update s.fileTable fdIdx file }

def setInodeBitmap (s : OpenFiles) (iNo : Nat) (value : Bool) : OpenFiles :=
  { s with inodeBitmap := Function.update s.inodeBitmap iNo value }

/-- `file_open`. When the file is busy the slot stays taken. -/
def fileOpen (s : OpenFiles) (pid : Pid) (iNo flag : Nat) (ptr : InodePtr) :
    Option (OpenFiles × Option Nat) :=
  match s.getFreeSlotInGlobal with
  | none => some (s, none)
  | some fdIdx => do
      let (s, found) ← s.inodeOpen iNo ptr
      let s := s.setFile fdIdx ⟨0, flag, some found⟩
      if opensForWriting flag then
        if (s.inode found).writeDeny then
          return (s, none)
        else
          return (s.setWriteDeny found true).pcbFdInstall pid fdIdx
      else
        return s.pcbFdInstall pid fdIdx

/-- `file_create`. `iNo` is what `inode_bitmap_alloc` finds, `ptr` what
`sys_malloc` returns for the inode, and `synced` whether `sync_dir_entry`
succeeds. -/
def fileCreate (s : OpenFiles) (pid : Pid) (iNo flag : Nat) (ptr : Option InodePtr)
    (synced : Bool) : Option (OpenFiles × Option Nat) :=
  if s.inodeBitmap iNo = false ∧ iNo < 4096 then
    let s := s.setInodeBitmap iNo true
    match ptr with
    | none => some (s.setInodeBitmap iNo false, none)
    | some ptr => do
        let s ← s.sysMalloc (s.pgdirNull pid) ptr
        let s := s.setInode ptr ⟨iNo, 0, false⟩
        match s.getFreeSlotInGlobal with
        | none =>
            let s ← s.sysFree (s.pgdirNull pid) ptr
            return (s.setInodeBitmap iNo false, none)
        | some fdIdx =>
            let s := s.setFile fdIdx ⟨0, flag, some ptr⟩
            if synced then
              let s := s.setInode ptr ⟨iNo, 1, false⟩
              return { s with openInodes := ptr :: s.openInodes }.pcbFdInstall pid fdIdx
            else
              let s := s.setFile fdIdx ⟨0, 0, none⟩
              let s ← s.sysFree (s.pgdirNull pid) ptr
              return (s.setInodeBitmap iNo false, none)
  else
    none

/-- `file_create` gets as far as `list_push`. -/
def Creates (s : OpenFiles) (ptr : Option InodePtr) (synced : Bool) : Prop :=
  ptr ≠ none ∧ s.getFreeSlotInGlobal ≠ none ∧ synced = true

/-- `file_close`. -/
def fileClose (s : OpenFiles) (fdIdx : Nat) : Option OpenFiles := do
  let found ← (s.fileTable fdIdx).fdInode
  let s ← (s.setWriteDeny found false).inodeClose found
  return s.setFile fdIdx { s.fileTable fdIdx with fdInode := none }

/-- `sys_close`. -/
def sysClose (s : OpenFiles) (pid : Pid) (fd : Nat) : Option OpenFiles :=
  if fd > 2 then do
    let globalFd ← s.fdTable pid fd
    if globalFd < maxFileOpen then
      let s ← s.fileClose globalFd
      return { s with
        fdTable := Function.update s.fdTable pid (Function.update (s.fdTable pid) fd none) }
    else
      none
  else
    some s

/-- The loop of `update_inode_open_cnts`, over the descriptors that are left. -/
def updateInodeOpenCnts (pid : Pid) : List Nat → OpenFiles → Option OpenFiles
  | [], s => some s
  | localFd :: rest, s =>
      match s.fdTable pid localFd with
      | none => updateInodeOpenCnts pid rest s
      | some globalFd =>
          if globalFd < maxFileOpen then do
            let found ← (s.fileTable globalFd).fdInode
            updateInodeOpenCnts pid rest (s.countUp found)
          else
            none

/-- What `sys_fork` does to the tables. -/
def fork (s : OpenFiles) (parent child : Pid) : Option OpenFiles :=
  { s with
    pgdirNull := Function.update s.pgdirNull child false
    fdTable := Function.update s.fdTable child (s.fdTable parent) }
  |>.updateInodeOpenCnts child (List.range' 3 (maxFilesOpenPerProc - 3))

end OpenFiles

/-! ### Calls -/

/-- A call, or a part of one, that works on the tables: the path search and the
calls on directories open and close `struct dir`s; `sys_unlink` and `sys_rmdir`
release an inode; `sys_open` opens or creates a file. -/
inductive FileCall where
  | dirOpen (iNo : Nat) (ptr : InodePtr)
  | dirClose (ptr : InodePtr)
  | release (iNo : Nat) (ptr : InodePtr)
  | openFile (pid : Pid) (iNo flag : Nat) (ptr : InodePtr)
  | create (pid : Pid) (iNo flag : Nat) (ptr : Option InodePtr) (synced : Bool)
  | close (pid : Pid) (fd : Nat)
  | fork (parent child : Pid)
deriving DecidableEq, Repr

/-- The state after a call, and the descriptor that `sys_open` returns. -/
def FileCall.exec (s : OpenFiles) : FileCall → Option (OpenFiles × Option Nat)
  | .dirOpen iNo ptr => (s.dirOpen iNo ptr).map (·, none)
  | .dirClose ptr => (s.dirClose ptr).map (·, none)
  | .release iNo ptr => (s.inodeRelease iNo ptr).map (·, none)
  | .openFile pid iNo flag ptr => s.fileOpen pid iNo flag ptr
  | .create pid iNo flag ptr synced => s.fileCreate pid iNo flag ptr synced
  | .close pid fd => (s.sysClose pid fd).map (·, none)
  | .fork parent child => (s.fork parent child).map (·, none)

/-- After `filesys_init`: `root_dir` is open and nothing else. -/
structure NoFilesOpen (s : OpenFiles) (root : InodePtr) : Prop where
  openInodes : s.openInodes = [root]
  dirs : s.dirs = []
  rootHeap : s.heap root = some .kernel ∧ kHeapStart ≤ root
  rootInode : s.inode root = ⟨0, 1, false⟩
  rootUsed : s.inodeBitmap 0 = true
  fileTable : ∀ fdIdx, (s.fileTable fdIdx).fdInode = none
  fdTable : ∀ pid fd, 3 ≤ fd → s.fdTable pid fd = none

end ZyOs.Fs
