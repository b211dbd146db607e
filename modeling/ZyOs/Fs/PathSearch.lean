import ZyOs.Fs.Disk
import ZyOs.Lib.Components

/-!
Contract: the search for a path: `path_parse`, `search_dir_entry` and
`search_file`, over the sectors of the disk and the list of open inodes.

Owns:
- the format of what a search reads: an inode of the inode table, the table of
  indirect blocks and the entries of a directory;
- `inode_open` and `inode_close`, as far as they find, read and drop inodes.

A C string is the list of its bytes before the terminating zero. `sys_malloc`
succeeds, and gives zeroed memory. A result of `none` is a failed `ASSERT`.

Does not own: what the sectors hold besides the above.
-/

namespace ZyOs.Fs

/-! ### Directory entries -/

inductive FileTypes where
  | unknown
  | regular
  | directory
deriving DecidableEq, Repr

def fileTypeOf (value : Nat) : FileTypes :=
  if value = 1 then .regular else if value = 2 then .directory else .unknown

/-- `enum file_types`. -/
def FileTypes.value : FileTypes → Nat
  | .unknown => 0
  | .regular => 1
  | .directory => 2

def maxFileNameLen : Nat := 16

/-- `struct dir_entry`. -/
structure DirEntry where
  filename : List UInt8
  iNo : Nat
  fType : FileTypes
deriving DecidableEq, Repr

/-- The bytes of a `uint32_t`. -/
def wordBytes (value : Nat) : List UInt8 := (List.range 4).map fun k => UInt8.ofNat (value / 256 ^ k)

/-- The file name as a C string. One that fills `filename` has no zero there, and runs
into `i_no` and `f_type`, which lie behind it. -/
def DirEntry.name (entry : DirEntry) : List UInt8 :=
  (entry.filename ++ (wordBytes entry.iNo ++ wordBytes entry.fType.value)).takeWhile (· ≠ 0)

/-- `sizeof(struct dir_entry)`. -/
def dirEntrySize : Nat := 24

def dirEntryAt (buf : Buf) (idx : Nat) : DirEntry where
  filename := (List.range maxFileNameLen).map fun i => buf (idx * dirEntrySize + i)
  iNo := word buf (idx * dirEntrySize + 16)
  fType := fileTypeOf (word buf (idx * dirEntrySize + 20))

/-- The entries of one sector of a directory. -/
def sectorEntries (buf : Buf) : List DirEntry :=
  (List.range (sectorSize / dirEntrySize)).map (dirEntryAt buf)

/-! ### Inodes -/

/-- `struct inode`, as far as a search uses it. -/
structure DirInode where
  iNo : Nat
  iOpenCnts : Nat
  iSectors : List Nat
deriving DecidableEq, Repr

/-- The inode in a buffer, with `i_open_cnts` set to 1. -/
def inodeAt (buf : Buf) (off : Nat) : DirInode where
  iNo := word buf off
  iOpenCnts := 1
  iSectors := (List.range 13).map fun i => word buf (off + 16 + 4 * i)

/-- The inode that `inode_open` reads from the disk. -/
def inodeRead (disk : Disk) (inodeTableLba iNo : Nat) : Option DirInode := do
  let pos ← inodeLocate inodeTableLba iNo
  let inodeBuf := ideRead disk pos.secLba (if pos.twoSec then 2 else 1)
  return inodeAt inodeBuf pos.offSize

/-- The partition, the list of open inodes, and the inode of `root_dir`. -/
structure Partition where
  disk : Disk
  inodeTableLba : Nat
  openInodes : List DirInode
  rootInode : DirInode

/-- `struct dir`; `isRoot` for `root_dir` itself. -/
structure Dir where
  isRoot : Bool
  inode : DirInode
deriving DecidableEq, Repr

/-- Count the first inode with this number once more. -/
def countOpen (iNo : Nat) : List DirInode → List DirInode
  | [] => []
  | inode :: rest =>
      if inode.iNo = iNo then
        { inode with iOpenCnts := inode.iOpenCnts + 1 } :: rest
      else
        inode :: countOpen iNo rest

/-- `inode_open`. -/
def Partition.inodeOpen (part : Partition) (iNo : Nat) : Option (Partition × DirInode) :=
  match part.openInodes.find? fun inode => inode.iNo = iNo with
  | some inode =>
      some ({ part with openInodes := countOpen iNo part.openInodes },
        { inode with iOpenCnts := inode.iOpenCnts + 1 })
  | none => do
      let inode ← inodeRead part.disk part.inodeTableLba iNo
      return ({ part with openInodes := inode :: part.openInodes }, inode)

/-- `inode_close`: the count goes down, and at zero the inode leaves the list. -/
def countClose (iNo : Nat) : List DirInode → List DirInode
  | [] => []
  | inode :: rest =>
      if inode.iNo = iNo then
        if inode.iOpenCnts = 1 then rest
        else { inode with iOpenCnts := inode.iOpenCnts - 1 } :: rest
      else
        inode :: countClose iNo rest

/-- `&root_dir`. -/
def Partition.rootDir (part : Partition) : Dir := ⟨true, part.rootInode⟩

/-- `dir_open`. -/
def Partition.dirOpen (part : Partition) (iNo : Nat) : Option (Partition × Dir) := do
  let (part, inode) ← part.inodeOpen iNo
  return (part, ⟨false, inode⟩)

/-- `dir_close`. -/
def Partition.dirClose (part : Partition) (dir : Dir) : Partition :=
  if dir.isRoot then part
  else { part with openInodes := countClose dir.inode.iNo part.openInodes }

/-! ### Directories -/

/-- `all_blocks`: the 12 direct blocks, and the 128 of the indirect table when
there is one. -/
def allBlocks (disk : Disk) (inode : DirInode) : List Nat :=
  inode.iSectors.take 12 ++
    (if inode.iSectors.getD 12 0 ≠ 0 then
      (List.range 128).map fun i => word (ideRead disk (inode.iSectors.getD 12 0) 1) (4 * i)
    else
      List.replicate 128 0)

/-- `search_dir_entry`. -/
def searchDirEntry (disk : Disk) (dir : Dir) (name : List UInt8) : Option DirEntry :=
  (allBlocks disk dir.inode).findSome? fun lba =>
    if lba = 0 then none
    else (sectorEntries (ideRead disk lba 1)).find? fun entry => entry.name = name

/-! ### Paths -/

/-- The character `/`. -/
def slash : UInt8 := 47

/-- The character `.`. -/
def dot : UInt8 := 46

/-- `path_parse`: the name that is stored, and the rest of the path or `NULL`. -/
def pathParse (pathname : List UInt8) : List UInt8 × Option (List UInt8) :=
  let pathname := pathname.dropWhile (· == slash)
  let rest := pathname.dropWhile (· != slash)
  (pathname.takeWhile (· != slash), if rest = [] then none else some rest)

/-- `path_parse` of the rest, if there is one; `name` is zero before. -/
def pathParseRest : Option (List UInt8) → List UInt8 × Option (List UInt8)
  | none => ([], none)
  | some subPath => pathParse subPath

/-- What `search_file` returns, and its `struct path_search_record`. -/
structure SearchResult where
  ret : Int
  searchedPath : List UInt8
  parentDir : Dir
  fileType : FileTypes

/-- The loop of `search_file`, over `fuel` names at most. -/
def searchLoop : Nat → Partition → (parentDir : Dir) → (parentInodeNo : Nat) → (name : List UInt8) →
    (subPath : Option (List UInt8)) → (searchedPath : List UInt8) → (dirE : DirEntry) →
    Option (Partition × SearchResult)
  | 0, _, _, _, _, _, _, _ => none
  | fuel + 1, part, parentDir, parentInodeNo, name, subPath, searchedPath, dirE =>
      if name = [] then do
        let part := part.dirClose parentDir
        let (part, dir) ← part.dirOpen parentInodeNo
        return (part, ⟨dirE.iNo, searchedPath, dir, .directory⟩)
      else if searchedPath.length < 512 then
        let searchedPath := searchedPath ++ slash :: name
        match searchDirEntry part.disk parentDir name with
        | none => some (part, ⟨-1, searchedPath, parentDir, .unknown⟩)
        | some dirE =>
            let (name, subPath) := pathParseRest subPath
            match dirE.fType with
            | .directory => do
                let parentInodeNo := parentDir.inode.iNo
                let part := part.dirClose parentDir
                let (part, parentDir) ← part.dirOpen dirE.iNo
                searchLoop fuel part parentDir parentInodeNo name subPath searchedPath dirE
            | .regular => some (part, ⟨dirE.iNo, searchedPath, parentDir, .regular⟩)
            | .unknown =>
                searchLoop fuel part parentDir parentInodeNo name subPath searchedPath dirE
      else
        none

def maxPathLen : Nat := 512

/-- `search_file`. The callers clear the record; `dirE` is the uninitialised
local variable of that name. -/
def searchFile (part : Partition) (dirE : DirEntry) (pathname : List UInt8) :
    Option (Partition × SearchResult) :=
  if pathname = [slash] ∨ pathname = [slash, dot] ∨ pathname = [slash, dot, dot] then
    some (part, ⟨0, [], part.rootDir, .directory⟩)
  else if pathname.head? = some slash ∧ 1 < pathname.length ∧ pathname.length < maxPathLen then
    let (name, subPath) := pathParse pathname
    searchLoop (pathname.length + 1) part part.rootDir 0 name subPath [] dirE
  else
    none

end ZyOs.Fs
