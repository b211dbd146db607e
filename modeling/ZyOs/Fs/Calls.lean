import ZyOs.Fs.CallState
import ZyOs.Fs.Getcwd

/-!
Contract: the file-system calls: `sys_open`, `sys_close`, `sys_read`, `sys_write`,
`sys_lseek`, `sys_mkdir`, `sys_rmdir`, `sys_unlink`, `sys_stat`, `sys_chdir`,
`sys_getcwd`, `sys_opendir` and `sys_closedir`; and what `sys_fork` does to open files.

Owns:
- `search_file` and the calls on open files that these are made of;
- every return of a call, with the blocks that it gives back before.

The values of uninitialised variables are inputs of a call. A name that does not
fit its buffer has no result: `path_depth_cnt` needs no room for the terminating
zero, `search_file` does. -1 is `none` where a call otherwise returns a natural
number.
-/

namespace ZyOs.Fs.Calls

open ZyOs.Kernel ZyOs.Memory

/-- Uninitialised variables: `dir_e` of `search_file`, and the first byte of `name`
in `path_depth_cnt`. -/
structure Junk where
  dirE : DirEntry
  name0 : UInt8

/-! ### Paths -/

/-- `path_parse` into a buffer that holds `size` characters. -/
def parseName (size : Nat) (subPath : Option (List UInt8)) :
    Call (List UInt8 × Option (List UInt8)) := do
  let parsed := pathParseRest subPath
  check (parsed.1.length ≤ size)
  return parsed

/-- The loop of `path_depth_cnt`, over `fuel` names at most; `isName` when the first
byte of `name` is not zero. -/
def depthLoop : Nat → (isName : Bool) → Option (List UInt8) → (depth : Nat) → Call Nat
  | 0, _, _, _ => failure
  | _ + 1, false, _, depth => return depth
  | fuel + 1, true, subPath, depth => do
      let (name, subPath) ← parseName maxFileNameLen subPath
      depthLoop fuel (name ≠ []) subPath (depth + 1)

/-- `path_depth_cnt`. A path without a name leaves `name` as it was. -/
def pathDepthCnt (junk : Junk) (pathname : List UInt8) : Call Nat := do
  let (name, subPath) ← parseName maxFileNameLen (some pathname)
  depthLoop (pathname.length + 2) (name ≠ [] ∨ junk.name0 ≠ 0) subPath 0

/-- What `search_file` returns, and its `struct path_search_record`. -/
structure SearchedRecord where
  inodeNo : Option Nat
  searchedPath : List UInt8
  parentDir : Dir
  fileType : FileTypes

/-- `dir_e.i_no` as an `int`: the largest value is -1. -/
def asInodeNo (iNo : Nat) : Option Nat := if iNo = 2 ^ 32 - 1 then none else some iNo

/-- The loop of `search_file`, over `fuel` names at most. -/
def searchLoop : Nat → (parentDir : Dir) → (parentInodeNo : Nat) → (name : List UInt8) →
    (subPath : Option (List UInt8)) → (searchedPath : List UInt8) → (dirE : DirEntry) →
    Call SearchedRecord
  | 0, _, _, _, _, _, _ => failure
  | fuel + 1, parentDir, parentInodeNo, name, subPath, searchedPath, dirE =>
      if name = [] then do
        dirClose parentDir
        let dir ← dirOpen parentInodeNo
        return ⟨asInodeNo dirE.iNo, searchedPath, dir, .directory⟩
      else do
        check (searchedPath.length < 512)
        let searchedPath := searchedPath ++ slash :: name
        match ← searchDirEntry parentDir name with
        | none => return ⟨none, searchedPath, parentDir, .unknown⟩
        | some dirE => do
            let (name, subPath) ← parseName (maxFileNameLen - 1) subPath
            match dirE.fType with
            | .directory => do
                let s ← get
                let parentInodeNo := (s.inode parentDir.inode).iNo
                dirClose parentDir
                let parentDir ← dirOpen dirE.iNo
                searchLoop fuel parentDir parentInodeNo name subPath searchedPath dirE
            | .regular => return ⟨asInodeNo dirE.iNo, searchedPath, parentDir, .regular⟩
            | .unknown =>
                searchLoop fuel parentDir parentInodeNo name subPath searchedPath dirE

/-- The names of the root directory that are not searched for. -/
def isRootPath (pathname : List UInt8) : Bool :=
  pathname = [slash] ∨ pathname = [slash, dot] ∨ pathname = [slash, dot, dot]

/-- `search_file`. -/
def searchFile (junk : Junk) (pathname : List UInt8) : Call SearchedRecord := do
  let s ← get
  if isRootPath pathname then
    return ⟨some 0, [], rootDir s, .directory⟩
  else do
    check (pathname.head? = some slash ∧ 1 < pathname.length ∧ pathname.length < maxPathLen)
    let (name, subPath) ← parseName (maxFileNameLen - 1) (some pathname)
    searchLoop (pathname.length + 1) (rootDir s) 0 name subPath [] junk.dirE

/-- `strrchr(path, '/') + 1`. -/
def lastName (path : List UInt8) : List UInt8 := path.drop ((strrchr path slash).elim 0 (· + 1))

/-! ### Open files -/

/-- `O_CREAT`. -/
def hasCreat (flags : Nat) : Bool := flags &&& 4 != 0

def setFile (fdIdx : Nat) (file : File) : Call Unit := fun s =>
  some ((), { s with fileTable := Function.update s.fileTable fdIdx file })

/-- `get_free_slot_in_global`. -/
def getFreeSlotInGlobal : Call (Option Nat) := do
  let s ← get
  return (List.range' 3 (maxFileOpen - 3)).find? fun fdIdx => (s.fileTable fdIdx).fdInode = none

def setFd (fd : Nat) (globalFd : Option Nat) : Call Unit := fun s =>
  some ((), { s with
    fdTable := Function.update s.fdTable s.cur (Function.update (s.fdTable s.cur) fd globalFd) })

/-- `pcb_fd_install`. -/
def pcbFdInstall (globalFdIdx : Nat) : Call (Option Nat) := do
  let s ← get
  match (List.range' 3 (maxFilesOpenPerProc - 3)).find? fun fd => s.fdTable s.cur fd = none with
  | none => return none
  | some fd => do
      setFd fd (some globalFdIdx)
      return some fd

/-- `file_create` from its new inode on: `none` inside for a rollback. -/
def createEntry (parentDir : Dir) (filename : List UInt8) (inodeNo fdIdx : Nat) (ptr : Ptr) :
    Call Bool := do
  let newDirEntry ← onPart fun part => (createDirEntry filename inodeNo .regular).map (part, ·)
  if ← syncDirEntry parentDir newDirEntry then do
    let s ← get
    onPart fun part => do
      let part ← part.inodeSync (s.inode parentDir.inode).node
      let part ← part.inodeSync (inodeInit inodeNo)
      return (part.bitmapSync inodeNo .inode, ())
    pushInode ptr (inodeInit inodeNo) false
    return true
  else do
    setFile fdIdx ⟨0, 0, none⟩
    return false

/-- `file_create`. -/
def fileCreate (parentDir : Dir) (filename : List UInt8) (flag : Nat) : Call (Option Nat) := do
  match ← malloc with
  | none => return none
  | some ioBuf => do
      match ← onPart fun part => part.inodeBitmapAlloc with
      | none => return none
      | some inodeNo => do
          let unset := onPart fun part => some (part.setInodeBit inodeNo false, ())
          match ← malloc with
          | none => do
              unset
              free ioBuf
              return none
          | some newFileInode => do
              match ← getFreeSlotInGlobal with
              | none => do
                  free newFileInode
                  unset
                  free ioBuf
                  return none
              | some fdIdx => do
                  setFile fdIdx ⟨0, flag, some newFileInode⟩
                  if ← createEntry parentDir filename inodeNo fdIdx newFileInode then do
                    free ioBuf
                    pcbFdInstall fdIdx
                  else do
                    free newFileInode
                    unset
                    free ioBuf
                    return none

/-- `file_open`. -/
def fileOpen (inodeNo flag : Nat) : Call (Option Nat) := do
  match ← getFreeSlotInGlobal with
  | none => return none
  | some fdIdx => do
      let ptr ← inodeOpen inodeNo
      setFile fdIdx ⟨0, flag, some ptr⟩
      if opensForWriting flag then do
        let s ← get
        if (s.inode ptr).writeDeny then
          return none
        else do
          setWriteDeny ptr true
          pcbFdInstall fdIdx
      else
        pcbFdInstall fdIdx

/-- `fd_local2global`. -/
def fdLocal2global (localFd : Nat) : Call Nat := do
  check (localFd < maxFilesOpenPerProc)
  let s ← get
  let globalFd ← deref (s.fdTable s.cur localFd)
  check (globalFd < maxFileOpen)
  return globalFd

/-- `file_close`. -/
def fileClose (fdIdx : Nat) : Call Unit := do
  let s ← get
  let ptr ← deref (s.fileTable fdIdx).fdInode
  setWriteDeny ptr false
  inodeClose ptr
  let s ← get
  setFile fdIdx { s.fileTable fdIdx with fdInode := none }

/-- The file and its inode after a read or a write. -/
def setOpenFile (fdIdx : Nat) (ptr : Ptr) (file : OpenFile) : Call Unit := do
  let s ← get
  setFile fdIdx { s.fileTable fdIdx with fdPos := file.fdPos }
  setNode ptr file.inode

/-- `file_write`; `none` for -1. -/
def fileWrite (fdIdx : Nat) (buf : Buf) (count : UInt32) : Call (Option UInt32) := do
  let s ← get
  let ptr ← deref (s.fileTable fdIdx).fdInode
  let node := (s.inode ptr).node
  if node.iSize + count > maxFileSize then
    return none
  else do
    match ← malloc with
    | none => return none
    | some ioBuf => do
        match ← malloc with
        | none => return none
        | some allBlocks => do
            let (file, written) ← onPart fun part =>
              (writeData part ⟨(s.fileTable fdIdx).fdPos, node⟩ buf count).map fun result =>
                (result.1, result.2.1, result.2.2)
            setOpenFile fdIdx ptr file
            match written with
            | none => return none
            | some bytesWritten => do
                free allBlocks
                free ioBuf
                return some bytesWritten

/-- `file_read`: the bytes that it puts into the buffer; `none` for -1. -/
def fileRead (fdIdx : Nat) (count : UInt32) : Call (Option (List UInt8)) := do
  let s ← get
  let ptr ← deref (s.fileTable fdIdx).fdInode
  let file : OpenFile := ⟨(s.fileTable fdIdx).fdPos, (s.inode ptr).node⟩
  if atEnd file count then
    return none
  else do
    let ioBuf ← malloc
    match ← malloc with
    | none => return none
    | some allBlocks => do
        let ioBuf ← deref ioBuf
        let (file, bytes) ← onPart fun part =>
          (readData part file (readSize file count)).map fun result => (part, result.1, result.2)
        setOpenFile fdIdx ptr file
        free allBlocks
        free ioBuf
        return some bytes

/-! ### Calls on files -/

/-- `sys_open`. -/
def sysOpen (junk : Junk) (pathname : List UInt8) (flags : Nat) : Call (Option Nat) := do
  let lastChar ← deref (pathname.getLast?.map UInt8.toNat)
  if lastChar = slash.toNat then
    return none
  else do
    check (flags ≤ 7)
    let pathnameDepth ← pathDepthCnt junk pathname
    let searchedRecord ← searchFile junk pathname
    if searchedRecord.fileType = .directory then do
      dirClose searchedRecord.parentDir
      return none
    else do
      let pathSearchedDepth ← pathDepthCnt junk searchedRecord.searchedPath
      if pathnameDepth ≠ pathSearchedDepth then do
        dirClose searchedRecord.parentDir
        return none
      else
        match searchedRecord.inodeNo with
        | none =>
            if hasCreat flags then do
              let fd ← fileCreate searchedRecord.parentDir (lastName pathname) flags
              dirClose searchedRecord.parentDir
              return fd
            else do
              dirClose searchedRecord.parentDir
              return none
        | some inodeNo =>
            if hasCreat flags then do
              dirClose searchedRecord.parentDir
              return none
            else
              fileOpen inodeNo flags

/-- `sys_close`; `false` for -1. -/
def sysClose (fd : Int) : Call Bool := do
  if fd > 2 then do
    let globalFd ← fdLocal2global fd.toNat
    fileClose globalFd
    setFd fd.toNat none
    return true
  else
    return false

/-- `sys_write`. The characters for the screen go through a buffer of 1024. -/
def sysWrite (fd : Int) (buf : Buf) (count : UInt32) : Call (Option UInt32) := do
  if fd < 0 then
    return none
  else if fd = 1 then do
    check (count.toNat ≤ 1024)
    return some count
  else do
    let globalFd ← fdLocal2global fd.toNat
    let s ← get
    if opensForWriting (s.fileTable globalFd).fdFlag then
      fileWrite globalFd buf count
    else
      return none

/-- Characters from the keyboard; with too few of them the call does not return. -/
def readKeys (count : Nat) : Call (List UInt8) := fun s =>
  if count ≤ s.keys.length then some (s.keys.take count, { s with keys := s.keys.drop count })
  else none

/-- `sys_read`. -/
def sysRead (fd : Int) (count : UInt32) : Call (Option (List UInt8)) := do
  if fd < 0 ∨ fd = 1 ∨ fd = 2 then
    return none
  else if fd = 0 then do
    let bytes ← readKeys count.toNat
    return if bytes = [] then none else some bytes
  else do
    let globalFd ← fdLocal2global fd.toNat
    fileRead globalFd count

/-- The `switch` of `sys_lseek`. -/
def seekPos (whence : Nat) (fdPos : UInt32) (fileSize offset : Int32) : Int32 :=
  match whence with
  | 1 => offset
  | 2 => fdPos.toInt32 + offset
  | 3 => fileSize + offset
  | _ => 0

/-- `sys_lseek`; `none` for -1. -/
def sysLseek (fd : Int) (offset : Int32) (whence : Nat) : Call (Option UInt32) := do
  if fd < 0 then
    return none
  else do
    check (0 < whence ∧ whence < 4)
    let globalFd ← fdLocal2global fd.toNat
    let s ← get
    let pf := s.fileTable globalFd
    let ptr ← deref pf.fdInode
    let fileSize := (s.inode ptr).node.iSize.toInt32
    let newPos := seekPos whence pf.fdPos fileSize offset
    if newPos < 0 ∨ fileSize - 1 < newPos then
      return none
    else do
      setFile globalFd { pf with fdPos := newPos.toUInt32 }
      return some newPos.toUInt32

/-- `sys_unlink`; `false` for -1. -/
def sysUnlink (fuel : Nat) (junk : Junk) (pathname : List UInt8) : Call Bool := do
  check (pathname.length < maxPathLen)
  let searchedRecord ← searchFile junk pathname
  check (searchedRecord.inodeNo ≠ some 0)
  match searchedRecord.inodeNo with
  | none => do
      dirClose searchedRecord.parentDir
      return false
  | some inodeNo =>
      if searchedRecord.fileType = .directory then do
        dirClose searchedRecord.parentDir
        return false
      else do
        let s ← get
        let inUse := (List.range maxFileOpen).any fun fileIdx =>
          (s.fileTable fileIdx).fdInode.any fun ptr => (s.inode ptr).iNo = inodeNo
        if inUse then do
          dirClose searchedRecord.parentDir
          return false
        else
          match ← malloc with
          | none => do
              dirClose searchedRecord.parentDir
              return false
          | some ioBuf => do
              let _ ← deleteDirEntry fuel searchedRecord.parentDir inodeNo
              inodeRelease inodeNo
              free ioBuf
              dirClose searchedRecord.parentDir
              return true

/-! ### Calls on directories -/

/-- `sys_mkdir` from the inode number of the new directory on; `false` for a
rollback. -/
def linkDirectory (parentDir : Dir) (dirname : List UInt8) (inodeNo : Nat) : Call Bool := do
  let s ← get
  match ← onPart fun part => part.blockBitmapAlloc with
  | none => return false
  | some blockLba => do
      let newDirInode ← onPart fun part =>
        initDirectory part inodeNo (s.inode parentDir.inode).iNo blockLba
      let newDirEntry ← onPart fun part => (createDirEntry dirname inodeNo .directory).map (part, ·)
      if ← syncDirEntry parentDir newDirEntry then do
        let s ← get
        onPart fun part => do
          let part ← part.inodeSync (s.inode parentDir.inode).node
          let part ← part.inodeSync newDirInode
          return (part.bitmapSync inodeNo .inode, ())
        return true
      else
        return false

/-- `sys_mkdir`; `false` for -1. -/
def sysMkdir (junk : Junk) (pathname : List UInt8) : Call Bool := do
  match ← malloc with
  | none => return false
  | some ioBuf => do
      let searchedRecord ← searchFile junk pathname
      match searchedRecord.inodeNo with
      | some _ => do
          dirClose searchedRecord.parentDir
          free ioBuf
          return false
      | none => do
          let pathnameDepth ← pathDepthCnt junk pathname
          let pathSearchedDepth ← pathDepthCnt junk searchedRecord.searchedPath
          if pathnameDepth ≠ pathSearchedDepth then do
            dirClose searchedRecord.parentDir
            free ioBuf
            return false
          else
            match ← onPart fun part => part.inodeBitmapAlloc with
            | none => do
                dirClose searchedRecord.parentDir
                free ioBuf
                return false
            | some inodeNo => do
                if ← linkDirectory searchedRecord.parentDir (lastName searchedRecord.searchedPath)
                    inodeNo then do
                  free ioBuf
                  dirClose searchedRecord.parentDir
                  return true
                else do
                  onPart fun part => some (part.setInodeBit inodeNo false, ())
                  dirClose searchedRecord.parentDir
                  free ioBuf
                  return false

/-- `sys_opendir`. The condition for `/.` asks for the first character twice, so
that only `/` is taken for the root directory at once. -/
def sysOpendir (junk : Junk) (name : List UInt8) : Call (Option Dir) := do
  check (name.length < maxPathLen)
  if name = [slash] then do
    let s ← get
    return some (rootDir s)
  else do
    let searchedRecord ← searchFile junk name
    match searchedRecord.inodeNo with
    | none => do
        dirClose searchedRecord.parentDir
        return none
    | some inodeNo =>
        if searchedRecord.fileType = .directory then do
          let dir ← dirOpen inodeNo
          dirClose searchedRecord.parentDir
          modify fun s => { s with dirs := dir :: s.dirs }
          return some dir
        else do
          dirClose searchedRecord.parentDir
          return none

/-- `sys_closedir` of a directory that the task has open. -/
def sysClosedir (dir : Dir) : Call Unit := do
  let s ← get
  if dir = rootDir s then
    return ()
  else do
    check (dir ∈ s.dirs)
    modify fun s => { s with dirs := s.dirs.erase dir }
    dirClose dir

/-- `sys_rmdir`; `false` for -1. -/
def sysRmdir (fuel : Nat) (junk : Junk) (pathname : List UInt8) : Call Bool := do
  let searchedRecord ← searchFile junk pathname
  check (searchedRecord.inodeNo ≠ some 0)
  match searchedRecord.inodeNo with
  | none => do
      dirClose searchedRecord.parentDir
      return false
  | some inodeNo =>
      if searchedRecord.fileType = .regular then do
        dirClose searchedRecord.parentDir
        return false
      else do
        let dir ← dirOpen inodeNo
        if ← dirIsEmpty dir then do
          let removed ← dirRemove fuel searchedRecord.parentDir dir
          dirClose dir
          dirClose searchedRecord.parentDir
          return removed
        else do
          dirClose dir
          dirClose searchedRecord.parentDir
          return false

/-- `get_parent_dir_inode_nr`. -/
def getParentDirInodeNr (childInodeNr : Nat) : Call Nat := do
  let childDirInode ← inodeOpen childInodeNr
  let s ← get
  let blockLba := sectorOf (s.inode childDirInode).node 0
  check (s.part.dataStartLba ≤ blockLba)
  inodeClose childDirInode
  let dirE := dirEntryAt (ideRead s.part.disk blockLba 1) 1
  check (dirE.iNo < 4096 ∧ dirE.fType = .directory)
  return dirE.iNo

/-- `get_child_dir_name`: the path with the name at its end; `none` for -1. -/
def getChildDirName (pInodeNr cInodeNr : Nat) (path : List UInt8) : Call (Option (List UInt8)) := do
  let parentDirInode ← inodeOpen pInodeNr
  let s ← get
  let blocks := allBlocks s.part.disk (searchInode (s.inode parentDirInode).node)
  inodeClose parentDirInode
  match findChild s.part.disk blocks cInodeNr with
  | none => return none
  | some dirE => do
      check (dirE.name.length < maxFileNameLen)
      return some (path ++ [slash] ++ dirE.name)

/-- The first loop of `sys_getcwd`, over `fuel` directories at most. -/
def climbLoop : Nat → (childInodeNr : Nat) → (fullPathReverse : List UInt8) →
    Call (Option (List UInt8))
  | 0, _, _ => failure
  | fuel + 1, childInodeNr, fullPathReverse =>
      if childInodeNr = 0 then
        return some fullPathReverse
      else do
        let parentInodeNr ← getParentDirInodeNr childInodeNr
        match ← getChildDirName parentInodeNr childInodeNr fullPathReverse with
        | none => return none
        | some fullPathReverse => do
            check (fullPathReverse.length < maxPathLen)
            climbLoop fuel parentInodeNr fullPathReverse

/-- `sys_getcwd`: the string in `buf`; `none` for `NULL`. -/
def sysGetcwd (fuel size : Nat) : Call (Option (List UInt8)) := do
  match ← malloc with
  | none => return none
  | some ioBuf => do
      let s ← get
      let childInodeNr := s.cwdInodeNr s.cur
      check (childInodeNr < 4096)
      if childInodeNr = 0 then
        return some [slash]
      else
        match ← climbLoop fuel childInodeNr [] with
        | none => do
            free ioBuf
            return none
        | some fullPathReverse => do
            check (fullPathReverse.length ≤ size)
            let buf ← onPart fun part => (reverseLoop fuel fullPathReverse []).map (part, ·)
            free ioBuf
            return some buf

/-- `sys_chdir`; `false` for -1. -/
def sysChdir (junk : Junk) (path : List UInt8) : Call Bool := do
  let searchedRecord ← searchFile junk path
  match searchedRecord.inodeNo with
  | none => do
      dirClose searchedRecord.parentDir
      return false
  | some inodeNo =>
      if searchedRecord.fileType = .directory then do
        modify fun s => { s with cwdInodeNr := Function.update s.cwdInodeNr s.cur inodeNo }
        dirClose searchedRecord.parentDir
        return true
      else do
        dirClose searchedRecord.parentDir
        return false

/-- `struct stat`. -/
structure Stat where
  stIno : Nat
  stSize : UInt32
  stFiletype : FileTypes

/-- `sys_stat`; `none` for -1. -/
def sysStat (junk : Junk) (path : List UInt8) : Call (Option Stat) := do
  if isRootPath path then do
    let s ← get
    return some ⟨0, (s.inode s.rootInode).node.iSize, .directory⟩
  else do
    let searchedRecord ← searchFile junk path
    match searchedRecord.inodeNo with
    | none => do
        dirClose searchedRecord.parentDir
        return none
    | some inodeNo => do
        let objInode ← inodeOpen inodeNo
        let s ← get
        let stSize := (s.inode objInode).node.iSize
        inodeClose objInode
        dirClose searchedRecord.parentDir
        return some ⟨inodeNo, stSize, searchedRecord.fileType⟩

/-! ### Forking -/

/-- `update_inode_open_cnts`, for the descriptors that are left. -/
def updateInodeOpenCnts : List Nat → Call Unit
  | [] => pure ()
  | localFd :: rest => do
      let s ← get
      match s.fdTable s.cur localFd with
      | none => updateInodeOpenCnts rest
      | some globalFd => do
          check (globalFd < maxFileOpen)
          let ptr ← deref (s.fileTable globalFd).fdInode
          setInode ptr { s.inode ptr with iOpenCnts := (s.inode ptr).iOpenCnts + 1 }
          updateInodeOpenCnts rest

/-- `sys_fork`: the child has the descriptors and the working directory of its
parent. -/
def sysFork (child : Pid) : Call Unit := do
  let s ← get
  check (s.pgdirNull s.cur = false)
  updateInodeOpenCnts (List.range' 3 (maxFilesOpenPerProc - 3))
  modify fun s => { s with
    fdTable := Function.update s.fdTable child (s.fdTable s.cur)
    cwdInodeNr := Function.update s.cwdInodeNr child (s.cwdInodeNr s.cur)
    pgdirNull := Function.update s.pgdirNull child false }

end ZyOs.Fs.Calls
