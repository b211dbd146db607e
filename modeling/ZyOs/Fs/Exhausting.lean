import ZyOs.Fs.DiskFull
import ZyOs.Fs.Calls

/-!
Contract: `file_write`, `file_create` and `sys_mkdir` over any allocation.

Owns: the three calls, each -1 with its cause, and that over the allocations of the
volume they are the calls of the model.

Everything but `block_bitmap_alloc` and `inode_bitmap_alloc` is that of the model. The
second of them returns -1 when there is no inode, the first when there is no block.
-/

namespace ZyOs.Fs.Exhausting

open ZyOs.Kernel ZyOs.Memory ZyOs.Lib
open ZyOs.Fs.Calls
open ZyOs.Fs.DiskFull (Alloc)

/-! ### The calls -/

/-- Why a call returns -1: for want of a block or an inode, or for another reason. -/
inductive Cause where
  | exhausted
  | other
deriving DecidableEq

/-- `file_write`. -/
def fileWrite (alloc : Alloc) (fdIdx : Nat) (buf : Buf) (count : UInt32) : Call (Except Cause UInt32) := do
  let s ← get
  let ptr ← deref (s.fileTable fdIdx).fdInode
  let node := (s.inode ptr).node
  if node.iSize + count > maxFileSize then
    return .error .other
  else do
    match ← malloc with
    | none => return .error .other
    | some ioBuf => do
        match ← malloc with
        | none => return .error .other
        | some allBlocks => do
            let (file, written) ← onPart fun part =>
              (DiskFull.writeData alloc part ⟨(s.fileTable fdIdx).fdPos, node⟩ buf count).map fun result =>
                (result.1, result.2.1, result.2.2)
            setOpenFile fdIdx ptr file
            match written with
            | none => return .error .exhausted
            | some bytesWritten => do
                free allBlocks
                free ioBuf
                return .ok bytesWritten

/-- `sync_dir_entry`. -/
def syncDirEntry (alloc : Alloc) (parentDir : Calls.Dir) (pDe : DirEntry) : Call Bool := do
  let s ← get
  let (node, done) ← onPart fun part =>
    (DiskFull.syncDirEntry alloc part (s.inode parentDir.inode).node pDe).map fun result =>
      (result.1, result.2.1, result.2.2)
  setNode parentDir.inode node
  return done

/-- `file_create` from its new inode on: `none` inside for a rollback. -/
def createEntry (alloc : Alloc) (parentDir : Calls.Dir) (filename : List UInt8) (inodeNo fdIdx : Nat) (ptr : Ptr) :
    Call Bool := do
  let newDirEntry ← onPart fun part => (createDirEntry filename inodeNo .regular).map (part, ·)
  if ← syncDirEntry alloc parentDir newDirEntry then do
    let s ← get
    onPart fun part => do
      let part ← part.inodeSync (s.inode parentDir.inode).node
      let part ← part.inodeSync (inodeInit inodeNo)
      return (part.bitmapSync inodeNo .inode, ())
    pushInode ptr (inodeInit inodeNo) false
    return true
  else do
    setFile fdIdx ⟨0, 0, none⟩
    return false

/-- `file_create`. -/
def fileCreate (alloc inodeAlloc : Alloc) (parentDir : Calls.Dir) (filename : List UInt8) (flag : Nat) :
    Call (Except Cause Nat) := do
  match ← malloc with
  | none => return .error .other
  | some ioBuf => do
      match ← onPart inodeAlloc with
      | none => return .error .exhausted
      | some inodeNo => do
          let unset := onPart fun part => some (part.setInodeBit inodeNo false, ())
          match ← malloc with
          | none => do
              unset
              free ioBuf
              return .error .other
          | some newFileInode => do
              match ← getFreeSlotInGlobal with
              | none => do
                  free newFileInode
                  unset
                  free ioBuf
                  return .error .other
              | some fdIdx => do
                  setFile fdIdx ⟨0, flag, some newFileInode⟩
                  if ← createEntry alloc parentDir filename inodeNo fdIdx newFileInode then do
                    free ioBuf
                    match ← pcbFdInstall fdIdx with
                    | none => return .error .other
                    | some fd => return .ok fd
                  else do
                    free newFileInode
                    unset
                    free ioBuf
                    return .error .exhausted

/-- `sys_mkdir` from the inode number of the new directory on. -/
def linkDirectory (alloc : Alloc) (parentDir : Calls.Dir) (dirname : List UInt8) (inodeNo : Nat) : Call Bool := do
  let s ← get
  match ← onPart alloc with
  | none => return false
  | some blockLba => do
      let newDirInode ← onPart fun part =>
        initDirectory part inodeNo (s.inode parentDir.inode).iNo blockLba
      let newDirEntry ← onPart fun part => (createDirEntry dirname inodeNo .directory).map (part, ·)
      if ← syncDirEntry alloc parentDir newDirEntry then do
        let s ← get
        onPart fun part => do
          let part ← part.inodeSync (s.inode parentDir.inode).node
          let part ← part.inodeSync newDirInode
          return (part.bitmapSync inodeNo .inode, ())
        return true
      else
        return false

/-- `sys_mkdir`. -/
def sysMkdir (alloc inodeAlloc : Alloc) (junk : Junk) (pathname : List UInt8) : Call (Except Cause Unit) := do
  match ← malloc with
  | none => return .error .other
  | some ioBuf => do
      let searchedRecord ← Calls.searchFile junk pathname
      match searchedRecord.inodeNo with
      | some _ => do
          dirClose searchedRecord.parentDir
          free ioBuf
          return .error .other
      | none => do
          let pathnameDepth ← pathDepthCnt junk pathname
          let pathSearchedDepth ← pathDepthCnt junk searchedRecord.searchedPath
          if pathnameDepth ≠ pathSearchedDepth then do
            dirClose searchedRecord.parentDir
            free ioBuf
            return .error .other
          else
            match ← onPart inodeAlloc with
            | none => do
                dirClose searchedRecord.parentDir
                free ioBuf
                return .error .exhausted
            | some inodeNo => do
                if ← linkDirectory alloc searchedRecord.parentDir (lastName searchedRecord.searchedPath)
                    inodeNo then do
                  free ioBuf
                  dirClose searchedRecord.parentDir
                  return .ok ()
                else do
                  onPart fun part => some (part.setInodeBit inodeNo false, ())
                  dirClose searchedRecord.parentDir
                  free ioBuf
                  return .error .exhausted

/-! ### The model -/

theorem syncDirEntry_model : syncDirEntry Volume.blockBitmapAlloc = Calls.syncDirEntry := by
  unfold syncDirEntry
  rw [DiskFull.syncDirEntry_model]
  rfl

theorem createEntry_model : createEntry Volume.blockBitmapAlloc = Calls.createEntry := by
  unfold createEntry
  rw [syncDirEntry_model]
  rfl

theorem linkDirectory_model : linkDirectory Volume.blockBitmapAlloc = Calls.linkDirectory := by
  unfold linkDirectory
  rw [syncDirEntry_model]
  rfl

theorem fileWrite_model (fdIdx : Nat) (buf : Buf) (count : UInt32) :
    Except.toOption <$> fileWrite Volume.blockBitmapAlloc fdIdx buf count =
      Calls.fileWrite fdIdx buf count := by
  unfold fileWrite Calls.fileWrite
  rw [DiskFull.writeData_model]
  simp only [map_bind]
  refine bind_congr fun s => bind_congr fun ptr => ?_
  split
  · rfl
  · simp only [map_bind]
    refine bind_congr fun first => ?_
    cases first with
    | none => rfl
    | some ioBuf =>
        simp only [map_bind]
        refine bind_congr fun second => ?_
        cases second with
        | none => rfl
        | some allBlocks =>
            simp only [map_bind]
            refine bind_congr fun result => bind_congr fun _ => ?_
            cases result.2 with
            | none => rfl
            | some bytesWritten =>
                simp only [map_bind, map_pure]
                rfl

/-- Over the allocations of the volume, it is the `file_create` of the model. -/
theorem fileCreate_model (parentDir : Calls.Dir) (filename : List UInt8) (flag : Nat) :
    Except.toOption <$> fileCreate Volume.blockBitmapAlloc Volume.inodeBitmapAlloc parentDir filename flag =
      Calls.fileCreate parentDir filename flag := by
  unfold fileCreate Calls.fileCreate
  rw [createEntry_model]
  simp only [map_bind]
  refine bind_congr fun first => ?_
  cases first with
  | none => rfl
  | some ioBuf =>
      simp only [map_bind]
      refine bind_congr fun allocated => ?_
      cases allocated with
      | none => rfl
      | some inodeNo =>
          simp only [map_bind]
          refine bind_congr fun second => ?_
          cases second with
          | none =>
              simp only [map_bind, map_pure]
              rfl
          | some newFileInode =>
              simp only [map_bind]
              refine bind_congr fun found => ?_
              cases found with
              | none =>
                  simp only [map_bind, map_pure]
                  rfl
              | some fdIdx =>
                  simp only [map_bind]
                  refine bind_congr fun _ => bind_congr fun created => ?_
                  cases created with
                  | false =>
                      simp only [Bool.false_eq_true, if_false, map_bind, map_pure]
                      rfl
                  | true =>
                      simp only [if_true, map_bind]
                      refine bind_congr fun _ => ?_
                      rw [← bind_pure (Calls.pcbFdInstall fdIdx)]
                      simp only [bind_assoc, pure_bind]
                      refine bind_congr fun installed => ?_
                      cases installed with
                      | none => rfl
                      | some fd => rfl

/-- Over the allocations of the volume, it is the `sys_mkdir` of the model. -/
theorem sysMkdir_model (junk : Junk) (pathname : List UInt8) :
    Except.isOk <$> sysMkdir Volume.blockBitmapAlloc Volume.inodeBitmapAlloc junk pathname =
      Calls.sysMkdir junk pathname := by
  unfold sysMkdir Calls.sysMkdir
  rw [linkDirectory_model]
  simp only [map_bind]
  refine bind_congr fun first => ?_
  cases first with
  | none => rfl
  | some ioBuf =>
      simp only [map_bind]
      refine bind_congr fun searchedRecord => ?_
      cases searchedRecord.inodeNo with
      | some _ =>
          simp only [map_bind, map_pure]
          rfl
      | none =>
          simp only [map_bind]
          refine bind_congr fun pathnameDepth => bind_congr fun pathSearchedDepth => ?_
          split
          · simp only [map_bind, map_pure]
            rfl
          · simp only [map_bind]
            refine bind_congr fun allocated => ?_
            cases allocated with
            | none =>
                simp only [map_bind, map_pure]
                rfl
            | some inodeNo =>
                simp only [map_bind]
                refine bind_congr fun linked => ?_
                cases linked with
                | true =>
                    simp only [if_true, map_bind, map_pure]
                    rfl
                | false =>
                    simp only [Bool.false_eq_true, if_false, map_bind, map_pure]
                    rfl

end ZyOs.Fs.Exhausting
