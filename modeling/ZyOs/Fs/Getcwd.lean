import ZyOs.Fs.CanonicalPath

/-!
Contract: `sys_getcwd` writes the canonical path of the directory that
`sys_chdir` went to.

Owns:
- `get_parent_dir_inode_nr` and `get_child_dir_name`, the two steps of the climb
  from a directory to the root;
- the string that the climb collects from its end, and the loop that turns it
  around by cuts at the last slash.

A C string is the list of its bytes before the terminating zero. `sys_malloc`
succeeds. A result of `none` is a failed `ASSERT`, a file name without a
terminating zero, or a write behind the end of `full_path_reverse`.
-/

namespace ZyOs.Fs

open ZyOs.Lib

/-! ### `sys_getcwd` and `sys_chdir` -/

/-- `inode_close`. -/
def Partition.inodeClose (part : Partition) (inode : DirInode) : Partition :=
  { part with openInodes := countClose inode.iNo part.openInodes }

/-- `get_parent_dir_inode_nr`. -/
def getParentDirInodeNr (part : Partition) (dataStartLba childInodeNr : Nat) :
    Option (Partition × Nat) := do
  let (part, childDirInode) ← part.inodeOpen childInodeNr
  let blockLba := childDirInode.iSectors.getD 0 0
  guard (dataStartLba ≤ blockLba)
  let part := part.inodeClose childDirInode
  let dirE := dirEntryAt (ideRead part.disk blockLba 1) 1
  guard (dirE.iNo < 4096 ∧ dirE.fType = .directory)
  return (part, dirE.iNo)

/-- The first entry with this inode number, in these blocks. -/
def findChild (disk : Disk) (blocks : List Nat) (cInodeNr : Nat) : Option DirEntry :=
  blocks.findSome? fun lba =>
    if lba = 0 then none
    else (sectorEntries (ideRead disk lba 1)).find? fun dirE => dirE.iNo = cInodeNr

/-- `get_child_dir_name`: the path with the name at its end; `none` inside for -1. -/
def getChildDirName (part : Partition) (pInodeNr cInodeNr : Nat) (path : List UInt8) :
    Option (Partition × Option (List UInt8)) := do
  let (part, parentDirInode) ← part.inodeOpen pInodeNr
  let blockCnt := if parentDirInode.iSectors.getD 12 0 ≠ 0 then 140 else 12
  let blocks := (allBlocks part.disk parentDirInode).take blockCnt
  let part := part.inodeClose parentDirInode
  match findChild part.disk blocks cInodeNr with
  | none => return (part, none)
  | some dirE => do
      guard (dirE.name.length < maxFileNameLen)
      return (part, some (path ++ [slash] ++ dirE.name))

/-- The first loop of `sys_getcwd`, over `fuel` directories at most. -/
def climbLoop (dataStartLba : Nat) : Nat → Partition → (childInodeNr : Nat) →
    (fullPathReverse : List UInt8) → Option (Partition × Option (List UInt8))
  | 0, _, _, _ => none
  | fuel + 1, part, childInodeNr, fullPathReverse =>
      if childInodeNr = 0 then some (part, some fullPathReverse)
      else do
        let (part, parentInodeNr) ← getParentDirInodeNr part dataStartLba childInodeNr
        let (part, path) ← getChildDirName part parentInodeNr childInodeNr fullPathReverse
        match path with
        | none => return (part, none)
        | some fullPathReverse => do
            guard (fullPathReverse.length < maxPathLen)
            climbLoop dataStartLba fuel part parentInodeNr fullPathReverse

/-- The second loop of `sys_getcwd`; `len` has 16 bits. -/
def reverseLoop : Nat → (fullPathReverse buf : List UInt8) → Option (List UInt8)
  | 0, _, _ => none
  | fuel + 1, fullPathReverse, buf =>
      match strrchr fullPathReverse slash with
      | none => some buf
      | some lastSlash =>
          let len := buf.length % 65536
          reverseLoop fuel (fullPathReverse.take lastSlash)
            (buf.take len ++ fullPathReverse.drop lastSlash)

/-- `sys_getcwd`: the string in `buf`; `none` inside for `NULL`. -/
def sysGetcwd (fuel : Nat) (part : Partition) (dataStartLba : Nat) (cwdInodeNr : Int)
    (size : Nat) : Option (Partition × Option (List UInt8)) := do
  let childInodeNr := cwdInodeNr
  guard (0 ≤ childInodeNr ∧ childInodeNr < 4096)
  if childInodeNr = 0 then
    return (part, some [slash])
  else do
    let (part, path) ← climbLoop dataStartLba fuel part childInodeNr.toNat []
    match path with
    | none => return (part, none)
    | some fullPathReverse => do
        guard (fullPathReverse.length ≤ size)
        let buf ← reverseLoop fuel fullPathReverse []
        return (part, some buf)

/-- `sys_chdir`: the new `cwd_inode_nr`, and what is returned. -/
def sysChdir (part : Partition) (dirE : DirEntry) (cwdInodeNr : Int) (path : List UInt8) :
    Option (Partition × Int × Int) := do
  let (part, searchedRecord) ← searchFile part dirE path
  let part := part.dirClose searchedRecord.parentDir
  if searchedRecord.ret ≠ -1 ∧ searchedRecord.fileType = .directory then
    return (part, searchedRecord.ret, 0)
  else
    return (part, cwdInodeNr, -1)

/-! ### The tree that is climbed -/

variable {disk : Disk} {inodeTableLba : Nat}

/-- The slots of the directory with this inode number, in use or not. -/
def slotsAt (disk : Disk) (inode : DirInode) : List DirEntry :=
  ((allBlocks disk inode).filter (· ≠ 0)).flatMap fun lba => sectorEntries (ideRead disk lba 1)

/-- The first block of a directory is a data block that starts with `.` and `..`. -/
structure StartsWithDots (disk : Disk) (dataStartLba iNo parent : Nat) (inode : DirInode) : Prop where
  isData : dataStartLba ≤ inode.iSectors.getD 0 0
  dotName : (dirEntryAt (ideRead disk (inode.iSectors.getD 0 0) 1) 0).name = [dot]
  dotNo : (dirEntryAt (ideRead disk (inode.iSectors.getD 0 0) 1) 0).iNo = iNo
  dotDotName : (dirEntryAt (ideRead disk (inode.iSectors.getD 0 0) 1) 1).name = [dot, dot]
  dotDotNo : (dirEntryAt (ideRead disk (inode.iSectors.getD 0 0) 1) 1).iNo = parent
  dotDotType : (dirEntryAt (ideRead disk (inode.iSectors.getD 0 0) 1) 1).fType = .directory

/-- What makes the directories a tree: each has one entry besides those of the
dots, in its parent, and a slot that is not in use has been cleared. -/
structure Tree.IsRooted (tree : Tree disk inodeTableLba) (dataStartLba : Nat) : Prop where
  leadsBack : tree.LeadsBack
  dots : ∀ dir, tree.isDir dir → ∀ inode, inodeRead disk inodeTableLba dir = some inode →
    StartsWithDots disk dataStartLba dir (tree.parent dir) inode
  isName : ∀ dir, tree.isDir dir → ∀ entry ∈ dirAt disk inodeTableLba dir,
    entry.name.length < maxFileNameLen ∧ slash ∉ entry.name
  notRoot : ∀ dir, tree.isDir dir → ∀ entry ∈ dirAt disk inodeTableLba dir,
    IsProper entry.name → entry.iNo ≠ 0
  single : ∀ dir, tree.isDir dir → ∀ entry ∈ dirAt disk inodeTableLba dir,
    ∀ entry' ∈ dirAt disk inodeTableLba dir, IsProper entry.name → IsProper entry'.name →
      entry.iNo = entry'.iNo → entry = entry'
  cleared : ∀ dir, tree.isDir dir → ∀ inode, inodeRead disk inodeTableLba dir = some inode →
    ∀ slot ∈ slotsAt disk inode, slot.name = [] → slot.iNo = 0

variable {tree : Tree disk inodeTableLba} {dataStartLba : Nat} {names : List (List UInt8)} {dir : Nat}

theorem Tree.isDir_lt (tree : Tree disk inodeTableLba) (isDir : tree.isDir dir) : dir < 4096 := by
  obtain ⟨inode, isRead, _⟩ := tree.inode dir isDir
  by_contra tooLarge
  rw [inodeRead, inodeLocate, if_neg tooLarge] at isRead
  cases isRead

theorem Tree.isDir_parent (tree : Tree disk inodeTableLba) (isDir : tree.isDir dir) :
    tree.isDir (tree.parent dir) := by
  obtain ⟨up, mem, _, isNo, isDirectory⟩ := tree.up dir isDir
  rw [← isNo]
  exact tree.isDir_of_entry isDir mem isDirectory

/-- Either it is the root, or there is a last step. -/
theorem Descends.inv (descends : Descends disk inodeTableLba names dir) :
    (names = [] ∧ dir = 0) ∨
      ∃ init above entry, Descends disk inodeTableLba init above ∧
        entry ∈ dirAt disk inodeTableLba above ∧ entry.fType = .directory ∧ IsProper entry.name ∧
        names = init ++ [entry.name] ∧ dir = entry.iNo := by
  cases descends with
  | root => exact .inl ⟨rfl, rfl⟩
  | step descends mem isDirectory proper =>
      exact .inr ⟨_, _, _, descends, mem, isDirectory, proper, rfl, rfl⟩

/-- All ways down to a directory have one length. -/
theorem Descends.length_eq (descends : Descends disk inodeTableLba names dir)
    (rooted : tree.IsRooted dataStartLba) {names' : List (List UInt8)}
    (descends' : Descends disk inodeTableLba names' dir) : names.length = names'.length := by
  induction descends generalizing names' with
  | root =>
      rcases descends'.inv with ⟨rfl, _⟩ | ⟨_, _, entry, above, mem, _, proper, _, isRoot⟩
      · rfl
      · exact absurd isRoot.symm (rooted.notRoot _ above.isDir entry mem proper)
  | @step names dir entry descends mem isDirectory proper inductionHypothesis =>
      rcases descends'.inv with
        ⟨_, isRoot⟩ | ⟨init, above, entry', way, mem', isDirectory', proper', rfl, same⟩
      · exact absurd isRoot (rooted.notRoot _ descends.isDir entry mem proper)
      · have parent := rooted.leadsBack _ descends.isDir entry mem isDirectory proper
        have parent' := rooted.leadsBack _ way.isDir entry' mem' isDirectory' proper'
        rw [← same, parent] at parent'
        subst parent'
        have length := inductionHypothesis way
        simp only [List.length_append, List.length_cons, List.length_nil]
        omega

/-- An entry with the number of a directory below is that directory's own entry. -/
theorem Tree.IsRooted.eq_of_iNo (rooted : tree.IsRooted dataStartLba)
    (descends : Descends disk inodeTableLba names dir) {entry : DirEntry}
    (mem : entry ∈ dirAt disk inodeTableLba dir) (isDirectory : entry.fType = .directory)
    (proper : IsProper entry.name) {other : DirEntry}
    (otherMem : other ∈ dirAt disk inodeTableLba dir) (sameNo : other.iNo = entry.iNo) :
    other = entry := by
  have isDir : tree.isDir dir := descends.isDir
  have below := Descends.step descends mem isDirectory proper
  by_cases isDot : other.name = [dot]
  · -- the directory would be below itself
    rw [← sameNo, (tree.entry_dot isDir otherMem isDot).1] at below
    have length := descends.length_eq rooted below
    simp at length
  · by_cases isDotDot : other.name = [dot, dot]
    · -- the directory would be above its parent
      rw [← sameNo, (tree.entry_dotDot isDir otherMem isDotDot).1] at below
      have length := (descends.dropLast rooted.leadsBack).length_eq rooted below
      simp only [List.length_dropLast, List.length_append, List.length_cons, List.length_nil]
        at length
      omega
    · exact rooted.single dir isDir other otherMem entry mem ⟨isDot, isDotDot⟩ proper sameNo

/-! ### The two steps of the climb -/

variable {part : Partition}

theorem Mirrors.inodeClose (mirrors : Mirrors tree part) (inode : DirInode) :
    Mirrors tree (part.inodeClose inode) :=
  mirrors.of_openInodes fun _ mem => mem_countClose mem

theorem Mirrors.inodeOpen (mirrors : Mirrors tree part) (isDir : tree.isDir dir) :
    ∃ part' inode read, part.inodeOpen dir = some (part', inode) ∧ Mirrors tree part' ∧
      inodeRead disk inodeTableLba dir = some read ∧ inode.iSectors = read.iSectors := by
  obtain ⟨part', opened, isOpened, mirrors', isOpen, sameNo⟩ := mirrors.dirOpen isDir
  obtain ⟨read, isRead, sameSectors⟩ := isOpen.inode
  unfold Partition.dirOpen at isOpened
  cases isInode : part.inodeOpen dir with
  | none =>
      rw [isInode] at isOpened
      cases isOpened
  | some result =>
      rw [isInode] at isOpened
      cases isOpened
      exact ⟨_, _, read, rfl, mirrors', by rw [← sameNo]; exact isRead, sameSectors⟩

/-- The entry `..` of the first block is read. -/
theorem getParentDirInodeNr_eq (mirrors : Mirrors tree part) (rooted : tree.IsRooted dataStartLba)
    (isDir : tree.isDir dir) :
    ∃ part', getParentDirInodeNr part dataStartLba dir = some (part', tree.parent dir) ∧
      Mirrors tree part' := by
  obtain ⟨part', inode, read, opened, mirrors', isRead, sameSectors⟩ := mirrors.inodeOpen isDir
  have dots := rooted.dots dir isDir read isRead
  have small := tree.isDir_lt (tree.isDir_parent isDir)
  refine ⟨part'.inodeClose inode, ?_, mirrors'.inodeClose inode⟩
  unfold getParentDirInodeNr
  rw [opened]
  simp only [Option.bind_eq_bind, Option.bind_some, sameSectors, dots.isData, guard_true,
    (mirrors'.inodeClose inode).sameDisk, dots.dotDotNo, dots.dotDotType, small, and_self]
  rfl

theorem filter_replicate_zero (count : Nat) :
    (List.replicate count 0).filter (fun lba : Nat => decide (lba ≠ 0)) = [] := by
  rw [List.filter_replicate]
  simp

/-- Without a table the blocks that are left out are not there. -/
theorem allBlocks_take (inode : DirInode) :
    ((allBlocks disk inode).take (if inode.iSectors.getD 12 0 ≠ 0 then 140 else 12)).filter (· ≠ 0) =
      (allBlocks disk inode).filter (· ≠ 0) := by
  unfold allBlocks
  split
  · rw [List.take_of_length_le (by simp)]
  · rw [List.take_append, List.filter_append, List.filter_append, List.take_replicate,
      filter_replicate_zero, filter_replicate_zero, List.take_take, Nat.min_self]

/-- The two loops of `get_child_dir_name` find the first slot with the number. -/
theorem findChild_eq (inode : DirInode) (cInodeNr : Nat) :
    findChild disk ((allBlocks disk inode).take
      (if inode.iSectors.getD 12 0 ≠ 0 then 140 else 12)) cInodeNr =
      (slotsAt disk inode).find? fun slot => slot.iNo = cInodeNr := by
  rw [findChild, findSome?_blocks, allBlocks_take, slotsAt, List.find?_flatMap]

theorem mem_dirAt {inode : DirInode} (isRead : inodeRead disk inodeTableLba dir = some inode)
    {slot : DirEntry} :
    slot ∈ dirAt disk inodeTableLba dir ↔ slot ∈ slotsAt disk inode ∧ slot.name ≠ [] := by
  rw [dirAt, isRead, Option.map_some, Option.getD_some, dirEntries, slotsAt, List.mem_filter,
    decide_eq_true_iff]

/-- The slot that is found is the entry of the child. -/
theorem Tree.IsRooted.find_slot (rooted : tree.IsRooted dataStartLba)
    (descends : Descends disk inodeTableLba names dir) {inode : DirInode}
    (isRead : inodeRead disk inodeTableLba dir = some inode) {entry : DirEntry}
    (mem : entry ∈ dirAt disk inodeTableLba dir) (isDirectory : entry.fType = .directory)
    (proper : IsProper entry.name) :
    ((slotsAt disk inode).find? fun slot => slot.iNo = entry.iNo) = some entry := by
  have isDir : tree.isDir dir := descends.isDir
  cases isFound : (slotsAt disk inode).find? fun slot => decide (slot.iNo = entry.iNo) with
  | none =>
      have differs := List.find?_eq_none.mp isFound entry ((mem_dirAt isRead).mp mem).1
      simp at differs
  | some slot =>
      have slotMem := List.mem_of_find?_eq_some isFound
      have sameNo : slot.iNo = entry.iNo := by simpa using List.find?_some isFound
      have inUse : slot.name ≠ [] := by
        intro isNil
        rw [rooted.cleared dir isDir inode isRead slot slotMem isNil] at sameNo
        exact rooted.notRoot dir isDir entry mem proper sameNo.symm
      rw [rooted.eq_of_iNo descends mem isDirectory proper
        ((mem_dirAt isRead).mpr ⟨slotMem, inUse⟩) sameNo]

/-- The name of the child is put at the end of the path. -/
theorem getChildDirName_eq (mirrors : Mirrors tree part) (rooted : tree.IsRooted dataStartLba)
    (descends : Descends disk inodeTableLba names dir) {entry : DirEntry}
    (mem : entry ∈ dirAt disk inodeTableLba dir) (isDirectory : entry.fType = .directory)
    (proper : IsProper entry.name) (path : List UInt8) :
    ∃ part', getChildDirName part dir entry.iNo path =
        some (part', some (path ++ slash :: entry.name)) ∧ Mirrors tree part' := by
  have isDir : tree.isDir dir := descends.isDir
  obtain ⟨part', inode, read, opened, mirrors', isRead, sameSectors⟩ := mirrors.inodeOpen isDir
  have sameBlocks : allBlocks disk inode = allBlocks disk read := by
    simp only [allBlocks, sameSectors]
  have short := (rooted.isName dir isDir entry mem).1
  refine ⟨part'.inodeClose inode, ?_, mirrors'.inodeClose inode⟩
  unfold getChildDirName
  rw [opened]
  simp only [Option.bind_eq_bind, Option.bind_some, mirrors'.sameDisk,
    (mirrors'.inodeClose inode).sameDisk, sameBlocks, sameSectors, findChild_eq,
    rooted.find_slot descends isRead mem isDirectory proper, short, guard_true]
  simp

/-! ### The climb -/

/-- The names come out from the last to the first. -/
theorem climbLoop_eq (rooted : tree.IsRooted dataStartLba)
    (descends : Descends disk inodeTableLba names dir) {fuel : Nat} (enough : names.length < fuel)
    (mirrors : Mirrors tree part) {path : List UInt8}
    (short : path.length + (pathOf names).length < maxPathLen) :
    ∃ part', climbLoop dataStartLba fuel part dir path =
        some (part', some (path ++ pathOf names.reverse)) ∧ Mirrors tree part' := by
  induction descends generalizing fuel part path with
  | root =>
      cases fuel with
      | zero => exact absurd enough (Nat.not_lt_zero _)
      | succ fuel =>
          refine ⟨part, ?_, mirrors⟩
          rw [climbLoop, if_pos rfl]
          simp [pathOf]
  | @step names dir entry descends mem isDirectory proper inductionHypothesis =>
      cases fuel with
      | zero => exact absurd enough (Nat.not_lt_zero _)
      | succ fuel =>
          have isDir : tree.isDir dir := descends.isDir
          have notRoot := rooted.notRoot dir isDir entry mem proper
          obtain ⟨upPart, isUp, upMirrors⟩ := getParentDirInodeNr_eq mirrors rooted
            (tree.isDir_of_entry isDir mem isDirectory)
          rw [rooted.leadsBack dir isDir entry mem isDirectory proper] at isUp
          obtain ⟨namePart, isName, nameMirrors⟩ :=
            getChildDirName_eq upMirrors rooted descends mem isDirectory proper path
          rw [pathOf_concat] at short
          simp only [List.length_append, List.length_cons, List.length_nil] at enough short
          have shortName : (path ++ slash :: entry.name).length < maxPathLen := by
            simp only [List.length_append, List.length_cons]
            omega
          have shortRest : (path ++ slash :: entry.name).length + (pathOf names).length <
              maxPathLen := by
            simp only [List.length_append, List.length_cons]
            omega
          have enoughRest : names.length < fuel := by omega
          obtain ⟨part', isRest, mirrors'⟩ := inductionHypothesis enoughRest nameMirrors shortRest
          refine ⟨part', ?_, mirrors'⟩
          rw [climbLoop, if_neg notRoot, isUp]
          simp only [Option.bind_eq_bind, Option.bind_some, isName, shortName, guard_true, isRest]
          simp [pathOf]

/-! ### The reversal -/

/-- Each cut at the last slash moves a name to the end of `buf`. -/
theorem reverseLoop_eq (isNames : ∀ name ∈ names, slash ∉ name) {fuel : Nat}
    (enough : names.length < fuel) {buf : List UInt8}
    (short : buf.length + (pathOf names).length < maxPathLen) :
    reverseLoop fuel (pathOf names.reverse) buf = some (buf ++ pathOf names) := by
  induction names generalizing fuel buf with
  | nil =>
      cases fuel with
      | zero => exact absurd enough (Nat.not_lt_zero _)
      | succ fuel => simp [reverseLoop, pathOf, strrchr, strrchrLoop]
  | cons name rest inductionHypothesis =>
      cases fuel with
      | zero => exact absurd enough (Nat.not_lt_zero _)
      | succ fuel =>
          have whole : pathOf (name :: rest) = slash :: name ++ pathOf rest := by
            simp [pathOf]
          rw [whole] at short
          simp only [maxPathLen, List.length_append, List.length_cons] at short enough
          have wholeBuf : buf.length % 65536 = buf.length := Nat.mod_eq_of_lt (by omega)
          rw [List.reverse_cons, pathOf_concat, reverseLoop,
            strrchr_append (isNames name List.mem_cons_self)]
          simp only [wholeBuf, List.take_length, List.take_left, List.drop_left]
          rw [inductionHypothesis (fun other mem => isNames other (List.mem_cons_of_mem _ mem))
            (by omega)]
          · rw [whole, List.append_assoc]
          · simp only [maxPathLen, List.length_append, List.length_cons]
            omega

/-! ### The searches -/

/-- A search keeps the open copies of the directories as they are on the disk. -/
theorem searchLoop_mirrors {fuel : Nat} {parentDir : Dir} {parentInodeNo : Nat} {name : List UInt8}
    {subPath : Option (List UInt8)} {searchedPath : List UInt8} {dirE : DirEntry}
    {part' : Partition} {result : SearchResult} (mirrors : Mirrors tree part)
    (isOpen : IsOpenDir tree parentDir) (isDir : tree.isDir parentInodeNo)
    (returns : searchLoop fuel part parentDir parentInodeNo name subPath searchedPath dirE =
      some (part', result)) : Mirrors tree part' := by
  induction fuel generalizing part parentDir parentInodeNo name subPath searchedPath dirE with
  | zero => cases returns
  | succ fuel inductionHypothesis =>
      unfold searchLoop at returns
      by_cases isNil : name = []
      · obtain ⟨opened, dir, isOpened, openedMirrors, _⟩ := (mirrors.dirClose parentDir).dirOpen isDir
        simp only [if_pos isNil, isOpened, Option.bind_eq_bind, Option.bind_some] at returns
        cases returns
        exact openedMirrors
      · rw [if_neg isNil] at returns
        split at returns
        · rw [mirrors.sameDisk] at returns
          cases isFound : searchDirEntry disk parentDir name with
          | none =>
              rw [isFound] at returns
              cases returns
              exact mirrors
          | some entry =>
              obtain ⟨mem, _⟩ := isOpen.searchDirEntry_some isNil isFound
              rw [isFound] at returns
              rcases tree.entry _ isOpen.isDir entry mem with ⟨isDirectory, isDir'⟩ | isRegular
              · obtain ⟨opened, dir, isOpened, openedMirrors, isOpen', _⟩ :=
                  (mirrors.dirClose parentDir).dirOpen isDir'
                simp only [isDirectory, isOpened, Option.bind_eq_bind, Option.bind_some] at returns
                exact inductionHypothesis openedMirrors isOpen' isOpen.isDir returns
              · simp only [isRegular] at returns
                cases returns
                exact mirrors
        · cases returns

theorem searchFile_mirrors {dirE : DirEntry} {pathname : List UInt8} {part' : Partition}
    {result : SearchResult} (mirrors : Mirrors tree part)
    (returns : searchFile part dirE pathname = some (part', result)) : Mirrors tree part' := by
  unfold searchFile at returns
  split at returns
  · cases returns
    exact mirrors
  · split at returns
    · exact searchLoop_mirrors mirrors mirrors.rootDir tree.root returns
    · cases returns

/-! ### The round trip -/

theorem Descends.isName (rooted : tree.IsRooted dataStartLba)
    (descends : Descends disk inodeTableLba names dir) :
    ∀ name ∈ names, IsName name ∧ name.length < maxFileNameLen ∧ (0 : UInt8) ∉ name := by
  induction descends with
  | root => exact fun name mem => absurd mem List.not_mem_nil
  | @step names dir entry descends mem _ _ inductionHypothesis =>
      intro name isIn
      rcases List.mem_append.mp isIn with isIn | isLast
      · exact inductionHypothesis name isIn
      · obtain rfl := List.mem_singleton.mp isLast
        obtain ⟨short, notMem⟩ := rooted.isName dir descends.isDir entry mem
        obtain ⟨inode, isRead, _⟩ := tree.inode dir descends.isDir
        refine ⟨⟨((mem_dirAt isRead).mp mem).2, notMem⟩, short, fun isZero => ?_⟩
        simpa using List.mem_takeWhile_imp isZero

theorem Descends.isPath (rooted : tree.IsRooted dataStartLba)
    (descends : Descends disk inodeTableLba names dir)
    (short : (canonicalPath names).length < maxPathLen) : IsPath (canonicalPath names) := by
  have isNames := descends.isName rooted
  refine ⟨canonicalPath_absolute names, short, ?_, ?_⟩
  · exact zero_notMem_canonicalPath fun name mem => (isNames name mem).2.2
  · rw [components_canonicalPath fun name mem => (isNames name mem).1]
    exact fun name mem => (isNames name mem).2.1

/-- `sys_chdir` to the canonical path of a directory goes there. -/
theorem sysChdir_eq (rooted : tree.IsRooted dataStartLba)
    (descends : Descends disk inodeTableLba names dir)
    (short : (canonicalPath names).length < maxPathLen) (mirrors : Mirrors tree part)
    (dirE : DirEntry) (cwdInodeNr : Int) :
    ∃ part', sysChdir part dirE cwdInodeNr (canonicalPath names) = some (part', (dir : Int), 0) ∧
      Mirrors tree part' := by
  have isComponents := components_canonicalPath fun name mem => (descends.isName rooted name mem).1
  obtain ⟨above, resolves⟩ := descends.resolves
  rw [← isComponents] at resolves
  obtain ⟨part', result, returns, isRet, isType⟩ := Resolves.searchFile
    (descends.isPath rooted short) (fun isNil => by
      rw [isComponents] at isNil
      rw [isNil]
      rfl) resolves mirrors dirE
  refine ⟨part'.dirClose result.parentDir, ?_, (searchFile_mirrors mirrors returns).dirClose _⟩
  have notFailed : result.ret ≠ -1 := by
    rw [isRet]
    show (dir : Int) ≠ -1
    omega
  unfold sysChdir
  rw [returns]
  simp only [Option.bind_eq_bind, Option.bind_some]
  rw [if_pos ⟨notFailed, isType⟩, isRet]
  rfl

/-- `sys_getcwd` gives the canonical path of the working directory. -/
theorem sysGetcwd_eq (rooted : tree.IsRooted dataStartLba)
    (descends : Descends disk inodeTableLba names dir)
    (short : (canonicalPath names).length < maxPathLen) (mirrors : Mirrors tree part) {fuel : Nat}
    (enough : names.length < fuel) :
    ∃ part', sysGetcwd fuel part dataStartLba dir maxPathLen =
        some (part', some (canonicalPath names)) ∧ Mirrors tree part' := by
  have isDir : tree.isDir dir := descends.isDir
  have isNumber : 0 ≤ (dir : Int) ∧ (dir : Int) < 4096 := by
    have small := tree.isDir_lt isDir
    omega
  unfold sysGetcwd
  rcases descends.inv with ⟨rfl, rfl⟩ | ⟨init, above, entry, way, mem, _, proper, isNames, isNo⟩
  · exact ⟨part, rfl, mirrors⟩
  · have notRoot : (dir : Int) ≠ 0 := by
      have notRoot := rooted.notRoot above way.isDir entry mem proper
      omega
    have isPathOf : canonicalPath names = pathOf names := by
      rw [canonicalPath, if_neg (by simp [isNames])]
    rw [isPathOf] at short ⊢
    have shortFrom : ([] : List UInt8).length + (pathOf names).length < maxPathLen := by
      rw [List.length_nil, Nat.zero_add]
      exact short
    obtain ⟨part', climbed, mirrors'⟩ := climbLoop_eq rooted descends enough mirrors shortFrom
    have reversed := reverseLoop_eq (fun name mem => (descends.isName rooted name mem).1.notMem)
      enough shortFrom
    have sameLength : (pathOf names.reverse).length = (pathOf names).length := by
      simp [pathOf, List.length_flatMap]
    have fits : (pathOf names.reverse).length ≤ maxPathLen := by omega
    rw [List.nil_append] at climbed reversed
    refine ⟨part', ?_, mirrors'⟩
    simp only [isNumber, and_self, guard_true, notRoot, if_false, Int.toNat_natCast, climbed,
      Option.bind_eq_bind, Option.bind_some, fits, reversed]
    rfl

/-- After `sys_chdir` to the canonical path of a directory, `sys_getcwd` returns
that path, and `sys_chdir` to it stays where it is. -/
theorem getcwd_chdir_round_trip (rooted : tree.IsRooted dataStartLba)
    (descends : Descends disk inodeTableLba names dir)
    (short : (canonicalPath names).length < maxPathLen) (mirrors : Mirrors tree part)
    (dirE dirE' : DirEntry) (cwdInodeNr : Int) :
    ∃ changed cwd, sysChdir part dirE cwdInodeNr (canonicalPath names) = some (changed, cwd, 0) ∧
      ∃ bound, ∀ fuel, bound < fuel →
        ∃ got buf, sysGetcwd fuel changed dataStartLba cwd maxPathLen = some (got, some buf) ∧
          buf = canonicalPath names ∧
          ∃ again, sysChdir got dirE' cwd buf = some (again, cwd, 0) := by
  obtain ⟨changed, isChanged, changedMirrors⟩ :=
    sysChdir_eq rooted descends short mirrors dirE cwdInodeNr
  refine ⟨changed, dir, isChanged, names.length, fun fuel enough => ?_⟩
  obtain ⟨got, isGot, gotMirrors⟩ := sysGetcwd_eq rooted descends short changedMirrors enough
  obtain ⟨again, isAgain, _⟩ := sysChdir_eq rooted descends short gotMirrors dirE' dir
  exact ⟨got, canonicalPath names, isGot, rfl, again, isAgain⟩

theorem nestedTree_isRooted : nestedTree.IsRooted 9 where
  leadsBack := nestedTree_leadsBack
  dots := by
    rintro _ (rfl | rfl) inode isRead
    · rw [nestedDisk_root] at isRead
      cases isRead
      constructor <;> decide +kernel
    · rw [nestedDisk_child] at isRead
      cases isRead
      constructor <;> decide +kernel
  isName := by
    rintro _ (rfl | rfl)
    · rw [nestedDisk_rootEntries]
      decide
    · rw [nestedDisk_childEntries]
      decide
  notRoot := by
    unfold IsProper
    rintro _ (rfl | rfl)
    · rw [nestedDisk_rootEntries]
      decide
    · rw [nestedDisk_childEntries]
      decide
  single := by
    unfold IsProper
    rintro _ (rfl | rfl)
    · rw [nestedDisk_rootEntries]
      decide
    · rw [nestedDisk_childEntries]
      decide
  cleared := by
    rintro _ (rfl | rfl) inode isRead
    · rw [nestedDisk_root] at isRead
      cases isRead
      decide +kernel
    · rw [nestedDisk_child] at isRead
      cases isRead
      decide +kernel

/-- The directory `/a`. -/
theorem getcwd_chdir_round_trip_nested :
    ∃ part : Partition, Mirrors nestedTree part ∧
      ∃ changed cwd, sysChdir part ⟨[], 0, .unknown⟩ 0 [slash, 97] = some (changed, cwd, 0) ∧
        ∃ bound, ∀ fuel, bound < fuel →
          ∃ got buf, sysGetcwd fuel changed 9 cwd maxPathLen = some (got, some buf) ∧
            buf = [slash, 97] ∧
            ∃ again, sysChdir got ⟨[], 0, .unknown⟩ cwd buf = some (again, cwd, 0) := by
  obtain ⟨part, mirrors⟩ := exists_mirrors nestedTree
  have descends : Descends nestedDisk 1 [[97]] 1 := by
    have mem : (⟨[97, 0, 0, 0, 0, 0, 0, 0, 0, 0, 0, 0, 0, 0, 0, 0], 1, .directory⟩ : DirEntry) ∈
        dirAt nestedDisk 1 0 := by
      rw [nestedDisk_rootEntries]
      decide
    exact .step .root mem rfl ⟨by decide, by decide⟩
  exact ⟨part, mirrors, getcwd_chdir_round_trip nestedTree_isRooted descends (by decide) mirrors
    ⟨[], 0, .unknown⟩ ⟨[], 0, .unknown⟩ 0⟩

end ZyOs.Fs
