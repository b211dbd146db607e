import ZyOs.Fs.PathSearch

/-!
Contract: `search_file` resolves the components of a path one after the other.

`Tree` is the directory tree on a disk. `Resolves` looks up each component among
the entries of a directory, without a loop and without parsing. `search_file`
agrees with it for every path except those of two or more slashes and nothing
else: there it returns a local variable that was never set.
-/

namespace ZyOs.Fs

open ZyOs.Lib

/-! ### The tree -/

/-- The entries in the blocks of a directory that are in use. -/
def dirEntries (disk : Disk) (inode : DirInode) : List DirEntry :=
  (((allBlocks disk inode).filter (· ≠ 0)).flatMap fun lba =>
    sectorEntries (ideRead disk lba 1)).filter (·.name ≠ [])

/-- The entries of the directory with this inode number. -/
def dirAt (disk : Disk) (inodeTableLba iNo : Nat) : List DirEntry :=
  ((inodeRead disk inodeTableLba iNo).map (dirEntries disk)).getD []

/-- A tree of directories: each is an inode of the inode table, has the entries
`.` and `..`, and has one entry for a name. -/
structure Tree (disk : Disk) (inodeTableLba : Nat) where
  isDir : Nat → Prop
  parent : Nat → Nat
  root : isDir 0
  parentRoot : parent 0 = 0
  inode : ∀ iNo, isDir iNo → ∃ inode, inodeRead disk inodeTableLba iNo = some inode ∧ inode.iNo = iNo
  entry : ∀ iNo, isDir iNo → ∀ entry ∈ dirAt disk inodeTableLba iNo,
    (entry.fType = .directory ∧ isDir entry.iNo) ∨ entry.fType = .regular
  distinct : ∀ iNo, isDir iNo → ∀ entry ∈ dirAt disk inodeTableLba iNo,
    ∀ entry' ∈ dirAt disk inodeTableLba iNo, entry.name = entry'.name → entry = entry'
  self : ∀ iNo, isDir iNo → ∃ entry ∈ dirAt disk inodeTableLba iNo,
    entry.name = [dot] ∧ entry.iNo = iNo ∧ entry.fType = .directory
  up : ∀ iNo, isDir iNo → ∃ entry ∈ dirAt disk inodeTableLba iNo,
    entry.name = [dot, dot] ∧ entry.iNo = parent iNo ∧ entry.fType = .directory

/-- What a path leads to: the directory in which its last component was looked
up, the inode number and the type. -/
structure Target where
  dir : Nat
  iNo : Nat
  fType : FileTypes

/-- The components lead from a directory to the target; every one but the last
is a directory. -/
inductive ResolvesFrom (disk : Disk) (inodeTableLba : Nat) : Nat → List (List UInt8) → Target → Prop where
  | last {dir : Nat} {entry : DirEntry} (mem : entry ∈ dirAt disk inodeTableLba dir) :
      ResolvesFrom disk inodeTableLba dir [entry.name] ⟨dir, entry.iNo, entry.fType⟩
  | step {dir : Nat} {entry : DirEntry} {name : List UInt8} {rest : List (List UInt8)}
      {target : Target} (mem : entry ∈ dirAt disk inodeTableLba dir)
      (isDir : entry.fType = .directory)
      (resolves : ResolvesFrom disk inodeTableLba entry.iNo (name :: rest) target) :
      ResolvesFrom disk inodeTableLba dir (entry.name :: name :: rest) target

/-- The components lead from the root to the target; the root itself is what no
component leads to. -/
def Resolves (disk : Disk) (inodeTableLba : Nat) (names : List (List UInt8)) (target : Target) : Prop :=
  (names = [] ∧ target = ⟨0, 0, .directory⟩) ∨ ResolvesFrom disk inodeTableLba 0 names target

/-- An absolute path: shorter than `MAX_PATH_LEN`, with components that fit into
`name`. -/
structure IsPath (pathname : List UInt8) : Prop where
  absolute : pathname.head? = some slash
  short : pathname.length < maxPathLen
  noZero : (0 : UInt8) ∉ pathname
  names : ∀ name ∈ components slash pathname, name.length < maxFileNameLen

/-- The part of the result that a caller sees: the return value, the searched
path, the inode number of `parent_dir` and the file type. -/
structure Found where
  ret : Int
  searchedPath : List UInt8
  parentDir : Nat
  fileType : FileTypes
deriving DecidableEq

def SearchResult.found (result : SearchResult) : Found :=
  ⟨result.ret, result.searchedPath, result.parentDir.inode.iNo, result.fileType⟩

variable {disk : Disk} {inodeTableLba : Nat}

/-- The open copies of directories, and that of the root, are those of the disk. -/
structure Mirrors (tree : Tree disk inodeTableLba) (part : Partition) : Prop where
  sameDisk : part.disk = disk
  lba : part.inodeTableLba = inodeTableLba
  openInodes : ∀ inode ∈ part.openInodes, tree.isDir inode.iNo →
    ∃ read, inodeRead disk inodeTableLba inode.iNo = some read ∧ inode.iSectors = read.iSectors
  rootNo : part.rootInode.iNo = 0
  rootInode : ∃ read, inodeRead disk inodeTableLba 0 = some read ∧
    part.rootInode.iSectors = read.iSectors

/-- `search_file` gives one answer, whatever is on the list of open inodes and in
its uninitialised memory, and it is what the components of the path lead to. -/
def SearchesPath (tree : Tree disk inodeTableLba) (pathname : List UInt8) : Prop :=
  ∃ found : Found,
    (∀ part dirE, Mirrors tree part →
      (searchFile part dirE pathname).map (fun result => result.2.found) = some found) ∧
    ((∃ target, Resolves disk inodeTableLba (components slash pathname) target) ↔
      found.ret ≠ -1 ∧ (found.fileType = .directory ∨
        (components slash found.searchedPath).length = (components slash pathname).length)) ∧
    ∀ target, Resolves disk inodeTableLba (components slash pathname) target →
      found.ret = target.iNo ∧ found.fileType = target.fType ∧ found.parentDir = target.dir

/-! ### Lookups -/

theorem mem_countOpen {iNo : Nat} {inode : DirInode} {openInodes : List DirInode}
    (mem : inode ∈ countOpen iNo openInodes) :
    ∃ old ∈ openInodes, old.iNo = inode.iNo ∧ old.iSectors = inode.iSectors := by
  induction openInodes with
  | nil => cases mem
  | cons first rest inductionHypothesis =>
      unfold countOpen at mem
      split at mem
      · rcases List.mem_cons.mp mem with rfl | mem
        · exact ⟨first, List.mem_cons_self, rfl, rfl⟩
        · exact ⟨inode, List.mem_cons_of_mem _ mem, rfl, rfl⟩
      · rcases List.mem_cons.mp mem with rfl | mem
        · exact ⟨inode, List.mem_cons_self, rfl, rfl⟩
        · obtain ⟨old, mem, same⟩ := inductionHypothesis mem
          exact ⟨old, List.mem_cons_of_mem _ mem, same⟩

theorem mem_countClose {iNo : Nat} {inode : DirInode} {openInodes : List DirInode}
    (mem : inode ∈ countClose iNo openInodes) :
    ∃ old ∈ openInodes, old.iNo = inode.iNo ∧ old.iSectors = inode.iSectors := by
  induction openInodes with
  | nil => cases mem
  | cons first rest inductionHypothesis =>
      unfold countClose at mem
      split at mem
      · split at mem
        · exact ⟨inode, List.mem_cons_of_mem _ mem, rfl, rfl⟩
        · rcases List.mem_cons.mp mem with rfl | mem
          · exact ⟨first, List.mem_cons_self, rfl, rfl⟩
          · exact ⟨inode, List.mem_cons_of_mem _ mem, rfl, rfl⟩
      · rcases List.mem_cons.mp mem with rfl | mem
        · exact ⟨inode, List.mem_cons_self, rfl, rfl⟩
        · obtain ⟨old, mem, same⟩ := inductionHypothesis mem
          exact ⟨old, List.mem_cons_of_mem _ mem, same⟩

variable {tree : Tree disk inodeTableLba} {part : Partition}

/-- The inodes of the list are the old ones, up to their counts. -/
theorem Mirrors.of_openInodes (mirrors : Mirrors tree part) {openInodes : List DirInode}
    (old : ∀ inode ∈ openInodes, ∃ old ∈ part.openInodes, old.iNo = inode.iNo ∧
      old.iSectors = inode.iSectors) :
    Mirrors tree { part with openInodes := openInodes } := by
  refine ⟨mirrors.sameDisk, mirrors.lba, fun inode mem isDir => ?_, mirrors.rootNo,
    mirrors.rootInode⟩
  obtain ⟨oldInode, mem, sameNo, sameSectors⟩ := old inode mem
  rw [← sameNo] at isDir ⊢
  rw [← sameSectors]
  exact mirrors.openInodes oldInode mem isDir

theorem Mirrors.dirClose (mirrors : Mirrors tree part) (dir : Dir) :
    Mirrors tree (part.dirClose dir) := by
  unfold Partition.dirClose
  split
  · exact mirrors
  · exact mirrors.of_openInodes fun inode mem => mem_countClose mem

/-- `dir` is an open directory of the tree. -/
structure IsOpenDir (tree : Tree disk inodeTableLba) (dir : Dir) : Prop where
  isDir : tree.isDir dir.inode.iNo
  inode : ∃ read, inodeRead disk inodeTableLba dir.inode.iNo = some read ∧
    dir.inode.iSectors = read.iSectors

theorem Mirrors.rootDir (mirrors : Mirrors tree part) : IsOpenDir tree part.rootDir := by
  refine ⟨?_, ?_⟩
  · rw [Partition.rootDir, mirrors.rootNo]
    exact tree.root
  · rw [Partition.rootDir, mirrors.rootNo]
    exact mirrors.rootInode

theorem Mirrors.dirOpen (mirrors : Mirrors tree part) {iNo : Nat} (isDir : tree.isDir iNo) :
    ∃ part' dir, part.dirOpen iNo = some (part', dir) ∧ Mirrors tree part' ∧
      IsOpenDir tree dir ∧ dir.inode.iNo = iNo := by
  obtain ⟨read, isRead, readNo⟩ := tree.inode iNo isDir
  unfold Partition.dirOpen Partition.inodeOpen
  cases isFound : part.openInodes.find? fun inode => decide (inode.iNo = iNo) with
  | some inode =>
      have sameNo : inode.iNo = iNo := by simpa using List.find?_some isFound
      refine ⟨_, _, rfl, mirrors.of_openInodes fun _ mem => mem_countOpen mem, ⟨?_, ?_⟩, sameNo⟩
      · rw [sameNo]
        exact isDir
      · exact mirrors.openInodes inode (List.mem_of_find?_eq_some isFound) (by rwa [sameNo])
  | none =>
      simp only [mirrors.sameDisk, mirrors.lba, isRead, Option.bind_eq_bind, Option.bind_some]
      refine ⟨_, _, rfl, ⟨rfl, rfl, fun inode mem isDir => ?_, mirrors.rootNo, mirrors.rootInode⟩,
        ⟨?_, ?_⟩, readNo⟩
      · rcases List.mem_cons.mp mem with rfl | mem
        · exact ⟨inode, by rw [readNo, isRead], rfl⟩
        · exact mirrors.openInodes inode mem isDir
      · rw [readNo]
        exact isDir
      · exact ⟨read, by rw [readNo, isRead], rfl⟩

/-- Blocks that are not there are skipped. -/
theorem findSome?_blocks {found : Nat → Option DirEntry} (blocks : List Nat) :
    (blocks.findSome? fun lba => if lba = 0 then none else found lba) =
      (blocks.filter (· ≠ 0)).findSome? found := by
  induction blocks with
  | nil => rfl
  | cons lba rest inductionHypothesis =>
      by_cases isZero : lba = 0
      · rw [List.findSome?_cons, if_pos isZero, List.filter_cons_of_neg (by simp [isZero])]
        exact inductionHypothesis
      · rw [List.filter_cons_of_pos (by simp [isZero]), List.findSome?_cons, List.findSome?_cons,
          if_neg isZero, inductionHypothesis]

/-- The two loops of `search_dir_entry` find the first entry of that name. -/
theorem searchDirEntry_eq_find (disk : Disk) (dir : Dir) {name : List UInt8} (ne : name ≠ []) :
    searchDirEntry disk dir name = (dirEntries disk dir.inode).find? fun entry => entry.name = name := by
  have liveOnly : (fun entry : DirEntry => decide (decide (entry.name ≠ []) = true ∧
      decide (entry.name = name) = true)) = fun entry => decide (entry.name = name) := by
    funext entry
    by_cases isName : entry.name = name
    · simp [isName, ne]
    · simp [isName]
  rw [dirEntries, List.find?_filter, liveOnly, List.find?_flatMap, searchDirEntry, findSome?_blocks]

theorem IsOpenDir.searchDirEntry {dir : Dir} (isOpen : IsOpenDir tree dir) {name : List UInt8}
    (ne : name ≠ []) :
    searchDirEntry disk dir name =
      (dirAt disk inodeTableLba dir.inode.iNo).find? fun entry => entry.name = name := by
  obtain ⟨read, isRead, sameSectors⟩ := isOpen.inode
  have sameEntries : dirEntries disk dir.inode = dirEntries disk read := by
    simp only [dirEntries, allBlocks, sameSectors]
  rw [dirAt, isRead, Option.map_some, Option.getD_some, ← sameEntries, searchDirEntry_eq_find disk dir ne]

theorem IsOpenDir.searchDirEntry_some {dir : Dir} (isOpen : IsOpenDir tree dir) {name : List UInt8}
    (ne : name ≠ []) {entry : DirEntry} (isFound : Fs.searchDirEntry disk dir name = some entry) :
    entry ∈ dirAt disk inodeTableLba dir.inode.iNo ∧ entry.name = name := by
  rw [isOpen.searchDirEntry ne] at isFound
  exact ⟨List.mem_of_find?_eq_some isFound, by simpa using List.find?_some isFound⟩

/-! ### Names -/

/-- The names that are left, when `name` is stored and `subPath` is the rest. -/
def namesLeft (name : List UInt8) (subPath : Option (List UInt8)) : List (List UInt8) :=
  if name = [] then [] else name :: components slash (subPath.getD [])

/-- `path_parse` splits off the first component. -/
theorem pathParse_names (pathname : List UInt8) :
    namesLeft (pathParse pathname).1 (pathParse pathname).2 = components slash pathname := by
  rw [← components_dropWhile pathname]
  by_cases isNil : (pathParse pathname).1 = []
  · rw [namesLeft, if_pos isNil, eq_nil_of_takeWhile isNil, components_nil]
  · rw [namesLeft, if_neg isNil, components_takeWhile isNil]
    simp only [pathParse]
    split
    · rename_i isLast
      rw [isLast]
      rfl
    · rfl

theorem pathParse_notMem (pathname : List UInt8) : slash ∉ (pathParse pathname).1 := by
  intro mem
  have := List.mem_takeWhile_imp mem
  simp at this

/-- The rest of a path starts with a slash. -/
theorem pathParse_rest {pathname subPath : List UInt8}
    (isRest : (pathParse pathname).2 = some subPath) : subPath.head? = some slash := by
  simp only [pathParse] at isRest
  split at isRest
  · cases isRest
  · rename_i ne
    obtain ⟨tail, isCons⟩ := dropWhile_head ne
    rw [isCons] at isRest
    cases isRest
    rfl

/-- A name takes its length and a slash from the path. -/
theorem pathParse_length {pathname : List UInt8} (absolute : pathname.head? = some slash) :
    1 + (pathParse pathname).1.length + ((pathParse pathname).2.getD []).length ≤
      pathname.length := by
  obtain ⟨tail, rfl⟩ : ∃ tail, pathname = slash :: tail := by
    cases pathname with
    | nil => cases absolute
    | cons first tail =>
        cases absolute
        exact ⟨tail, rfl⟩
  have rest : (pathParse (slash :: tail)).2.getD [] =
      ((slash :: tail).dropWhile (· == slash)).dropWhile (· != slash) := by
    simp only [pathParse]
    split
    · rename_i isLast
      rw [isLast]
      rfl
    · rfl
  have whole := congrArg List.length (List.takeWhile_append_dropWhile
    (p := (· != slash)) (l := (slash :: tail).dropWhile (· == slash)))
  rw [List.length_append] at whole
  have shorter : ((slash :: tail).dropWhile (· == slash)).length ≤ tail.length := by
    rw [List.dropWhile_cons_of_pos (by simp)]
    exact List.length_dropWhile_le _ tail
  rw [rest]
  simp only [pathParse, List.length_cons]
  omega

/-! ### The loop -/

/-- What the loop finds, from the directory `dir` with these names left. -/
def walk (disk : Disk) (inodeTableLba : Nat) : (dir parent : Nat) → List (List UInt8) →
    (searchedPath : List UInt8) → (last : Int) → Found
  | _, parent, [], searchedPath, last => ⟨last, searchedPath, parent, .directory⟩
  | dir, _, name :: rest, searchedPath, _ =>
      match (dirAt disk inodeTableLba dir).find? fun entry => entry.name = name with
      | none => ⟨-1, searchedPath ++ slash :: name, dir, .unknown⟩
      | some entry =>
          if entry.fType = .directory then
            walk disk inodeTableLba entry.iNo dir rest (searchedPath ++ slash :: name) entry.iNo
          else
            ⟨entry.iNo, searchedPath ++ slash :: name, dir, .regular⟩

/-- The rest of the names, once `name` is looked up. -/
theorem namesLeft_rest {name : List UInt8} (subPath : Option (List UInt8)) (ne : name ≠ []) :
    namesLeft name subPath =
      name :: namesLeft (pathParseRest subPath).1 (pathParseRest subPath).2 := by
  rw [namesLeft, if_neg ne]
  cases subPath with
  | none => rfl
  | some subPath =>
      rw [pathParseRest, pathParse_names]
      rfl

/-- The room that is left in `searched_path`. -/
def pathLeft (name : List UInt8) (subPath : Option (List UInt8)) : Nat :=
  if name = [] then 0 else 1 + name.length + (subPath.getD []).length

theorem pathLeft_rest {name : List UInt8} {subPath : Option (List UInt8)} (ne : name ≠ [])
    (absolute : ∀ rest, subPath = some rest → rest.head? = some slash) :
    1 + name.length + pathLeft (pathParseRest subPath).1 (pathParseRest subPath).2 ≤
      pathLeft name subPath := by
  have whole : pathLeft name subPath = 1 + name.length + (subPath.getD []).length := if_neg ne
  rw [whole]
  cases subPath with
  | none => exact Nat.le_refl _
  | some subPath =>
      have shorter := pathParse_length (absolute subPath rfl)
      rw [pathParseRest, Option.getD_some, pathLeft]
      split
      · omega
      · omega

theorem searchLoop_eq {fuel : Nat} :
    ∀ {part : Partition} {parentDir : Dir} {parentInodeNo : Nat} {name : List UInt8}
      {subPath : Option (List UInt8)} {searchedPath : List UInt8} {dirE : DirEntry},
      Mirrors tree part → IsOpenDir tree parentDir → tree.isDir parentInodeNo →
      (∀ rest, subPath = some rest → rest.head? = some slash) →
      searchedPath.length + pathLeft name subPath < maxPathLen →
      (namesLeft name subPath).length < fuel →
      (searchLoop fuel part parentDir parentInodeNo name subPath searchedPath dirE).map
          (fun result => result.2.found) =
        some (walk disk inodeTableLba parentDir.inode.iNo parentInodeNo (namesLeft name subPath)
          searchedPath dirE.iNo) := by
  induction fuel with
  | zero =>
      intro _ _ _ _ _ _ _ _ _ _ _ _ impossible
      omega
  | succ fuel inductionHypothesis =>
      intro part parentDir parentInodeNo name subPath searchedPath dirE mirrors isOpen isDir absolute
        room enough
      unfold searchLoop
      by_cases isNil : name = []
      · obtain ⟨part', dir, opened, _, _, sameNo⟩ := (mirrors.dirClose parentDir).dirOpen isDir
        rw [if_pos isNil, namesLeft, if_pos isNil]
        simp only [opened, Option.bind_eq_bind, Option.bind_some]
        simp [walk, SearchResult.found, sameNo]
      · rw [if_neg isNil]
        rw [namesLeft_rest subPath isNil] at enough ⊢
        have restRoom := pathLeft_rest isNil absolute
        have short : searchedPath.length < 512 := by
          simp only [maxPathLen] at room
          omega
        rw [if_pos short, walk, mirrors.sameDisk, ← isOpen.searchDirEntry isNil]
        cases isFound : searchDirEntry disk parentDir name with
        | none => rfl
        | some entry =>
            obtain ⟨mem, _⟩ := isOpen.searchDirEntry_some isNil isFound
            rcases tree.entry _ isOpen.isDir entry mem with ⟨isDirectory, isDir'⟩ | isRegular
            · obtain ⟨part', dir, opened, mirrors', isOpen', sameNo⟩ :=
                (mirrors.dirClose parentDir).dirOpen isDir'
              simp only [isDirectory, opened, Option.bind_eq_bind, Option.bind_some, if_true]
              have absolute' : ∀ rest, (pathParseRest subPath).2 = some rest →
                  rest.head? = some slash := by
                intro rest isRest
                cases subPath with
                | none => cases isRest
                | some subPath => exact pathParse_rest isRest
              have room' : (searchedPath ++ slash :: name).length +
                  pathLeft (pathParseRest subPath).1 (pathParseRest subPath).2 < maxPathLen := by
                simp only [List.length_append, List.length_cons]
                omega
              have enough' : (namesLeft (pathParseRest subPath).1
                  (pathParseRest subPath).2).length < fuel := by
                simp only [List.length_cons] at enough
                omega
              rw [inductionHypothesis mirrors' isOpen' isOpen.isDir absolute' room' enough', sameNo]
            · simp [isRegular, SearchResult.found]

/-! ### The loop and the components -/

/-- The path that lists these names. -/
def pathOf (names : List (List UInt8)) : List UInt8 := names.flatMap (slash :: ·)

/-- A name that a path has as a component. -/
structure IsName (name : List UInt8) : Prop where
  ne : name ≠ []
  notMem : slash ∉ name

theorem components_append_name (searchedPath : List UInt8) {name : List UInt8} (isName : IsName name) :
    components slash (searchedPath ++ slash :: name) = components slash searchedPath ++ [name] := by
  rw [components_append_sep, components_of_notMem isName.notMem isName.ne]

theorem isName_of_mem {pathname name : List UInt8} (mem : name ∈ components slash pathname) :
    IsName name :=
  ⟨(of_mem_components mem).1, (of_mem_components mem).2⟩

/-- The entry of a name is the one that the loop finds. -/
theorem Tree.find_eq (tree : Tree disk inodeTableLba) {dir : Nat} (isDir : tree.isDir dir)
    {entry : DirEntry} (mem : entry ∈ dirAt disk inodeTableLba dir) :
    (dirAt disk inodeTableLba dir).find? (fun other => other.name = entry.name) = some entry := by
  cases isFound : (dirAt disk inodeTableLba dir).find? fun other => decide (other.name = entry.name) with
  | none =>
      have := List.find?_eq_none.mp isFound entry mem
      simp at this
  | some other =>
      have sameName : other.name = entry.name := by simpa using List.find?_some isFound
      rw [tree.distinct dir isDir other (List.mem_of_find?_eq_some isFound) entry mem sameName]

theorem walk_of_resolves {dir parent : Nat} {names : List (List UInt8)} {target : Target}
    (resolves : ResolvesFrom disk inodeTableLba dir names target) (isDir : tree.isDir dir)
    (searchedPath : List UInt8) (last : Int) :
    walk disk inodeTableLba dir parent names searchedPath last =
      ⟨target.iNo, searchedPath ++ pathOf names, target.dir, target.fType⟩ := by
  induction resolves generalizing parent searchedPath last with
  | @last dir entry mem =>
      rw [walk, tree.find_eq isDir mem]
      dsimp only
      rcases tree.entry dir isDir entry mem with ⟨isDirectory, _⟩ | isRegular
      · rw [if_pos isDirectory, walk, isDirectory]
        simp [pathOf]
      · simp [isRegular, pathOf]
  | @step dir entry name rest target mem isDirectory _ inductionHypothesis =>
      rw [walk, tree.find_eq isDir mem]
      dsimp only
      have isDir' : tree.isDir entry.iNo := by
        rcases tree.entry dir isDir entry mem with ⟨_, isDir'⟩ | isRegular
        · exact isDir'
        · rw [isDirectory] at isRegular
          cases isRegular
      rw [if_pos isDirectory, inductionHypothesis isDir']
      simp [pathOf]

/-- When the loop went through all names, they lead to a target. -/
theorem resolves_of_walk {names : List (List UInt8)} :
    ∀ {dir parent : Nat} {searchedPath : List UInt8} {last : Int}, names ≠ [] →
      (∀ name ∈ names, IsName name) → tree.isDir dir →
      (walk disk inodeTableLba dir parent names searchedPath last).ret ≠ -1 →
      ((walk disk inodeTableLba dir parent names searchedPath last).fileType = .directory ∨
        (components slash
          (walk disk inodeTableLba dir parent names searchedPath last).searchedPath).length =
          (components slash searchedPath).length + names.length) →
      ∃ target, ResolvesFrom disk inodeTableLba dir names target := by
  induction names with
  | nil => exact fun ne => absurd rfl ne
  | cons name rest inductionHypothesis =>
      intro dir parent searchedPath last _ isNames isDir notFailed complete
      have isName := isNames name List.mem_cons_self
      rw [walk] at notFailed complete
      cases isFound : (dirAt disk inodeTableLba dir).find? fun entry => decide (entry.name = name) with
      | none =>
          rw [isFound] at notFailed
          exact absurd rfl notFailed
      | some entry =>
          have mem := List.mem_of_find?_eq_some isFound
          obtain rfl : entry.name = name := by simpa using List.find?_some isFound
          rw [isFound] at notFailed complete
          dsimp only at notFailed complete
          rcases tree.entry dir isDir entry mem with ⟨isDirectory, isDir'⟩ | isRegular
          · rw [if_pos isDirectory] at notFailed complete
            cases rest with
            | nil => exact ⟨_, .last mem⟩
            | cons next rest =>
                obtain ⟨target, resolves⟩ := inductionHypothesis (List.cons_ne_nil _ _)
                  (fun name mem => isNames name (List.mem_cons_of_mem _ mem)) isDir' notFailed (by
                    refine complete.imp_right fun count => ?_
                    rw [count, components_append_name _ isName]
                    simp only [List.length_append, List.length_cons, List.length_nil]
                    omega)
                exact ⟨target, .step mem isDirectory resolves⟩
          · rw [if_neg (by simp [isRegular])] at complete
            rcases complete with impossible | count
            · cases impossible
            · rw [components_append_name _ isName] at count
              simp only [List.length_append, List.length_cons, List.length_nil] at count
              obtain rfl : rest = [] := List.length_eq_zero_iff.mp (by omega)
              exact ⟨_, .last mem⟩

/-! ### `search_file` -/

/-- The paths for which the root is returned at once. -/
def IsRootPath (pathname : List UInt8) : Prop :=
  pathname = [slash] ∨ pathname = [slash, dot] ∨ pathname = [slash, dot, dot]

theorem searchFile_root {pathname : List UInt8} (isRoot : IsRootPath pathname)
    (mirrors : Mirrors tree part) (dirE : DirEntry) :
    (searchFile part dirE pathname).map (fun result => result.2.found) =
      some ⟨0, [], 0, .directory⟩ := by
  rw [searchFile, if_pos (by exact isRoot)]
  simp [SearchResult.found, Partition.rootDir, mirrors.rootNo]

theorem IsPath.two_le {pathname : List UInt8} (isPath : IsPath pathname) (ne : pathname ≠ [slash]) :
    2 ≤ pathname.length := by
  have absolute := isPath.absolute
  match pathname, absolute, ne with
  | [first], absolute, ne =>
      cases absolute
      exact absurd rfl ne
  | _ :: _ :: rest, _, _ =>
      simp only [List.length_cons]
      omega

theorem searchFile_eq {pathname : List UInt8} (isPath : IsPath pathname)
    (notRoot : ¬ IsRootPath pathname) (mirrors : Mirrors tree part) (dirE : DirEntry) :
    (searchFile part dirE pathname).map (fun result => result.2.found) =
      some (walk disk inodeTableLba 0 0 (components slash pathname) [] dirE.iNo) := by
  have long := isPath.two_le fun isSlash => notRoot (.inl isSlash)
  have left : pathLeft (pathParse pathname).1 (pathParse pathname).2 ≤ pathname.length := by
    rw [pathLeft]
    split
    · omega
    · exact pathParse_length isPath.absolute
  have count : (components slash pathname).length < pathname.length + 1 :=
    Nat.lt_succ_of_le (length_components_le pathname)
  rw [searchFile, if_neg (by exact notRoot), if_pos ⟨isPath.absolute, long, isPath.short⟩]
  rw [← pathParse_names] at count ⊢
  have short := isPath.short
  have room : ([] : List UInt8).length + pathLeft (pathParse pathname).1 (pathParse pathname).2 <
      maxPathLen := by
    simp only [List.length_nil]
    omega
  have loop : (searchLoop (pathname.length + 1) part part.rootDir 0 (pathParse pathname).1
      (pathParse pathname).2 [] dirE).map (fun result => result.2.found) =
      some (walk disk inodeTableLba part.rootInode.iNo 0
        (namesLeft (pathParse pathname).1 (pathParse pathname).2) [] dirE.iNo) :=
    searchLoop_eq mirrors mirrors.rootDir tree.root (fun rest => pathParse_rest) room count
  rw [mirrors.rootNo] at loop
  exact loop

/-- A path that the root answers leads to the root, and to nothing else. -/
theorem resolves_root {pathname : List UInt8} (isRoot : IsRootPath pathname)
    (tree : Tree disk inodeTableLba) (target : Target) :
    Resolves disk inodeTableLba (components slash pathname) target ↔
      target = ⟨0, 0, .directory⟩ := by
  have single : ∀ {name : List UInt8} {entry : DirEntry}, entry ∈ dirAt disk inodeTableLba 0 →
      entry.name = name → entry.iNo = 0 → entry.fType = .directory →
      (Resolves disk inodeTableLba [name] target ↔ target = ⟨0, 0, .directory⟩) := by
    intro name entry mem isName isNo isDirectory
    constructor
    · rintro (⟨impossible, _⟩ | resolves)
      · cases impossible
      · cases resolves with
        | @last _ other mem' =>
            rw [tree.distinct 0 tree.root other mem' entry mem isName.symm, isNo, isDirectory]
    · rintro rfl
      have resolves := ResolvesFrom.last mem
      rw [isName, isNo, isDirectory] at resolves
      exact .inr resolves
  rcases isRoot with rfl | rfl | rfl
  · constructor
    · rintro (⟨_, isRoot⟩ | resolves)
      · exact isRoot
      · cases resolves
    · exact fun isRoot => .inl ⟨rfl, isRoot⟩
  · obtain ⟨entry, mem, isName, isNo, isDirectory⟩ := tree.self 0 tree.root
    exact single mem isName isNo isDirectory
  · obtain ⟨entry, mem, isName, isNo, isDirectory⟩ := tree.up 0 tree.root
    exact single mem isName (isNo.trans tree.parentRoot) isDirectory

theorem searchesPath_root {pathname : List UInt8} (isRoot : IsRootPath pathname)
    (tree : Tree disk inodeTableLba) : SearchesPath tree pathname := by
  refine ⟨⟨0, [], 0, .directory⟩, fun part dirE mirrors => searchFile_root isRoot mirrors dirE, ?_,
    fun target resolves => ?_⟩
  · constructor
    · exact fun _ => ⟨by decide, .inl rfl⟩
    · exact fun _ => ⟨_, (resolves_root isRoot tree _).mpr rfl⟩
  · rw [(resolves_root isRoot tree target).mp resolves]
    exact ⟨rfl, rfl, rfl⟩

theorem components_pathOf {names : List (List UInt8)} (isNames : ∀ name ∈ names, IsName name) :
    components slash (pathOf names) = names := by
  induction names with
  | nil => rfl
  | cons name rest inductionHypothesis =>
      have isName := isNames name List.mem_cons_self
      have rests := inductionHypothesis fun name mem => isNames name (List.mem_cons_of_mem _ mem)
      have split : pathOf (name :: rest) = slash :: name ++ pathOf rest := by
        simp [pathOf]
      rw [split, List.cons_append, components_sep_cons]
      cases rest with
      | nil => simpa [pathOf] using components_of_notMem isName.notMem isName.ne
      | cons next rest =>
          have isCons : pathOf (next :: rest) = slash :: (next ++ pathOf rest) := by
            simp [pathOf]
          rw [isCons, components_append_sep, components_of_notMem isName.notMem isName.ne]
          rw [isCons, components_sep_cons] at rests
          rw [rests, List.singleton_append]

theorem searchesPath_names {pathname : List UInt8} (isPath : IsPath pathname)
    (notRoot : ¬ IsRootPath pathname) (ne : components slash pathname ≠ [])
    (tree : Tree disk inodeTableLba) : SearchesPath tree pathname := by
  have isNames : ∀ name ∈ components slash pathname, IsName name := fun _ => isName_of_mem
  -- what was in the uninitialised entry is overwritten at the first name
  have sameWalk : ∀ last : Int, walk disk inodeTableLba 0 0 (components slash pathname) [] last =
      walk disk inodeTableLba 0 0 (components slash pathname) [] 0 := by
    intro last
    obtain ⟨name, rest, isCons⟩ := List.exists_cons_of_ne_nil ne
    rw [isCons, walk, walk]
  have onlyFrom : ∀ target, Resolves disk inodeTableLba (components slash pathname) target →
      ResolvesFrom disk inodeTableLba 0 (components slash pathname) target :=
    fun target resolves => resolves.resolve_left fun impossible => ne impossible.1
  refine ⟨walk disk inodeTableLba 0 0 (components slash pathname) [] 0,
    fun part dirE mirrors => ?_, ?_, fun target resolves => ?_⟩
  · rw [searchFile_eq isPath notRoot mirrors dirE, sameWalk]
  · constructor
    · rintro ⟨target, resolves⟩
      rw [walk_of_resolves (onlyFrom target resolves) tree.root, List.nil_append]
      refine ⟨?_, .inr (by rw [components_pathOf isNames])⟩
      show (target.iNo : Int) ≠ -1
      omega
    · rintro ⟨notFailed, complete⟩
      obtain ⟨target, resolves⟩ := resolves_of_walk ne isNames tree.root notFailed
        (complete.imp_right fun count => by simpa using count)
      exact ⟨target, .inr resolves⟩
  · rw [walk_of_resolves (onlyFrom target resolves) tree.root]
    exact ⟨rfl, rfl, rfl⟩

/-- A partition that has only the root directory open. -/
theorem exists_mirrors (tree : Tree disk inodeTableLba) : ∃ part, Mirrors tree part := by
  obtain ⟨read, isRead, readNo⟩ := tree.inode 0 tree.root
  exact ⟨⟨disk, inodeTableLba, [], read⟩, rfl, rfl, fun _ mem => absurd mem List.not_mem_nil,
    readNo, read, isRead, rfl⟩

/-- `search_file` gives one answer, and it is what the components of the path lead
to, unless the path is two or more slashes and nothing else. -/
theorem search_file_resolves (tree : Tree disk inodeTableLba) {pathname : List UInt8}
    (isPath : IsPath pathname) :
    SearchesPath tree pathname ↔ ¬ (2 ≤ pathname.length ∧ ∀ char ∈ pathname, char = slash) := by
  constructor
  · rintro ⟨found, answers, _⟩ ⟨long, onlySlashes⟩
    obtain ⟨part, mirrors⟩ := exists_mirrors tree
    have notRoot : ¬ IsRootPath pathname := by
      rintro (rfl | rfl | rfl)
      · simp at long
      · exact absurd (onlySlashes dot (by simp)) (by decide)
      · exact absurd (onlySlashes dot (by simp)) (by decide)
    have noNames := components_eq_nil_iff.mpr onlySlashes
    -- with two contents of the uninitialised entry it returns two numbers
    have first := answers part ⟨[], 0, .unknown⟩ mirrors
    have second := answers part ⟨[], 1, .unknown⟩ mirrors
    rw [searchFile_eq isPath notRoot mirrors, noNames, walk] at first second
    rw [← first] at second
    simp at second
  · intro notSlashes
    by_cases isRoot : IsRootPath pathname
    · exact searchesPath_root isRoot tree
    · refine searchesPath_names isPath isRoot (fun noNames => notSlashes ?_) tree
      exact ⟨isPath.two_le fun isSlash => isRoot (.inl isSlash), components_eq_nil_iff.mp noNames⟩

/-! ### An empty file system -/

/-- The inode of the root is in sector 1 and its entries are in sector 9. -/
def emptyDisk : Disk := fun lba off =>
  if lba = 1 then
    if off = 16 then 9 else 0
  else if lba = 9 then
    if off = 0 ∨ off = 24 ∨ off = 25 then dot else if off = 20 ∨ off = 44 then 2 else 0
  else 0

theorem emptyDisk_root :
    inodeRead emptyDisk 1 0 = some ⟨0, 1, [9, 0, 0, 0, 0, 0, 0, 0, 0, 0, 0, 0, 0]⟩ := by
  decide +kernel

theorem emptyDisk_entries :
    dirAt emptyDisk 1 0 =
      [⟨[dot, 0, 0, 0, 0, 0, 0, 0, 0, 0, 0, 0, 0, 0, 0, 0], 0, .directory⟩,
        ⟨[dot, dot, 0, 0, 0, 0, 0, 0, 0, 0, 0, 0, 0, 0, 0, 0], 0, .directory⟩] := by
  decide +kernel

def emptyTree : Tree emptyDisk 1 where
  isDir iNo := iNo = 0
  parent _ := 0
  root := rfl
  parentRoot := rfl
  inode := by
    rintro _ rfl
    exact ⟨_, emptyDisk_root, rfl⟩
  entry := by
    rintro _ rfl
    rw [emptyDisk_entries]
    decide
  distinct := by
    rintro _ rfl
    rw [emptyDisk_entries]
    decide
  self := by
    rintro _ rfl
    rw [emptyDisk_entries]
    decide
  up := by
    rintro _ rfl
    rw [emptyDisk_entries]
    decide

/-- The path `/./`. -/
theorem search_file_resolves_dot :
    IsPath [slash, dot, slash] ∧ SearchesPath emptyTree [slash, dot, slash] := by
  have isPath : IsPath [slash, dot, slash] := ⟨rfl, by decide, by decide, by decide⟩
  exact ⟨isPath, (search_file_resolves emptyTree isPath).mpr (by decide)⟩

/-- For the path `//` the number that is returned is whatever was in memory. -/
theorem search_file_slashes :
    IsPath [slash, slash] ∧ components slash [slash, slash] = [] ∧
      ∃ part, Mirrors emptyTree part ∧
        (searchFile part ⟨[], 7, .unknown⟩ [slash, slash]).map (fun result => result.2.found) =
          some ⟨7, [], 0, .directory⟩ ∧
        ¬ SearchesPath emptyTree [slash, slash] := by
  have mirrors : Mirrors emptyTree ⟨emptyDisk, 1, [], ⟨0, 1, [9, 0, 0, 0, 0, 0, 0, 0, 0, 0, 0, 0, 0]⟩⟩ :=
    ⟨rfl, rfl, fun _ mem => absurd mem List.not_mem_nil, rfl, _, emptyDisk_root, rfl⟩
  refine ⟨⟨rfl, by decide, by decide, by decide⟩, by decide, _, mirrors, by decide +kernel, ?_⟩
  rintro ⟨found, answers, _⟩
  have first := answers _ ⟨[], 0, .unknown⟩ mirrors
  have second := answers _ ⟨[], 7, .unknown⟩ mirrors
  rw [← first] at second
  exact absurd second (by decide +kernel)

end ZyOs.Fs
