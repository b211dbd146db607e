import ZyOs.Fs.SearchEffects
import ZyOs.Fs.VolumeTree

/-!
Contract: where a search by the kernel ends in the tree on the volume.

Owns:
- `Mirrored`: the inodes in memory are those of the tree;
- what `search_file` returns: nothing, a file at the end of the names or before it, or a
  directory.

A search that has no block for its buffers returns nothing, too.
-/

namespace ZyOs.Fs.Calls

open ZyOs.Kernel ZyOs.Memory ZyOs.Lib

variable {part : Volume} {tree : VolumeTree part} {s₀ s₁ s s' : State} {blocks refs : List Ptr} {ptr : Ptr}
  {d n p last fuel : Nat} {names : List (List UInt8)} {record : SearchedRecord} {dirE : DirEntry}

/-! ### Inodes in memory -/

/-- The volume has this tree, and the inodes of the list are those of the tree. -/
structure Mirrored (tree : VolumeTree part) (s : State) : Prop where
  samePart : s.part = part
  root : (s.inode s.rootInode).iNo = 0
  node : ∀ ptr ∈ s.openInodes, tree.IsObject (s.inode ptr).iNo →
    SameNode (s.inode ptr).node (part.record (s.inode ptr).iNo)

/-- The directory has this number, and its inode is open. -/
structure OpenAt (s : State) (dir : Dir) (d : Nat) : Prop where
  isOpen : dir.inode ∈ s.openInodes
  iNo : (s.inode dir.inode).iNo = d

theorem Ledger.rootOpen (ledger : Ledger s₀ blocks refs s) : s.rootInode ∈ s.openInodes := by
  have counted := ledger.counted s.rootInode
  unfold references at counted
  rw [if_pos rfl] at counted
  by_contra notOpen
  rw [openings, if_neg notOpen] at counted
  omega

theorem Mirrored.withHeap (mirrored : Mirrored tree s) (heap : Ptr → Option PoolFlags) (asked : Nat) :
    Mirrored tree { s with heap := heap, asked := asked } :=
  ⟨mirrored.samePart, mirrored.root, mirrored.node⟩

theorem OpenAt.withHeap {dir : Dir} (openAt : OpenAt s dir d) (heap : Ptr → Option PoolFlags) (asked : Nat) :
    OpenAt { s with heap := heap, asked := asked } dir d :=
  ⟨openAt.isOpen, openAt.iNo⟩

/-- A directory that is opened is mirrored, too. -/
theorem Mirrored.opened (mirrored : Mirrored tree s) (ledger : Ledger s₀ blocks refs s) (isDir : tree.isDir n)
    (opened : Opened n ptr s s') :
    Mirrored tree s' ∧ ptr ∈ s'.openInodes ∧ (s'.inode ptr).iNo = n := by
  cases opened with
  | found mem isNo _ after =>
      have sameNo : ∀ other, ((countedUp s ptr).inode other).iNo = (s.inode other).iNo := fun other =>
        congrArg (fun node : InodeTable.Inode => node.iNo.toNat) (countedUp_kept s ptr other).1
      rw [after]
      refine ⟨⟨mirrored.samePart, ?_, fun other isOpen isObject => ?_⟩, mem, ?_⟩
      · rw [← mirrored.root]
        exact sameNo s.rootInode
      · rw [sameNo] at isObject ⊢
        rw [(countedUp_kept s ptr other).1]
        exact mirrored.node other isOpen isObject
      · rw [← isNo]
        exact sameNo ptr
  | loaded node asked _ isRead isFree _ after =>
      have fresh : ∀ other ∈ s.openInodes, other ≠ ptr := by
        intro other isOpen same
        rw [same] at isOpen
        exact ledger.openLive ptr isOpen isFree
      rw [mirrored.samePart, readInode_eq (tree.dir_lt isDir)] at isRead
      cases isRead
      rw [after]
      refine ⟨⟨mirrored.samePart, ?_, ?_⟩, List.mem_cons_self, ?_⟩
      · dsimp only
        rw [Function.update_of_ne (fresh s.rootInode ledger.rootOpen)]
        exact mirrored.root
      · intro other mem isObject
        dsimp only at isObject ⊢
        rcases List.mem_cons.mp mem with isPtr | isOpen
        · rw [isPtr, Function.update_self]
          have sameNo : (part.record n).iNo.toNat = n := tree.record_iNo (.inl isDir)
          unfold MemInode.iNo
          dsimp only
          rw [sameNo]
          exact ⟨rfl, rfl, rfl⟩
        · rw [Function.update_of_ne (fresh other isOpen)] at isObject ⊢
          exact mirrored.node other isOpen isObject
      · dsimp only
        rw [Function.update_self]
        exact tree.record_iNo (.inl isDir)

theorem Mirrored.closed (mirrored : Mirrored tree s) {a : Unit} (isRun : inodeClose ptr s = some (a, s')) :
    Mirrored tree s' := by
  obtain ⟨heap, isAfter⟩ := inodeClose_eq_some isRun
  have sameNode : ∀ other, ((countedDown s ptr).inode other).node = (s.inode other).node := fun other =>
    (countedDown_kept s ptr other).1
  have sameNo : ∀ other, ((countedDown s ptr).inode other).iNo = (s.inode other).iNo := fun other =>
    congrArg (fun node : InodeTable.Inode => node.iNo.toNat) (sameNode other)
  rw [isAfter]
  refine ⟨mirrored.samePart, ?_, fun other isOpen isObject => ?_⟩
  · rw [← mirrored.root]
    exact sameNo s.rootInode
  · dsimp only at isOpen isObject ⊢
    rw [sameNo] at isObject ⊢
    rw [sameNode]
    apply mirrored.node other _ isObject
    split at isOpen
    · exact List.mem_of_mem_erase isOpen
    · exact isOpen

/-! ### Directories -/

theorem Mirrored.dirClose (mirrored : Mirrored tree s) {dir : Dir} {a : Unit}
    (isRun : dirClose dir s = some (a, s')) : Mirrored tree s' := by
  obtain ⟨block, inode⟩ := dir
  cases block with
  | none =>
      cases isRun
      exact mirrored
  | some block =>
      obtain ⟨_, s₂, isClosed, isFreed⟩ := bind_eq_some isRun
      rw [free_eq_some isFreed]
      exact (mirrored.closed isClosed).withHeap _ _

theorem Mirrored.dirOpen (mirrored : Mirrored tree s) (ledger : Ledger s₀ blocks refs s) (isDir : tree.isDir n)
    {dir : Dir} (isRun : dirOpen n s = some (dir, s')) : Mirrored tree s' ∧ OpenAt s' dir n := by
  obtain ⟨answer, s₂, isMalloc, isRest⟩ := bind_eq_some isRun
  have ledger₂ := malloc_ensures.returns ledger isMalloc
  obtain ⟨heap, isAfter, _⟩ := malloc_eq_some isMalloc
  obtain ⟨inode, s₃, isOpened, isRest⟩ := bind_eq_some isRest
  obtain ⟨pdir, s₄, isPdir, isEnd⟩ := bind_eq_some isRest
  obtain ⟨_, isSame⟩ := deref_eq_some isPdir
  cases isEnd
  rw [isSame]
  have mirrored₂ : Mirrored tree s₂ := by
    rw [isAfter]
    exact mirrored.withHeap heap _
  obtain ⟨mirrored₃, isOpen, isNo⟩ := mirrored₂.opened ledger₂ isDir (inodeOpen_opened isOpened)
  exact ⟨mirrored₃, isOpen, isNo⟩

/-- An entry that is found is one of the directory. -/
theorem Mirrored.searchDirEntry (mirrored : Mirrored tree s) {dir : Dir} (openAt : OpenAt s dir d)
    (isDir : tree.isDir d) {name : List UInt8} (ne : name ≠ []) {found : Option DirEntry}
    (isRun : searchDirEntry dir name s = some (found, s')) :
    Mirrored tree s' ∧ OpenAt s' dir d ∧ ∀ entry, found = some entry →
      entry ∈ dirAt part.disk part.inodeTableLba d ∧ entry.name = name := by
  unfold Calls.searchDirEntry at isRun
  obtain ⟨answer, s₂, isMalloc, isRest⟩ := bind_eq_some isRun
  obtain ⟨heap₂, isAfter₂, _⟩ := malloc_eq_some isMalloc
  cases answer with
  | none =>
      cases isRest
      rw [isAfter₂]
      refine ⟨mirrored.withHeap _ _, openAt.withHeap _ _, fun entry isFound => ?_⟩
      cases isFound
  | some allBlocks =>
      obtain ⟨buf, s₃, isBuf, isRest⟩ := bind_eq_some isRest
      obtain ⟨answer, s₃', isMalloc', isDeref⟩ := bind_eq_some isBuf
      obtain ⟨heap₃, isAfter₃, _⟩ := malloc_eq_some isMalloc'
      obtain ⟨_, isSame⟩ := deref_eq_some isDeref
      obtain ⟨read, t, isRead, isRest⟩ := bind_eq_some isRest
      cases isRead
      obtain ⟨_, s₄, isFreed, isRest⟩ := bind_eq_some isRest
      obtain ⟨_, s₅, isFreed', isEnd⟩ := bind_eq_some isRest
      rw [isSame, isAfter₃, isAfter₂] at isFreed isEnd
      have isAfter₅ := free_eq_some isFreed'
      rw [free_eq_some isFreed] at isAfter₅
      cases isEnd
      rw [isAfter₅]
      refine ⟨mirrored.withHeap _ _, openAt.withHeap _ _, fun entry isFound => ?_⟩
      dsimp only at isFound
      have isObject : tree.IsObject (s.inode dir.inode).iNo := by
        rw [openAt.iNo]
        exact .inl isDir
      have same := mirrored.node dir.inode openAt.isOpen isObject
      rw [openAt.iNo] at same
      have directory := (tree.directory d isDir).of_sameNode same
      rw [mirrored.samePart] at isFound
      have mem := (searchDirEntry_iff directory.cleared directory.names _ ne entry).mp isFound
      rw [liveEntries_of_sectors part.disk same.iSectors] at mem
      refine ⟨(tree.mem_dirAt isDir).mpr ⟨mem.1, ?_⟩, mem.2⟩
      rw [mem.2]
      exact ne

/-! ### The search -/

/-- A state of a search that is in the directory `d`. -/
structure Walking (tree : VolumeTree part) (s₀ s₁ : State) (blocks refs : List Ptr) (dir : Dir) (d : Nat)
    (s : State) : Prop where
  searching : Searching s₀ s₁ (dir.ownBlock ++ blocks) (dir.ownRef ++ refs) s
  mirrored : Mirrored tree s
  openAt : OpenAt s dir d
  isDir : tree.isDir d

/-- Where a search from `d` ends: `p` is the directory before it, and `last` is in the
entry that was found last. -/
inductive Reached (tree : VolumeTree part) (d p last : Nat) (names : List (List UInt8)) (record : SearchedRecord)
    (s : State) : Prop where
  | missing (isNone : record.inodeNo = none)
  | here (isNil : names = []) (isNo : record.inodeNo = asInodeNo last) (isType : record.fileType = .directory)
      (openAt : OpenAt s record.parentDir p)
  | regular (pre post : List (List UInt8)) {dir n : Nat} (isSplit : names = pre ++ post)
      (resolves : ResolvesFrom part.disk part.inodeTableLba d pre ⟨dir, n, .regular⟩)
      (isNo : record.inodeNo = some n) (isType : record.fileType = .regular)
      (openAt : OpenAt s record.parentDir dir)
  | directory {dir n : Nat}
      (resolves : ResolvesFrom part.disk part.inodeTableLba d names ⟨dir, n, .directory⟩)
      (isNo : record.inodeNo = some n) (isType : record.fileType = .directory)
      (openAt : OpenAt s record.parentDir dir)

theorem asInodeNo_of_lt (small : n < 4096) : asInodeNo n = some n := by
  unfold asInodeNo
  rw [if_neg (by omega)]

/-- The end of a search behind the entry of a directory. -/
theorem Reached.behind {entry : DirEntry} (isDir : tree.isDir d)
    (mem : entry ∈ dirAt part.disk part.inodeTableLba d) (isDirectory : entry.fType = .directory)
    (reached : Reached tree entry.iNo d entry.iNo names record s) :
    Reached tree d p last (entry.name :: names) record s := by
  have isDir' := tree.isDir_of_entry isDir mem isDirectory
  cases reached with
  | missing isNone => exact .missing isNone
  | here isNil isNo isType openAt =>
      have resolves := ResolvesFrom.last mem
      rw [isDirectory] at resolves
      rw [asInodeNo_of_lt (tree.dir_lt isDir')] at isNo
      rw [isNil]
      exact .directory resolves isNo isType openAt
  | regular pre post isSplit resolves isNo isType openAt =>
      refine .regular (entry.name :: pre) post ?_ ?_ isNo isType openAt
      · rw [isSplit]
        rfl
      · cases pre with
        | nil => cases resolves
        | cons name pre => exact .step mem isDirectory resolves
  | directory resolves isNo isType openAt =>
      refine .directory ?_ isNo isType openAt
      cases names with
      | nil => cases resolves
      | cons name names => exact .step mem isDirectory resolves

/-- The search is in a directory until it returns. The induction is on the names that
are left. -/
theorem searchLoop_reached {parentDir : Dir} {parentInodeNo : Nat} {name : List UInt8}
    {subPath : Option (List UInt8)} {searchedPath : List UInt8}
    (walking : Walking tree s₀ s₁ blocks refs parentDir d s) (isParent : tree.isDir parentInodeNo)
    (isRun : searchLoop fuel parentDir parentInodeNo name subPath searchedPath dirE s = some (record, s')) :
    Searching s₀ s₁ (record.parentDir.ownBlock ++ blocks) (record.parentDir.ownRef ++ refs) s' ∧
      Mirrored tree s' ∧ Reached tree d parentInodeNo dirE.iNo (namesLeft name subPath) record s' := by
  induction fuel generalizing parentDir parentInodeNo name subPath searchedPath dirE d s with
  | zero => cases isRun
  | succ fuel inductionHypothesis =>
      unfold searchLoop at isRun
      by_cases isNil : name = []
      · rw [if_pos isNil] at isRun
        obtain ⟨_, s₂, isClosed, isRest⟩ := bind_eq_some isRun
        have searching₂ := ((searching_accounts s₀ s₁).dirClose parentDir).returns walking.searching isClosed
        have mirrored₂ := walking.mirrored.dirClose isClosed
        obtain ⟨dir, s₃, isOpened, isEnd⟩ := bind_eq_some isRest
        have searching₃ := ((searching_accounts s₀ s₁).dirOpen parentInodeNo).returns searching₂ isOpened
        obtain ⟨mirrored₃, openAt⟩ := mirrored₂.dirOpen searching₂.1 isParent isOpened
        cases isEnd
        refine ⟨searching₃, mirrored₃, .here ?_ rfl rfl openAt⟩
        rw [namesLeft, if_pos isNil]
      · rw [if_neg isNil] at isRun
        rw [namesLeft_rest subPath isNil]
        obtain ⟨_, s₂, isShort, isRest⟩ := bind_eq_some isRun
        cases (check_eq_some isShort).2
        obtain ⟨found, s₃, isFound, isRest⟩ := bind_eq_some isRest
        have searching₃ := ((searching_accounts s₀ s₁).searchDirEntry parentDir name).returns
          walking.searching isFound
        obtain ⟨mirrored₃, openAt₃, isEntry⟩ :=
          walking.mirrored.searchDirEntry walking.openAt walking.isDir isNil isFound
        cases found with
        | none =>
            cases isRest
            exact ⟨searching₃, mirrored₃, .missing rfl⟩
        | some entry =>
            obtain ⟨mem, isName⟩ := isEntry entry rfl
            obtain ⟨parsed, s₄, isParsed, isRest⟩ := bind_eq_some isRest
            obtain ⟨isParts, isSame⟩ := parseName_eq_some isParsed
            rw [isSame] at isRest
            rw [← isParts, ← isName]
            dsimp only at isRest
            rcases tree.entry d walking.isDir entry mem with ⟨isDirectory, isDir'⟩ | isRegular
            · rw [isDirectory] at isRest
              obtain ⟨read, s₅, isRead, isRest⟩ := bind_eq_some isRest
              cases isRead
              obtain ⟨_, s₆, isClosed, isRest⟩ := bind_eq_some isRest
              have searching₆ := ((searching_accounts s₀ s₁).dirClose parentDir).returns searching₃ isClosed
              obtain ⟨dir, s₇, isOpened, isRest⟩ := bind_eq_some isRest
              have searching₇ := ((searching_accounts s₀ s₁).dirOpen entry.iNo).returns searching₆ isOpened
              obtain ⟨mirrored₇, openAt₇⟩ :=
                (mirrored₃.dirClose isClosed).dirOpen searching₆.1 isDir' isOpened
              rw [openAt₃.iNo] at isRest
              have ends := inductionHypothesis ⟨searching₇, mirrored₇, openAt₇, isDir'⟩ walking.isDir isRest
              exact ⟨ends.1, ends.2.1, ends.2.2.behind walking.isDir mem isDirectory⟩
            · have isFile := tree.file d walking.isDir entry mem isRegular
              have resolves := ResolvesFrom.last mem
              rw [isRegular] at resolves isRest
              cases isRest
              refine ⟨searching₃, mirrored₃, .regular [entry.name] _ rfl resolves ?_ rfl openAt₃⟩
              exact asInodeNo_of_lt (tree.inTable _ isFile)

/-! ### The call -/

/-- Where `search_file` ends. -/
inductive FoundAt (tree : VolumeTree part) (names : List (List UInt8)) (record : SearchedRecord) (s : State) :
    Prop where
  | root (isNo : record.inodeNo = some 0)
  | missing (isNone : record.inodeNo = none)
  | empty (isNil : names = []) (isType : record.fileType = .directory)
  | regular (pre post : List (List UInt8)) {dir n : Nat} (isSplit : names = pre ++ post)
      (resolves : ResolvesFrom part.disk part.inodeTableLba 0 pre ⟨dir, n, .regular⟩)
      (isNo : record.inodeNo = some n) (isType : record.fileType = .regular)
      (openAt : OpenAt s record.parentDir dir)
  | directory {dir n : Nat}
      (resolves : ResolvesFrom part.disk part.inodeTableLba 0 names ⟨dir, n, .directory⟩)
      (isNo : record.inodeNo = some n) (isType : record.fileType = .directory)
      (openAt : OpenAt s record.parentDir dir)

theorem searchFile_found {junk : Junk} {pathname : List UInt8} (searching : Searching s₀ s₁ blocks refs s)
    (mirrored : Mirrored tree s) (isRun : searchFile junk pathname s = some (record, s')) :
    Searching s₀ s₁ (record.parentDir.ownBlock ++ blocks) (record.parentDir.ownRef ++ refs) s' ∧
      Mirrored tree s' ∧ FoundAt tree (components slash pathname) record s' := by
  unfold searchFile at isRun
  obtain ⟨read, s₂, isRead, isRest⟩ := bind_eq_some isRun
  cases isRead
  by_cases isRoot : isRootPath pathname
  · rw [if_pos isRoot] at isRest
    cases isRest
    exact ⟨searching, mirrored, .root rfl⟩
  · rw [if_neg isRoot] at isRest
    obtain ⟨_, s₃, isAbsolute, isRest⟩ := bind_eq_some isRest
    cases (check_eq_some isAbsolute).2
    obtain ⟨parsed, s₄, isParsed, isRest⟩ := bind_eq_some isRest
    obtain ⟨isParts, isSame⟩ := parseName_eq_some isParsed
    have sameNames : namesLeft parsed.1 parsed.2 = components slash pathname := by
      rw [isParts]
      exact pathParse_names pathname
    rw [isSame] at isRest
    have walking : Walking tree s₀ s₁ blocks refs (rootDir s) 0 s :=
      ⟨searching, mirrored, ⟨searching.1.rootOpen, mirrored.root⟩, tree.root⟩
    obtain ⟨searching', mirrored', reached⟩ := searchLoop_reached walking tree.root isRest
    refine ⟨searching', mirrored', ?_⟩
    rw [sameNames] at reached
    cases reached with
    | missing isNone => exact .missing isNone
    | here isNil isNo isType openAt => exact .empty isNil isType
    | regular pre post isSplit resolves isNo isType openAt =>
        exact .regular pre post isSplit resolves isNo isType openAt
    | directory resolves isNo isType openAt => exact .directory resolves isNo isType openAt

end ZyOs.Fs.Calls
