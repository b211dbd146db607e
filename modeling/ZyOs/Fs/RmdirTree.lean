import ZyOs.Fs.UnlinkTree

/-!
Contract: what `sys_rmdir` does to the tree on the volume.

Owns: `Rmdirs`, what a removal of a directory should be, and when `sys_rmdir` comes up to
it.

The parent that `search_file` returns for a path that ends in `.` is the directory itself.
`delete_dir_entry` passes over `.` and `..`, and the result of it is not asked for: the
inode is released and the entry stays.
-/

namespace ZyOs.Fs.Calls

open ZyOs.Kernel ZyOs.Memory ZyOs.Lib

variable {part part' part₁ : Volume} {tree : VolumeTree part} {s s' s₀ s₁ : State} {blocks refs : List Ptr}
  {pdir dir : Dir} {ptr : Ptr} {entry : DirEntry} {fuel n d above : Nat} {names : List (List UInt8)}

/-! ### Inodes that stay open -/

theorem OpenAt.opened (openAt : OpenAt s dir d) (ledger : Ledger s₀ blocks refs s) (opened : Opened n ptr s s') :
    OpenAt s' dir d := by
  cases opened with
  | found _ _ _ after =>
      rw [after]
      refine ⟨openAt.isOpen, ?_⟩
      rw [← openAt.iNo]
      exact congrArg (fun node : InodeTable.Inode => node.iNo.toNat) (countedUp_kept s ptr dir.inode).1
  | loaded node asked _ _ isFree _ after =>
      have ne : dir.inode ≠ ptr := by
        intro same
        have isOpen := openAt.isOpen
        rw [same] at isOpen
        exact ledger.openLive ptr isOpen isFree
      rw [after]
      refine ⟨List.mem_cons_of_mem _ openAt.isOpen, ?_⟩
      dsimp only
      rw [Function.update_of_ne ne]
      exact openAt.iNo

theorem OpenAt.dirOpen (openAt : OpenAt s pdir d) (ledger : Ledger s₀ blocks refs s)
    (isRun : dirOpen n s = some (dir, s')) : OpenAt s' pdir d := by
  obtain ⟨answer, s₂, isMalloc, isRest⟩ := bind_eq_some isRun
  have ledger₂ := malloc_ensures.returns ledger isMalloc
  obtain ⟨heap, isAfter, _⟩ := malloc_eq_some isMalloc
  obtain ⟨inode, s₃, isOpened, isRest⟩ := bind_eq_some isRest
  obtain ⟨pdir', s₄, isPdir, isEnd⟩ := bind_eq_some isRest
  obtain ⟨_, isSame⟩ := deref_eq_some isPdir
  cases isEnd
  rw [isSame]
  have openAt₂ : OpenAt s₂ pdir d := by
    rw [isAfter]
    exact openAt.withHeap heap _
  exact openAt₂.opened ledger₂ (inodeOpen_opened isOpened)

/-! ### What the call has done -/

/-- The directory is empty and its only block is the first. -/
structure IsEmptyDir (part : Volume) (n : Nat) : Prop where
  entries : ∀ entry ∈ liveEntries part.disk (part.record n), entry.isProper = false
  block : ownBlocks part.disk (part.record n) = [sectorOf (part.record n) 0]

theorem isEmptyDir_of_run (mirrored : Mirrored tree s) (openAt : OpenAt s dir n) (isDir : tree.isDir n)
    (size : (s.inode dir.inode).node.iSize.toNat = dirEntrySize * 2)
    (sectors : (List.range' 1 12).all fun blockIdx => sectorOf (s.inode dir.inode).node blockIdx = 0) :
    IsEmptyDir part n := by
  have same := mirrored.node dir.inode openAt.isOpen (by rw [openAt.iNo]; exact .inl isDir)
  rw [openAt.iNo] at same
  rw [same.iSize] at size
  have isZero : ∀ idx, 1 ≤ idx → idx < 13 → sectorOf (part.record n) idx = 0 := by
    intro idx low high
    have isIn : idx ∈ List.range' 1 12 := List.mem_range'_1.mpr ⟨low, by omega⟩
    have isZero := List.all_eq_true.mp sectors idx isIn
    rw [decide_eq_true_iff, same.sectorOf] at isZero
    exact isZero
  refine ⟨tree.isEmpty_of_size isDir size, ?_⟩
  unfold ownBlocks tableBlock Fs.dirBlocks
  rw [if_neg (by simp [isZero]), List.nil_append, allBlocks_eq, tableBlocks, if_neg (by simp [isZero])]
  have first := (tree.directory n isDir).first
  simp [directBlocks, List.range_succ, isZero, first]

theorem dirRemove_eq_some {removed : Bool} (isRun : dirRemove fuel pdir dir s = some (removed, s')) :
    ((List.range' 1 12).all fun blockIdx => sectorOf (s.inode dir.inode).node blockIdx = 0) ∧
      ((removed = false ∧ s'.part = s.part) ∨ (removed = true ∧ ∃ heap asked done s₁ a s₂,
        deleteDirEntry fuel pdir (s.inode dir.inode).iNo { s with heap := heap, asked := asked } = some (done, s₁) ∧
        inodeRelease (s.inode dir.inode).iNo s₁ = some (a, s₂) ∧ s'.part = s₂.part)) := by
  obtain ⟨read, t, isRead, isRest⟩ := bind_eq_some isRun
  cases isRead
  obtain ⟨_, s₂, isChecked, isRest⟩ := bind_eq_some isRest
  obtain ⟨sectors, isSame⟩ := check_eq_some isChecked
  rw [isSame] at isRest
  refine ⟨sectors, ?_⟩
  obtain ⟨answer, s₃, isMalloc, isRest⟩ := bind_eq_some isRest
  obtain ⟨heap, isAfter, _⟩ := malloc_eq_some isMalloc
  cases answer with
  | none =>
      cases isRest
      rw [isAfter]
      exact .inl ⟨rfl, rfl⟩
  | some ioBuf =>
      obtain ⟨done, s₄, isDeleted, isRest⟩ := bind_eq_some isRest
      obtain ⟨a, s₅, isReleased, isRest⟩ := bind_eq_some isRest
      obtain ⟨_, s₆, isFreed, isEnd⟩ := bind_eq_some isRest
      cases isEnd
      rw [isAfter] at isDeleted
      refine .inr ⟨rfl, heap, _, done, s₄, a, s₅, isDeleted, isReleased, ?_⟩
      rw [free_eq_some isFreed]

/-- The inode is released, and its entry taken out of the directory, when that is not the
directory itself. -/
inductive Removed (tree : VolumeTree part) (part' : Volume) (d n : Nat) : Prop where
  | entry {entry : DirEntry} {lba : Nat} {part₁ : Volume} {inode inode' node : InodeTable.Inode}
      (isNo : entry.iNo = n) (deletion : Deletion tree d entry lba part₁ part' inode inode' node)
  | itself (same : d = n) {node : InodeTable.Inode} (sameNode : SameNode node (part.record n))
      (released : part.Released part' node n)

/-- The release of a directory without its entry. -/
theorem Mirrored.released (mirrored : Mirrored tree s) (openAt : OpenAt s pdir n) (isDir : tree.isDir n)
    (isEmpty : IsEmptyDir part n) {done : Bool} (isDeleted : deleteDirEntry fuel pdir n s = some (done, s₁)) {a : Unit}
    (isReleased : inodeRelease n s₁ = some (a, s')) :
    ∃ node, SameNode node (part.record n) ∧ part.Released s'.part node n := by
  have same := mirrored.node pdir.inode openAt.isOpen (by rw [openAt.iNo]; exact .inl isDir)
  rw [openAt.iNo] at same
  have directory := (tree.directory n isDir).of_sameNode same
  obtain ⟨part₁, inode', isRun, isAfter⟩ := deleteDirEntry_eq_some isDeleted
  rw [mirrored.samePart, deleteDirEntry_missing directory] at isRun
  · cases isRun
    obtain ⟨node, part₂, part₃, isNo, isNode, isBlocks, isFreed, isEnd⟩ := inodeRelease_eq_some isReleased
    rw [Function.update_eq_self] at isAfter
    rw [isAfter] at isNode isBlocks
    have sameNode : SameNode node (part.record n) := by
      rcases isNode with isRead | ⟨ptr, isOpen, isNode⟩
      · rw [readInode_eq (tree.dir_lt isDir)] at isRead
        cases isRead
        exact ⟨rfl, rfl, rfl⟩
      · have isEntry : (s.inode ptr).iNo = n := by
          rw [← isNo, ← isNode]
          rfl
        have sameRecord := mirrored.node ptr isOpen (by rw [isEntry]; exact .inl isDir)
        dsimp only at isNode
        rw [isEntry, isNode] at sameRecord
        exact sameRecord
    refine ⟨node, sameNode, ?_⟩
    rw [isEnd]
    refine Volume.released tree.layout (tree.dir_lt isDir) ?_ isBlocks isFreed
    intro lba mem
    rw [ownBlocks_of_sectors part.disk sameNode.iSectors] at mem
    exact tree.object_inUse (.inl isDir) mem
  · intro entry mem proper
    rw [liveEntries_of_sectors part.disk same.iSectors] at mem
    rw [isEmpty.entries entry mem] at proper
    cases proper

/-- A name that leads from a directory to an empty one is its own, or `.`. -/
theorem isProper_of_empty (reaches : ReachesDir part.disk part.inodeTableLba d) (tree : VolumeTree part)
    (mem : entry ∈ dirAt part.disk part.inodeTableLba d) (isEmpty : IsEmptyDir part entry.iNo)
    (isDir : tree.isDir entry.iNo) (notRoot : entry.iNo ≠ 0) (ne : entry.iNo ≠ d) : entry.isProper = true := by
  have isDir' := tree.dir_of_reaches reaches
  rw [isProper_iff]
  constructor
  · exact fun isDot => ne (tree.entry_dot isDir' mem isDot).1
  · intro isDotDot
    have isParent := (tree.entry_dotDot isDir' mem isDotDot).1
    have notZero : d ≠ 0 := by
      intro isZero
      rw [isZero, tree.parentRoot] at isParent
      exact notRoot isParent
    -- the parent of the directory has the entry of it
    obtain ⟨above, _, other, otherMem, proper, _, _, isAbove⟩ := tree.entry_of_reaches reaches notZero
    rw [← isAbove, ← isParent] at otherMem
    rw [isEmpty.entries other ((tree.mem_dirAt isDir).mp otherMem).1] at proper
    cases proper

theorem sysRmdir_effect {junk : Junk} {pathname : List UInt8} {done : Bool} (ledger : Ledger s [] [] s)
    (mirrored : Mirrored tree s) (notRoot : components slash pathname ≠ [])
    (isRun : sysRmdir fuel junk pathname s = some (done, s')) :
    (done = false ∧ s'.part = part) ∨ (done = true ∧ ∃ d n, n ≠ 0 ∧
      ResolvesFrom part.disk part.inodeTableLba 0 (components slash pathname) ⟨d, n, .directory⟩ ∧
      IsEmptyDir part n ∧ Removed tree s'.part d n) := by
  unfold sysRmdir at isRun
  obtain ⟨record, s₁, isSearch, isRest⟩ := bind_eq_some isRun
  obtain ⟨searching₁, mirrored₁, found⟩ := searchFile_found ⟨ledger, Searched.refl s⟩ mirrored isSearch
  obtain ⟨_, s₂, isChecked, isRest⟩ := bind_eq_some isRest
  obtain ⟨notZero, isSame⟩ := check_eq_some isChecked
  rw [isSame] at isRest
  cases isNo : record.inodeNo with
  | none =>
      rw [isNo] at isRest
      obtain ⟨_, s₃, isClosed, isEnd⟩ := bind_eq_some isRest
      cases isEnd
      exact .inl ⟨rfl, (dirClose_part isClosed).trans mirrored₁.samePart⟩
  | some n =>
      rw [isNo] at isRest notZero
      dsimp only at isRest
      by_cases isRegular : record.fileType = .regular
      · rw [if_pos isRegular] at isRest
        obtain ⟨_, s₃, isClosed, isEnd⟩ := bind_eq_some isRest
        cases isEnd
        exact .inl ⟨rfl, (dirClose_part isClosed).trans mirrored₁.samePart⟩
      · rw [if_neg isRegular] at isRest
        cases found with
        | root isRoot =>
            rw [isNo] at isRoot
            exact absurd isRoot notZero
        | missing isNone =>
            rw [isNo] at isNone
            cases isNone
        | empty isNil _ => exact absurd isNil notRoot
        | regular _ _ _ _ _ isType _ => exact absurd isType isRegular
        | @directory d m resolves isNo' isType openAt =>
            cases isNo.symm.trans isNo'
            have reaches : ReachesDir part.disk part.inodeTableLba n := ⟨_, d, .inr resolves⟩
            have isDir := tree.dir_of_reaches reaches
            obtain ⟨dir, s₃, isOpened, isRest⟩ := bind_eq_some isRest
            obtain ⟨mirrored₃, openAt₃⟩ := mirrored₁.dirOpen searching₁.1 isDir isOpened
            have parentAt₃ := openAt.dirOpen searching₁.1 isOpened
            obtain ⟨isEmpty, s₄, isAsked, isRest⟩ := bind_eq_some isRest
            cases isAsked
            split at isRest
            · rename_i size
              rw [decide_eq_true_iff] at size
              obtain ⟨removed, s₅, isRemoved, isRest⟩ := bind_eq_some isRest
              obtain ⟨_, s₆, isClosed, isRest⟩ := bind_eq_some isRest
              obtain ⟨_, s₇, isClosed', isEnd⟩ := bind_eq_some isRest
              cases isEnd
              have isPart : s'.part = s₅.part := (dirClose_part isClosed').trans (dirClose_part isClosed)
              obtain ⟨sectors, isKept | isGone⟩ := dirRemove_eq_some isRemoved
              · exact .inl ⟨isKept.1, isPart.trans (isKept.2.trans mirrored₃.samePart)⟩
              · obtain ⟨isDone, heap, asked, deleted, s₈, a, s₉, isDeleted, isReleased, isAfter⟩ := isGone
                rw [openAt₃.iNo] at isDeleted isReleased
                have isEmptyDir := isEmptyDir_of_run mirrored₃ openAt₃ isDir size sectors
                refine .inr ⟨isDone, d, n, fun isZero => notZero (by rw [isZero]), resolves, isEmptyDir, ?_⟩
                rw [isPart, isAfter]
                have mirrored₄ := mirrored₃.withHeap heap asked
                have parentAt₄ := parentAt₃.withHeap heap asked
                by_cases same : n = d
                · rw [← same] at parentAt₄
                  obtain ⟨node, sameNode, released⟩ :=
                    mirrored₄.released parentAt₄ isDir isEmptyDir isDeleted isReleased
                  exact .itself same.symm sameNode released
                · obtain ⟨reachesParent, entry, mem, _, sameNo, _⟩ := resolves.reaches reachesDir_root
                  dsimp only at reachesParent mem sameNo
                  rw [← sameNo] at isEmptyDir isDir notZero same isDeleted isReleased
                  have proper := isProper_of_empty reachesParent tree mem isEmptyDir isDir
                    (fun isZero => notZero (by rw [isZero])) same
                  obtain ⟨lba, part₁, inode, inode', node, deletion⟩ :=
                    mirrored₄.deletion parentAt₄ (tree.dir_of_reaches reachesParent) mem proper same
                      isDeleted isReleased
                  exact .entry sameNo deletion
            · obtain ⟨_, s₅, isClosed, isRest⟩ := bind_eq_some isRest
              obtain ⟨_, s₆, isClosed', isEnd⟩ := bind_eq_some isRest
              cases isEnd
              exact .inl ⟨rfl, (dirClose_part isClosed').trans ((dirClose_part isClosed).trans mirrored₃.samePart)⟩

/-! ### What a removal should be -/

/-- The names led to the empty directory `n`; its entry is gone, its inode and its block
are free, and every path that does not go through it leads where it led. -/
structure Rmdired (part part' : Volume) (names : List (List UInt8)) (d n : Nat) : Prop where
  resolves : Resolves part.disk part.inodeTableLba names ⟨d, n, .directory⟩
  empty : ∀ entry ∈ dirAt part.disk part.inodeTableLba n, entry.isProper = false
  gone : ∀ above, ReachesDir part.disk part.inodeTableLba above →
    ∀ entry ∈ dirAt part.disk part.inodeTableLba above, entry.isProper = true → entry.iNo = n →
      entry ∉ dirAt part'.disk part'.inodeTableLba above
  block : ∃ lba, ownBlocks part.disk (part.record n) = [lba] ∧ part.InUse lba ∧ ¬ part'.InUse lba
  inode : bitmapScanTest part'.inodeBitmap n = false
  paths : ∀ others target, Avoids part.disk part.inodeTableLba n others target →
    Resolves part'.disk part'.inodeTableLba others target
  nothingNew : ∀ others target, Resolves part'.disk part'.inodeTableLba others target →
    Resolves part.disk part.inodeTableLba others target

def Rmdirs (part part' : Volume) (names : List (List UInt8)) : Prop := ∃ d n, Rmdired part part' names d n

/-- `inode_sync` writes the record of the directory to its own slot; or else to that of no
other directory, and the record that stays is good for what is left. -/
def SlotKept (part : Volume) (d n : Nat) : Prop :=
  d < 256 ∨ (¬ AloneIn part d n ∧
    ∀ m, ReachesDir part.disk part.inodeTableLba m → m ≠ n → m ≠ d % 256)

/-! ### When it comes up to it -/

theorem IsEmptyDir.notProper (isEmpty : IsEmptyDir part n) (isDir : tree.isDir n) :
    ∀ entry ∈ dirAt part.disk part.inodeTableLba n, entry.isProper = false :=
  fun entry mem => isEmpty.entries entry ((tree.mem_dirAt isDir).mp mem).1

/-- An empty directory, but for the root, has an entry in another directory. -/
theorem IsEmptyDir.parent (isEmpty : IsEmptyDir part n) (reaches : ReachesDir part.disk part.inodeTableLba n)
    (tree : VolumeTree part) (notZero : n ≠ 0) :
    ReachesDir part.disk part.inodeTableLba (tree.parent n) ∧ tree.parent n ≠ n ∧
      ∃ entry ∈ dirAt part.disk part.inodeTableLba (tree.parent n), entry.isProper = true ∧ entry.iNo = n := by
  obtain ⟨above, reachesAbove, entry, mem, proper, isNo, _, isAbove⟩ := tree.entry_of_reaches reaches notZero
  rw [isAbove]
  refine ⟨reachesAbove, fun isSelf => ?_, entry, mem, proper, isNo⟩
  rw [isSelf] at mem
  rw [isEmpty.notProper (tree.dir_of_reaches reaches) entry mem] at proper
  cases proper

/-- A directory has one proper entry, in its parent. -/
theorem proper_unique {other : DirEntry} (isDir : tree.isDir d)
    (mem : entry ∈ dirAt part.disk part.inodeTableLba d) (proper : entry.isProper = true)
    (isDir' : tree.isDir above) (mem' : other ∈ dirAt part.disk part.inodeTableLba above)
    (proper' : other.isProper = true) (sameNo : other.iNo = entry.iNo) (isChild : tree.isDir entry.iNo) :
    above = d := by
  have isDirectory : ∀ {a : Nat} {e : DirEntry}, tree.isDir a → e ∈ dirAt part.disk part.inodeTableLba a →
      tree.isDir e.iNo → e.fType = .directory := by
    intro a e isDir mem isChild
    rcases tree.entry a isDir e mem with ⟨isDirectory, _⟩ | isRegular
    · exact isDirectory
    · exact absurd isChild (tree.noDir _ (tree.file a isDir e mem isRegular))
  have first := tree.leadsBack d isDir entry mem (isDirectory isDir mem isChild) (isProper_iff.mp proper)
  have second := tree.leadsBack above isDir' other mem' (isDirectory isDir' mem' (sameNo ▸ isChild))
    (isProper_iff.mp proper')
  rw [← first, ← second, sameNo]

theorem Deletion.rmdired {lba : Nat} {inode inode' node : InodeTable.Inode}
    (deletion : Deletion tree d entry lba part₁ part' inode inode' node)
    (resolves : Resolves part.disk part.inodeTableLba names ⟨d, entry.iNo, .directory⟩) (notZero : entry.iNo ≠ 0)
    (isEmpty : IsEmptyDir part entry.iNo) (slotKept : SlotKept part d entry.iNo) :
    Rmdired part part' names d entry.iNo := by
  have isDir := tree.dir_of_reaches ⟨names, d, resolves⟩
  have noDrop : d < 256 ∨ ¬ Alone (ideRead part.disk lba 1) entry.iNo :=
    slotKept.imp_right fun kept => mt deletion.alone_iff.mpr kept.1
  have slotFree : ∀ m, ReachesDir part.disk part.inodeTableLba m → m ≠ entry.iNo → m = d % 256 → m = d := by
    intro m reaches ne isSlot
    rcases slotKept with small | kept
    · omega
    · exact absurd isSlot (kept.2 m reaches ne)
  have sameTable := deletion.keeps.writes.inodeTableLba
  have own := isEmpty.block
  have isOwn : sectorOf (part.record entry.iNo) 0 ∈ ownBlocks part.disk (part.record entry.iNo) := by
    rw [own]
    exact List.mem_singleton_self _
  refine ⟨resolves, isEmpty.notProper isDir, ?_, ⟨_, own, ?_, ?_⟩, ?_, ?_, ?_⟩
  · intro above reaches other mem proper sameNo isIn
    have isAbove := proper_unique deletion.isDir deletion.mem deletion.proper (tree.dir_of_reaches reaches) mem
      proper sameNo isDir
    rw [isAbove] at isIn
    exact ((deletion.mem_dirAt_dir noDrop).mp isIn).2 ⟨proper, sameNo⟩
  · exact tree.object_inUse (.inl isDir) isOwn
  · intro isInUse
    exact ((deletion.inUse_iff _).mp isInUse).2.2 isOwn
  · rw [deletion.inodeBit, if_pos rfl]
  · intro others target avoids
    rw [sameTable]
    exact avoids.kept (deletion.kept noDrop slotFree) notZero
  · intro others target after
    rw [sameTable] at after
    exact after.of_subset (deletion.subset noDrop slotFree)

theorem Deletion.slotKept {lba : Nat} {inode inode' node : InodeTable.Inode}
    (deletion : Deletion tree d entry lba part₁ part' inode inode' node)
    (reaches : ReachesDir part.disk part.inodeTableLba d) (isEmpty : IsEmptyDir part entry.iNo)
    (isDir : tree.isDir entry.iNo) (rmdired : Rmdired part part' names d entry.iNo) :
    SlotKept part d entry.iNo := by
  by_cases small : d < 256
  · exact .inl small
  · refine .inr ⟨fun alone => ?_, fun m reachesSlot ne isSlot => ?_⟩
    · -- the record that stays lists the block with the entry
      have stale := deletion.mem_dirAt_stale (by omega) (deletion.alone_iff.mp alone)
      apply rmdired.gone d reaches entry deletion.mem deletion.proper rfl
      rw [stale]
      exact deletion.mem
    · obtain ⟨way, descends⟩ := reachesSlot.descends tree.leadsBack
      have notProper : ∀ other ∈ dirAt part.disk part.inodeTableLba entry.iNo, ¬ IsProper other.name := by
        intro other mem proper
        rw [← isProper_iff, isEmpty.notProper isDir other mem] at proper
        cases proper
      obtain ⟨above, avoids⟩ := descends.avoids notProper ne
      obtain ⟨self, mem, isDot, isNo, isDirectory⟩ := tree.self m (tree.dir_of_reaches reachesSlot)
      -- the name `.` leads from the slot to the directory that is there now
      have before := avoids.concat mem (by rw [isNo]; exact ne)
      rw [isNo, isDirectory, isDot] at before
      rcases rmdired.paths _ _ (.inr before) with ⟨isNil, _⟩ | after
      · simp at isNil
      · obtain ⟨_, last, lastMem, isLast, lastNo, _⟩ := after.reaches reachesDir_root
        dsimp only at lastMem lastNo
        rw [List.getLast?_concat] at isLast
        rw [isSlot] at lastMem
        have isOld := ((deletion.mem_dirAt_slot (isSlot ▸ ne)).mp lastMem).1
        have isSelf := (tree.entry_dot deletion.isDir isOld (Option.some.inj isLast).symm).1
        omega

/-- `sys_rmdir` removes a directory as it should exactly when the path does not end in
`.` and the record of the parent is written where it belongs; when it returns -1, nothing
has changed. -/
theorem sys_rmdir_iff {junk : Junk} {pathname : List UInt8} {done : Bool} (ledger : Ledger s [] [] s)
    (mirrored : Mirrored tree s) (notRoot : components slash pathname ≠ [])
    (isRun : sysRmdir fuel junk pathname s = some (done, s')) :
    ((done = true → Rmdirs part s'.part (components slash pathname)) ∧ (done = false → s'.part = part)) ↔
      (done = true → (components slash pathname).getLast? ≠ some [dot] ∧
        ∀ d n, Resolves part.disk part.inodeTableLba (components slash pathname) ⟨d, n, .directory⟩ →
          SlotKept part d n) := by
  rcases sysRmdir_effect ledger mirrored notRoot isRun with
    ⟨isFalse, isKept⟩ | ⟨isTrue, d, n, notZero, resolves, isEmpty, removed⟩
  · rw [isFalse]
    simp [isKept]
  · rw [isTrue]
    simp only [true_implies, Bool.true_eq_false, false_implies, and_true]
    have reaches : ReachesDir part.disk part.inodeTableLba n := ⟨_, d, .inr resolves⟩
    have isDir := tree.dir_of_reaches reaches
    obtain ⟨reachesParent, last, lastMem, isLast, lastNo, _⟩ := resolves.reaches reachesDir_root
    dsimp only at reachesParent lastMem lastNo
    have isParent := tree.dir_of_reaches reachesParent
    cases removed with
    | @itself same node sameNode released =>
        -- the entry of the directory stays in its parent
        constructor
        · rintro ⟨d', n', rmdired⟩
          cases tree.resolves_unique (.inr resolves) rmdired.resolves
          obtain ⟨reachesAbove, ne, entry, mem, proper, isNo⟩ := isEmpty.parent reaches tree notZero
          have isAbove := tree.dir_of_reaches reachesAbove
          have isKept := dirAt_kept released.keeps (tree.dir_lt isAbove) (by simpa using ne) fun lba mem =>
            ⟨tree.own_inData (.inl isAbove) lba mem, List.not_mem_nil⟩
          have isIn := mem
          rw [← isKept] at isIn
          exact absurd isIn (rmdired.gone _ reachesAbove entry mem proper isNo)
        · rintro ⟨notDot, _⟩
          rw [same] at lastMem
          have notProper := isEmpty.notProper isDir last lastMem
          have isDotDot : last.name = [dot, dot] := by
            rw [isLast] at notDot
            simp only [DirEntry.isProper, decide_eq_false_iff_not, not_and, not_not] at notProper
            exact notProper fun isDot => notDot (congrArg some isDot)
          have isSelf := (tree.entry_dotDot isDir lastMem isDotDot).1.symm.trans lastNo
          exact absurd isSelf (isEmpty.parent reaches tree notZero).2.1
    | @entry entry lba part₁ inode inode' node isNo deletion =>
        rw [← isNo] at resolves isEmpty isDir notZero lastNo
        constructor
        · rintro ⟨d', n', rmdired⟩
          cases tree.resolves_unique (.inr resolves) rmdired.resolves
          refine ⟨?_, fun above m before => ?_⟩
          · rw [isLast]
            intro isDot
            have isSelf := (tree.entry_dot isParent lastMem (Option.some.inj isDot)).1
            exact deletion.ne (lastNo.symm.trans isSelf)
          · cases tree.resolves_unique (.inr resolves) before
            exact Deletion.slotKept deletion reachesParent isEmpty isDir rmdired
        · rintro ⟨_, slotKept⟩
          exact ⟨d, entry.iNo, Deletion.rmdired deletion (.inr resolves) notZero isEmpty
            (slotKept d entry.iNo (.inr resolves))⟩

/-! ### A directory in the root -/

/-- The entry of `d`. -/
def entryOfD : DirEntry := ⟨[100, 0, 0, 0, 0, 0, 0, 0, 0, 0, 0, 0, 0, 0, 0, 0], 2, .directory⟩

theorem smallVolume_child : entryOfD ∈ dirAt smallVolume.disk smallVolume.inodeTableLba 0 := by
  rw [smallVolume_rootEntries]
  decide

theorem smallVolume_childDot : ResolvesFrom smallVolume.disk smallVolume.inodeTableLba 0 [[100], [dot]]
    ⟨2, 2, .directory⟩ := by
  apply ResolvesFrom.step smallVolume_child rfl
  apply @ResolvesFrom.last _ _ 2 ⟨[dot, 0, 0, 0, 0, 0, 0, 0, 0, 0, 0, 0, 0, 0, 0, 0], 2, .directory⟩
  show _ ∈ dirAt smallVolume.disk smallVolume.inodeTableLba 2
  rw [smallVolume_childEntries]
  decide

theorem removes_d :
    (sysRmdir 0 noJunk [slash, 100] (smallState [3, 7])).map (·.1) = some true ∧
      (sysRmdir 0 noJunk [slash, 100, slash, dot] (smallState [3, 8, 11])).map (fun result =>
        (result.1, decide (entryOfD ∈ dirAt result.2.part.disk result.2.part.inodeTableLba 0))) =
          some (true, true) := by
  decide +kernel

/-- `/d/.` is the directory `/d`. `sys_rmdir` releases its inode and leaves its entry in
the root. -/
theorem rmdir_dot_keeps_entry :
    ∃ s s', Reachable s ∧ Mirrored smallTree s ∧
      sysRmdir 0 noJunk [slash, 100, slash, dot] s = some (true, s') ∧
      ¬ Rmdirs smallVolume s'.part (components slash [slash, 100, slash, dot]) := by
  obtain ⟨⟨done, s'⟩, isRun, isResult⟩ := Option.map_eq_some_iff.mp removes_d.2
  obtain ⟨isDone, isIn⟩ := Prod.mk.inj isResult
  dsimp only at isDone isIn
  rw [isDone] at isRun
  refine ⟨smallState [3, 8, 11], s', .boot (smallState_booted _), smallState_mirrored _, isRun, ?_⟩
  rintro ⟨d, n, rmdired⟩
  have isNames : components slash [slash, 100, slash, dot] = [[100], [dot]] := by decide
  rw [isNames] at rmdired
  cases smallTree.resolves_unique (.inr smallVolume_childDot) rmdired.resolves
  exact rmdired.gone 0 reachesDir_root entryOfD smallVolume_child (by decide) rfl (of_decide_eq_true isIn)

/-- `/d` is removed as it should be. -/
theorem rmdir_d :
    ∃ s', sysRmdir 0 noJunk [slash, 100] (smallState [3, 7]) = some (true, s') ∧
      Rmdirs smallVolume s'.part [[100]] := by
  obtain ⟨⟨done, s'⟩, isRun, isDone⟩ := Option.map_eq_some_iff.mp removes_d.1
  cases isDone
  have isNames : components slash [slash, 100] = [[100]] := by decide
  refine ⟨s', isRun, ?_⟩
  rw [← isNames]
  refine ((sys_rmdir_iff (smallState_booted _).ledger (smallState_mirrored _) (by decide) isRun).mpr
    fun _ => ?_).1 rfl
  rw [isNames]
  refine ⟨by decide, fun d n resolves => .inl ?_⟩
  have isChild : ResolvesFrom smallVolume.disk smallVolume.inodeTableLba 0 [[100]] ⟨0, 2, .directory⟩ :=
    .last smallVolume_child
  cases smallTree.resolves_unique (.inr isChild) resolves
  decide

end ZyOs.Fs.Calls
