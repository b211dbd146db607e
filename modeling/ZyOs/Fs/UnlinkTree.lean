import ZyOs.Fs.OpenFailures
import ZyOs.Fs.TreeRemoval
import ZyOs.Fs.TreeSearch

/-!
Contract: what `sys_unlink` does to the tree on the volume.

Owns:
- that a removal by the kernel is a `Deletion`, when the inodes in memory are those of the
  tree;
- `Unlinks`, what a removal of a file should be, and when `sys_unlink` comes up to it.

`sys_unlink` does not ask, as `sys_open` does, whether the search came to the end of the
path: with a name behind a file it deletes the file.
-/

namespace ZyOs.Fs.Calls

open ZyOs.Kernel ZyOs.Memory ZyOs.Lib

variable {part : Volume} {tree : VolumeTree part} {s s' s₁ : State} {pdir : Dir} {entry : DirEntry} {fuel n d : Nat}

/-! ### The two steps -/

theorem deleteDirEntry_eq_some {done : Bool} (isRun : deleteDirEntry fuel pdir n s = some (done, s')) :
    ∃ part₁ node, Fs.deleteDirEntry fuel s.part (s.inode pdir.inode).node n = some (part₁, node, done) ∧
      s' = { s with
        part := part₁
        inode := Function.update s.inode pdir.inode { s.inode pdir.inode with node := node } } := by
  obtain ⟨read, t, isRead, isRest⟩ := bind_eq_some isRun
  cases isRead
  obtain ⟨result, s₁, isStep, isRest⟩ := bind_eq_some isRest
  obtain ⟨part₁, isDeleted, isAfter₁⟩ := onPart_eq_some isStep
  obtain ⟨⟨part₂, node, done₂⟩, isResult, isPair⟩ := Option.map_eq_some_iff.mp isDeleted
  cases isPair
  rw [isAfter₁] at isRest
  obtain ⟨_, s₂, isSet, isEnd⟩ := bind_eq_some isRest
  cases isSet
  cases isEnd
  exact ⟨part₂, node, isResult, rfl⟩

/-- The entry is taken out of the directory and its inode released. -/
theorem Mirrored.deletion (mirrored : Mirrored tree s) (openAt : OpenAt s pdir d) (isDir : tree.isDir d)
    (mem : entry ∈ dirAt part.disk part.inodeTableLba d) (proper : entry.isProper = true) (ne : entry.iNo ≠ d)
    {done : Bool} (isDeleted : deleteDirEntry fuel pdir entry.iNo s = some (done, s₁)) {a : Unit}
    (isReleased : inodeRelease entry.iNo s₁ = some (a, s')) :
    ∃ lba part₁ inode inode' node, Deletion tree d entry lba part₁ s'.part inode inode' node := by
  have isObject : tree.IsObject (s.inode pdir.inode).iNo := by
    rw [openAt.iNo]
    exact .inl isDir
  have same := mirrored.node pdir.inode openAt.isOpen isObject
  rw [openAt.iNo] at same
  have directory := (tree.directory d isDir).of_sameNode same
  have isLive := ((tree.mem_dirAt isDir).mp mem).1
  rw [← liveEntries_of_sectors part.disk same.iSectors] at isLive
  obtain ⟨part₁, inode', isRun, isAfter⟩ := deleteDirEntry_eq_some isDeleted
  rw [mirrored.samePart] at isRun
  obtain ⟨_, lba, removal⟩ := deleteDirEntry_removal directory tree.layout isLive proper isRun
  have loss : Loss tree d entry lba part₁ (s.inode pdir.inode).node inode' :=
    ⟨isDir, mem, proper, ne, same, removal⟩
  obtain ⟨node, part₂, part₃, isNo, isNode, isBlocks, isFreed, isEnd⟩ := inodeRelease_eq_some isReleased
  rw [isAfter] at isNode isBlocks
  have sameNode : SameNode node (part.record entry.iNo) := by
    rcases isNode with isRead | ⟨ptr, isOpen, isNode⟩
    · rw [readInode_eq (tree.object_lt loss.isObject)] at isRead
      cases isRead
      rw [loss.record_node isNo]
      exact ⟨rfl, rfl, rfl⟩
    · dsimp only at isNode
      by_cases isPdir : ptr = pdir.inode
      · rw [isPdir, Function.update_self] at isNode
        dsimp only at isNode
        rw [← isNode, removal.iNo, loss.dirNo] at isNo
        exact absurd isNo.symm ne
      · rw [Function.update_of_ne isPdir] at isNode
        have isEntry : (s.inode ptr).iNo = entry.iNo := by
          rw [← isNo, ← isNode]
          rfl
        have sameRecord := mirrored.node ptr isOpen (by rw [isEntry]; exact loss.isObject)
        rw [isEntry, isNode] at sameRecord
        exact sameRecord
  have released := Volume.released (loss.keepsFirst.layout tree.layout) (tree.object_lt loss.isObject)
    (loss.inUse_node sameNode) isBlocks isFreed
  rw [← isEnd] at released
  exact ⟨lba, part₁, _, inode', node, loss, sameNode, released⟩

/-- A search that ends at a file: the names before it lead to an entry of it. -/
theorem sysUnlink_deletion {junk : Junk} {pathname : List UInt8} (ledger : Ledger s [] [] s)
    (mirrored : Mirrored tree s) (isRun : sysUnlink fuel junk pathname s = some (true, s')) :
    ∃ pre post dir entry lba part₁ inode inode' node, components slash pathname = pre ++ post ∧
      ResolvesFrom part.disk part.inodeTableLba 0 pre ⟨dir, entry.iNo, .regular⟩ ∧
      entry.fType = .regular ∧ Deletion tree dir entry lba part₁ s'.part inode inode' node := by
  unfold sysUnlink at isRun
  obtain ⟨_, s₀, isShort, isRest⟩ := bind_eq_some isRun
  cases (check_eq_some isShort).2
  obtain ⟨record, s₁, isSearch, isRest⟩ := bind_eq_some isRest
  obtain ⟨_, mirrored₁, found⟩ := searchFile_found ⟨ledger, Searched.refl s⟩ mirrored isSearch
  obtain ⟨_, s₂, isChecked, isRest⟩ := bind_eq_some isRest
  obtain ⟨notRoot, isSame⟩ := check_eq_some isChecked
  rw [isSame] at isRest
  cases isNo : record.inodeNo with
  | none =>
      rw [isNo] at isRest
      obtain ⟨_, _, _, isEnd⟩ := bind_eq_some isRest
      cases isEnd
  | some n =>
      rw [isNo] at isRest
      dsimp only at isRest
      by_cases isDirectory : record.fileType = .directory
      · rw [if_pos isDirectory] at isRest
        obtain ⟨_, _, _, isEnd⟩ := bind_eq_some isRest
        cases isEnd
      · rw [if_neg isDirectory] at isRest
        obtain ⟨read, t, isRead, isRest⟩ := bind_eq_some isRest
        cases isRead
        split at isRest
        · obtain ⟨_, _, _, isEnd⟩ := bind_eq_some isRest
          cases isEnd
        · obtain ⟨answer, s₃, isMalloc, isRest⟩ := bind_eq_some isRest
          cases answer with
          | none =>
              obtain ⟨_, _, _, isEnd⟩ := bind_eq_some isRest
              cases isEnd
          | some ioBuf =>
              obtain ⟨heap, isAfter₃, _⟩ := malloc_eq_some isMalloc
              obtain ⟨done, s₄, isDeleted, isRest⟩ := bind_eq_some isRest
              obtain ⟨_, s₅, isReleased, isRest⟩ := bind_eq_some isRest
              obtain ⟨_, s₆, isFreed, isRest⟩ := bind_eq_some isRest
              obtain ⟨_, s₇, isClosed, isEnd⟩ := bind_eq_some isRest
              cases isEnd
              have isPart : s'.part = s₅.part := by
                rw [dirClose_part isClosed, free_eq_some isFreed]
              cases found with
              | root isRoot => exact absurd isRoot notRoot
              | missing isNone =>
                  rw [isNo] at isNone
                  cases isNone
              | empty _ isType => exact absurd isType isDirectory
              | directory _ _ isType _ => exact absurd isType isDirectory
              | @regular pre post dir m isSplit resolves isNo' isType openAt =>
                  cases isNo.symm.trans isNo'
                  obtain ⟨isDir, _⟩ := tree.object_of_resolves resolves tree.root
                  obtain ⟨_, entry, mem, _, sameNo, sameType⟩ := resolves.reaches reachesDir_root
                  dsimp only at isDir mem sameNo sameType
                  have isFile := tree.file dir isDir entry mem sameType
                  rw [← sameNo] at isDeleted isReleased resolves
                  rw [isAfter₃] at isDeleted
                  obtain ⟨lba, part₁, inode, inode', node, deletion⟩ :=
                    (mirrored₁.withHeap heap _).deletion (openAt.withHeap heap _) isDir mem
                      (tree.isProper_of_regular isDir mem sameType)
                      (fun same => tree.noDir _ isFile (same ▸ isDir)) isDeleted isReleased
                  rw [← isPart] at deletion
                  exact ⟨pre, post, dir, entry, lba, part₁, inode, inode', node, isSplit, resolves, sameType,
                    deletion⟩

/-! ### What a removal should be -/

/-- The entries of a directory are the same, but for those of `n` in `dir`; the record and
the blocks of a file are the same. -/
def SameContents (part part' : Volume) (dir n : Nat) (target : Target) : Prop :=
  if target.fType = .directory then
    ∀ entry, entry ∈ dirAt part'.disk part'.inodeTableLba target.iNo ↔
      entry ∈ dirAt part.disk part.inodeTableLba target.iNo ∧ ¬ (target.iNo = dir ∧ entry.iNo = n)
  else
    part'.record target.iNo = part.record target.iNo ∧
      ∀ lba ∈ ownBlocks part.disk (part.record target.iNo), part'.disk lba = part.disk lba

/-- The names led to the file `n` in `dir` and lead to nothing now; its blocks and its
inode are free, and everything else is as it was. -/
structure Unlinked (part part' : Volume) (names : List (List UInt8)) (dir n : Nat) : Prop where
  resolves : Resolves part.disk part.inodeTableLba names ⟨dir, n, .regular⟩
  gone : ∀ target, ¬ Resolves part'.disk part'.inodeTableLba names target
  blocks : ∀ lba, part'.InUse lba ↔ part.InUse lba ∧ lba ∉ ownBlocks part.disk (part.record n)
  inodes : ∀ other, bitmapScanTest part'.inodeBitmap other =
    if other = n then false else bitmapScanTest part.inodeBitmap other
  paths : ∀ others, (∀ target, Resolves part.disk part.inodeTableLba others target → target.iNo ≠ n) →
    ∀ target, Resolves part'.disk part'.inodeTableLba others target ↔
      Resolves part.disk part.inodeTableLba others target
  contents : ∀ others target, Resolves part.disk part.inodeTableLba others target → target.iNo ≠ n →
    SameContents part part' dir n target

def Unlinks (part part' : Volume) (names : List (List UInt8)) : Prop := ∃ dir n, Unlinked part part' names dir n

/-- Some of the names lead to a file, and more follow. -/
def BehindFile (part : Volume) (names : List (List UInt8)) : Prop :=
  ∃ pre post dir n, names = pre ++ post ∧ post ≠ [] ∧
    ResolvesFrom part.disk part.inodeTableLba 0 pre ⟨dir, n, .regular⟩

/-- The entry of `n` is the only one in a block of the directory, which is not the first. -/
def AloneIn (part : Volume) (dir n : Nat) : Prop :=
  ∃ lba ∈ Fs.dirBlocks part.disk (part.record dir), Alone (ideRead part.disk lba 1) n

/-- `inode_sync` writes the record of the directory to the slot of something else that a
path leads to. -/
def SlotTaken (part : Volume) (dir n : Nat) : Prop :=
  256 ≤ dir ∧ ∃ names target, Resolves part.disk part.inodeTableLba names target ∧
    target.iNo = dir % 256 ∧ target.iNo ≠ n

/-! ### When it comes up to it -/

variable {part₁ part' : Volume} {dir lba : Nat} {inode inode' node : InodeTable.Inode} {names : List (List UInt8)}

theorem slotFree_of_not_taken (notTaken : ¬ SlotTaken part dir n) :
    ∀ m, ReachesDir part.disk part.inodeTableLba m → m ≠ n → m = dir % 256 → m = dir := by
  rintro m ⟨names, above, resolves⟩ ne isSlot
  by_cases large : 256 ≤ dir
  · exact absurd ⟨large, names, _, resolves, isSlot, ne⟩ notTaken
  · omega

theorem Deletion.sameContents (deletion : Deletion tree dir entry lba part₁ part' inode inode' node)
    (isRegular : entry.fType = .regular) (notAlone : ¬ Alone (ideRead part.disk lba 1) entry.iNo)
    (notTaken : ¬ SlotTaken part dir entry.iNo) {target : Target}
    (resolves : Resolves part.disk part.inodeTableLba names target) (ne : target.iNo ≠ entry.iNo) :
    SameContents part part' dir entry.iNo target := by
  have isFile := tree.file dir deletion.isDir entry deletion.mem isRegular
  have noSlot : target.iNo = dir % 256 → target.iNo = dir := by
    intro isSlot
    by_cases large : 256 ≤ dir
    · exact absurd ⟨large, names, _, resolves, isSlot, ne⟩ notTaken
    · omega
  unfold SameContents
  split
  · rename_i isDirectory
    have isDir : tree.isDir target.iNo := by
      obtain ⟨above, m, fType⟩ := target
      dsimp only at isDirectory
      rw [isDirectory] at resolves
      exact tree.dir_of_reaches ⟨names, above, resolves⟩
    intro other
    by_cases same : target.iNo = dir
    · rw [same, deletion.mem_dirAt_dir (.inr notAlone)]
      refine and_congr_right fun mem => not_congr ?_
      constructor
      · exact fun both => ⟨rfl, both.2⟩
      · rintro ⟨_, sameNo⟩
        rw [← sameNo] at isFile
        exact ⟨tree.isProper_of_file deletion.isDir mem isFile, sameNo⟩
    · rw [deletion.dirAt_other isDir same ne fun isSlot => same (noSlot isSlot)]
      exact ⟨fun mem => ⟨mem, fun both => same both.1⟩, fun both => both.1⟩
  · rename_i notDirectory
    have isOther : tree.isFile target.iNo := by
      rcases resolves with ⟨_, isRoot⟩ | resolves
      · rw [isRoot] at notDirectory
        exact absurd rfl notDirectory
      · obtain ⟨isDir, _⟩ := tree.object_of_resolves resolves tree.root
        obtain ⟨_, other, mem, _, sameNo, sameType⟩ := resolves.reaches reachesDir_root
        rw [← sameType] at notDirectory
        rcases tree.entry _ isDir other mem with ⟨isDirectory, _⟩ | isRegular'
        · exact absurd isDirectory notDirectory
        · rw [← sameNo]
          exact tree.file _ isDir other mem isRegular'
    have notDir : target.iNo ≠ dir := by
      intro same
      rw [same] at isOther
      exact tree.noDir dir isOther deletion.isDir
    refine ⟨deletion.record_other (.inr isOther) ne fun isSlot => notDir (noSlot isSlot), fun block mem => ?_⟩
    exact deletion.disk_other (.inr isOther) notDir mem

/-- A deletion does what it should, when the search came to the end of the names, the
entry was not alone in its block and the slot of the directory is its own. -/
theorem Deletion.unlinked (deletion : Deletion tree dir entry lba part₁ part' inode inode' node)
    (isRegular : entry.fType = .regular)
    (resolves : Resolves part.disk part.inodeTableLba names ⟨dir, entry.iNo, .regular⟩)
    (notAlone : ¬ Alone (ideRead part.disk lba 1) entry.iNo) (notTaken : ¬ SlotTaken part dir entry.iNo) :
    Unlinked part part' names dir entry.iNo := by
  have isFile := tree.file dir deletion.isDir entry deletion.mem isRegular
  have slotFree := slotFree_of_not_taken notTaken
  have sameTable := deletion.keeps.writes.inodeTableLba
  have back : ∀ {others target}, Resolves part'.disk part'.inodeTableLba others target →
      Resolves part.disk part.inodeTableLba others target := by
    intro others target after
    rw [sameTable] at after
    exact after.of_subset (deletion.subset (.inr notAlone) slotFree)
  refine ⟨resolves, fun target after => ?_, fun other => ?_, deletion.inodeBit, fun others notIt target => ?_,
    fun others target before ne => ?_⟩
  · have isTarget := tree.resolves_unique resolves (back after)
    rw [← isTarget] at after
    rcases after with ⟨_, isRoot⟩ | after
    · cases congrArg Target.fType isRoot
    · obtain ⟨_, last, mem, _, sameNo, _⟩ := after.reaches reachesDir_root
      dsimp only at mem sameNo
      obtain ⟨old, notGone⟩ := (deletion.mem_dirAt_dir (.inr notAlone)).mp mem
      rw [← sameNo] at isFile
      exact notGone ⟨tree.isProper_of_file deletion.isDir old isFile, sameNo⟩
  · rw [deletion.inUse_iff]
    simp only [notAlone, and_false, not_false_eq_true, true_and]
  · refine ⟨back, fun before => ?_⟩
    rw [sameTable]
    refine (before.avoids (tree.noDir _ isFile) (notIt target before)).kept
      (deletion.kept (.inr notAlone) slotFree) fun isZero => ?_
    rw [isZero] at isFile
    exact tree.noDir 0 isFile tree.root
  · exact Deletion.sameContents deletion isRegular notAlone notTaken before ne

/-- With its block, a directory gives back what is not the file's. -/
theorem Deletion.notAlone (deletion : Deletion tree dir entry lba part₁ part' inode inode' node)
    (unlinked : Unlinked part part' names dir entry.iNo) : ¬ Alone (ideRead part.disk lba 1) entry.iNo := by
  intro alone
  have wasInUse := tree.object_inUse (.inl deletion.isDir) deletion.isBlock
  have isInUse := (unlinked.blocks lba).mpr ⟨wasInUse, deletion.notOwn deletion.isObject deletion.ne⟩
  exact ((deletion.inUse_iff lba).mp isInUse).2.1 ⟨rfl, alone⟩

/-- What had the slot has the entry `.` of the directory, or its number. -/
theorem Deletion.notTaken (deletion : Deletion tree dir entry lba part₁ part' inode inode' node)
    (unlinked : Unlinked part part' names dir entry.iNo) : ¬ SlotTaken part dir entry.iNo := by
  rintro ⟨large, others, target, before, isSlot, ne⟩
  have contents := unlinked.contents others target before ne
  have notIt : dir % 256 ≠ entry.iNo := isSlot ▸ ne
  unfold SameContents at contents
  rw [isSlot] at contents
  split at contents
  · rename_i isDirectory
    have isDir : tree.isDir (dir % 256) := by
      rw [← isSlot]
      obtain ⟨above, m, fType⟩ := target
      dsimp only at isDirectory
      rw [isDirectory] at before
      exact tree.dir_of_reaches ⟨others, above, before⟩
    obtain ⟨self, mem, isDot, isNo, _⟩ := tree.self dir deletion.isDir
    have isIn : self ∈ dirAt part'.disk part'.inodeTableLba (dir % 256) := by
      refine (deletion.mem_dirAt_slot notIt).mpr ⟨mem, ?_⟩
      rintro ⟨isProper, _⟩
      simp [DirEntry.isProper, isDot] at isProper
    have isNo' := (tree.entry_dot isDir ((contents self).mp isIn).1 isDot).1
    omega
  · have sameNo : (part.record (dir % 256)).iNo.toNat = dir % 256 := by
      rw [← isSlot]
      rcases before with ⟨_, isRoot⟩ | before
      · rw [isRoot]
        exact tree.record_iNo (.inl tree.root)
      · exact tree.record_iNo (tree.object_of_resolves before tree.root).2
    rw [← contents.1, deletion.record_slot notIt] at sameNo
    omega

/-- `sys_unlink` removes a file as it should exactly when no name of the path follows a
file, the entry is not alone in a later block of its directory, and no other inode that a
path leads to has the low byte of the number of the directory. -/
theorem sys_unlink_iff {junk : Junk} {pathname : List UInt8} (ledger : Ledger s [] [] s)
    (mirrored : Mirrored tree s) (isRun : sysUnlink fuel junk pathname s = some (true, s')) :
    Unlinks part s'.part (components slash pathname) ↔
      ¬ BehindFile part (components slash pathname) ∧
        ∀ dir n, Resolves part.disk part.inodeTableLba (components slash pathname) ⟨dir, n, .regular⟩ →
          ¬ AloneIn part dir n ∧ ¬ SlotTaken part dir n := by
  obtain ⟨pre, post, dir, entry, lba, part₁, inode, inode', node, isSplit, resolves, isRegular, deletion⟩ :=
    sysUnlink_deletion ledger mirrored isRun
  rw [isSplit]
  constructor
  · rintro ⟨dir', n, unlinked⟩
    have notBehind : ¬ BehindFile part (pre ++ post) := by
      rintro ⟨front, back, above, m, isSplit', ne, isFile⟩
      have before := unlinked.resolves
      rw [isSplit'] at before
      rcases before with ⟨isNil, _⟩ | before
      · exact ne (List.append_eq_nil_iff.mp isNil).2
      · exact isFile.not_behind rfl tree.root ne before
    have isEnd : post = [] := by
      by_contra ne
      exact notBehind ⟨pre, post, dir, entry.iNo, rfl, ne, resolves⟩
    rw [isEnd, List.append_nil] at unlinked ⊢
    cases tree.resolves_unique (.inr resolves) unlinked.resolves
    rw [isEnd, List.append_nil] at notBehind
    refine ⟨notBehind, fun above m before => ?_⟩
    cases tree.resolves_unique (.inr resolves) before
    exact ⟨mt deletion.alone_iff.mp (Deletion.notAlone deletion unlinked), Deletion.notTaken deletion unlinked⟩
  · rintro ⟨notBehind, clean⟩
    have isEnd : post = [] := by
      by_contra ne
      exact notBehind ⟨pre, post, dir, entry.iNo, rfl, ne, resolves⟩
    rw [isEnd, List.append_nil] at clean ⊢
    obtain ⟨notAlone, notTaken⟩ := clean dir entry.iNo (.inr resolves)
    exact ⟨dir, entry.iNo, Deletion.unlinked deletion isRegular (.inr resolves) (mt deletion.alone_iff.mpr notAlone)
      notTaken⟩

/-! ### A file and a directory in the root -/

/-- The system after booting from this volume; these answers of `sys_malloc` are for the
kernel. -/
def smallState (kernelAnswers : List Nat) : State :=
  { bootState with
    part := smallVolume
    inode := fun _ => ⟨smallVolume.record 0, 1, false⟩
    answers := fun asked =>
      some (if asked ∈ kernelAnswers then kHeapStart + 4096 * (asked + 1) else 0x8049000 + 4096 * asked) }

theorem smallState_booted (kernelAnswers : List Nat) : Booted (smallState kernelAnswers) :=
  ⟨rfl, bootState_booted.rootLive, rfl, fun _ => rfl, rfl⟩

theorem smallState_mirrored (kernelAnswers : List Nat) : Mirrored smallTree (smallState kernelAnswers) := by
  have rootNo : (smallVolume.record 0).iNo.toNat = 0 := smallTree.record_iNo (.inl smallTree.root)
  refine ⟨rfl, rootNo, fun ptr _ _ => ?_⟩
  show SameNode (smallVolume.record 0) (smallVolume.record (smallVolume.record 0).iNo.toNat)
  rw [rootNo]
  exact ⟨rfl, rfl, rfl⟩

theorem smallVolume_resolves :
    ResolvesFrom smallVolume.disk smallVolume.inodeTableLba 0 [[102]] ⟨0, 1, .regular⟩ := by
  apply @ResolvesFrom.last _ _ 0 ⟨[102, 0, 0, 0, 0, 0, 0, 0, 0, 0, 0, 0, 0, 0, 0, 0], 1, .regular⟩
  rw [smallVolume_rootEntries]
  decide

theorem unlinks_file_and_behind :
    (sysUnlink 0 noJunk [slash, 102] (smallState [3])).map (·.1) = some true ∧
      (sysUnlink 0 noJunk [slash, 102, slash, 120] (smallState [3])).map (·.1) = some true := by
  decide +kernel

/-- `/f/x` is no path, and `sys_unlink` removes the file `/f` for it. -/
theorem unlink_behind_file :
    ∃ s s', Reachable s ∧ Mirrored smallTree s ∧
      sysUnlink 0 noJunk [slash, 102, slash, 120] s = some (true, s') ∧
      ¬ Unlinks smallVolume s'.part (components slash [slash, 102, slash, 120]) := by
  obtain ⟨⟨done, s'⟩, isRun, isDone⟩ := Option.map_eq_some_iff.mp unlinks_file_and_behind.2
  cases isDone
  refine ⟨smallState [3], s', .boot (smallState_booted _), smallState_mirrored _, isRun, ?_⟩
  rintro ⟨dir, n, unlinked⟩
  have isNames : components slash [slash, 102, slash, 120] = [[102]] ++ [[120]] := by decide
  rcases unlinked.resolves with ⟨isNil, _⟩ | resolves
  · rw [isNames] at isNil
    cases isNil
  · rw [isNames] at resolves
    exact smallVolume_resolves.not_behind rfl smallTree.root (List.cons_ne_nil _ _) resolves

/-- `/f` is removed as it should be. -/
theorem unlink_file :
    ∃ s', sysUnlink 0 noJunk [slash, 102] (smallState [3]) = some (true, s') ∧
      Unlinks smallVolume s'.part [[102]] := by
  obtain ⟨⟨done, s'⟩, isRun, isDone⟩ := Option.map_eq_some_iff.mp unlinks_file_and_behind.1
  cases isDone
  have isNames : components slash [slash, 102] = [[102]] := by decide
  refine ⟨s', isRun, ?_⟩
  rw [← isNames]
  refine (sys_unlink_iff (smallState_booted _).ledger (smallState_mirrored _) isRun).mpr ?_
  rw [isNames]
  refine ⟨?_, fun dir n resolves => ?_⟩
  · rintro ⟨pre, post, dir, n, isSplit, ne, resolves⟩
    cases pre with
    | nil => cases resolves
    | cons name pre =>
        have isNil := (List.append_eq_nil_iff.mp (List.cons.inj isSplit).2.symm).2
        exact ne isNil
  · cases smallTree.resolves_unique (.inr smallVolume_resolves) resolves
    refine ⟨?_, fun taken => absurd taken.1 (by decide)⟩
    unfold AloneIn
    decide +kernel

end ZyOs.Fs.Calls
