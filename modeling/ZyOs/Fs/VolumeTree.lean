import ZyOs.Fs.InodeRecords
import ZyOs.Fs.CanonicalPath

/-!
Contract: the tree of directories and files on a volume.

Owns:
- `VolumeTree`: the tree of a search, the records of its directories and files, and
  that the blocks of each are its own;
- what is reached by a path, and which paths avoid an inode;
- what paths lead to when directories lose entries.
-/

namespace ZyOs.Fs

open ZyOs.Kernel
open InodeTable (Inode)

variable {disk disk' : Disk} {inodeTableLba : Nat} {part part' : Volume} {inode inode' : Inode}
  {names : List (List UInt8)} {target : Target} {dir n : Nat} {entry : DirEntry}

/-! ### What is reached -/

/-- A path leads to a directory with this number. -/
def ReachesDir (disk : Disk) (inodeTableLba n : Nat) : Prop :=
  ∃ names dir, Resolves disk inodeTableLba names ⟨dir, n, .directory⟩

theorem reachesDir_root : ReachesDir disk inodeTableLba 0 := ⟨[], 0, .inl ⟨rfl, rfl⟩⟩

/-- One more name, which is an entry of the directory that was reached. -/
theorem ResolvesFrom.concat (resolves : ResolvesFrom disk inodeTableLba dir names target)
    (isDirectory : target.fType = .directory) (mem : entry ∈ dirAt disk inodeTableLba target.iNo) :
    ResolvesFrom disk inodeTableLba dir (names ++ [entry.name]) ⟨target.iNo, entry.iNo, entry.fType⟩ := by
  induction resolves with
  | @last dir step isStep => exact .step isStep isDirectory (.last mem)
  | @step dir step name rest target isStep isDir _ inductionHypothesis =>
      exact .step isStep isDir (inductionHypothesis isDirectory mem)

theorem Resolves.concat {above : Nat} (resolves : Resolves disk inodeTableLba names ⟨above, dir, .directory⟩)
    (mem : entry ∈ dirAt disk inodeTableLba dir) :
    Resolves disk inodeTableLba (names ++ [entry.name]) ⟨dir, entry.iNo, entry.fType⟩ := by
  right
  rcases resolves with ⟨isNil, isRoot⟩ | resolves
  · have isZero : dir = 0 := congrArg Target.iNo isRoot
    rw [isZero] at mem
    rw [isNil, isZero]
    exact .last mem
  · exact resolves.concat rfl mem

theorem ReachesDir.step (reaches : ReachesDir disk inodeTableLba dir)
    (mem : entry ∈ dirAt disk inodeTableLba dir) (isDirectory : entry.fType = .directory) :
    ReachesDir disk inodeTableLba entry.iNo := by
  obtain ⟨names, above, resolves⟩ := reaches
  have next := resolves.concat mem
  rw [isDirectory] at next
  exact ⟨_, _, next⟩

/-- The last name is looked up in a directory that is reached. -/
theorem ResolvesFrom.reaches (resolves : ResolvesFrom disk inodeTableLba dir names target)
    (reaches : ReachesDir disk inodeTableLba dir) :
    ReachesDir disk inodeTableLba target.dir ∧ ∃ entry ∈ dirAt disk inodeTableLba target.dir,
      names.getLast? = some entry.name ∧ entry.iNo = target.iNo ∧ entry.fType = target.fType := by
  induction resolves with
  | @last dir entry mem => exact ⟨reaches, entry, mem, rfl, rfl, rfl⟩
  | @step dir entry name rest target mem isDirectory _ inductionHypothesis =>
      obtain ⟨isDir, last, lastMem, isLast, isNo, isType⟩ := inductionHypothesis (reaches.step mem isDirectory)
      refine ⟨isDir, last, lastMem, ?_, isNo, isType⟩
      rw [List.getLast?_cons_cons]
      exact isLast

/-! ### What a path cannot lead to -/

theorem ResolvesFrom.unique {tree : Tree disk inodeTableLba}
    (resolves : ResolvesFrom disk inodeTableLba dir names target) (isDir : tree.isDir dir) {other : Target}
    (resolves' : ResolvesFrom disk inodeTableLba dir names other) : target = other := by
  induction resolves with
  | @last dir entry mem =>
      generalize isNames : [entry.name] = names at resolves'
      cases resolves' with
      | @last _ entry' mem' =>
          rw [tree.distinct dir isDir entry mem entry' mem' (List.cons.inj isNames).1]
      | step mem' _ _ => cases (List.cons.inj isNames).2
  | @step dir entry name rest target mem isDirectory _ inductionHypothesis =>
      generalize isNames : entry.name :: name :: rest = names at resolves'
      cases resolves' with
      | last mem' => cases (List.cons.inj isNames).2
      | @step _ entry' name' rest' _ mem' isDirectory' resolves' =>
          obtain ⟨sameName, sameRest⟩ := List.cons.inj isNames
          have same := tree.distinct dir isDir entry mem entry' mem' sameName
          rw [← sameRest, ← same] at resolves'
          exact inductionHypothesis (tree.isDir_of_entry isDir mem isDirectory) resolves'

theorem Tree.resolves_unique (tree : Tree disk inodeTableLba) (resolves : Resolves disk inodeTableLba names target)
    {other : Target} (resolves' : Resolves disk inodeTableLba names other) : target = other := by
  rcases resolves with ⟨isNil, isRoot⟩ | resolves
  · rcases resolves' with ⟨_, isRoot'⟩ | resolves'
    · rw [isRoot, isRoot']
    · rw [isNil] at resolves'
      cases resolves'
  · rcases resolves' with ⟨isNil, _⟩ | resolves'
    · rw [isNil] at resolves
      cases resolves
    · exact resolves.unique tree.root resolves'

/-- No name leads on from a file. -/
theorem ResolvesFrom.not_behind {tree : Tree disk inodeTableLba}
    (resolves : ResolvesFrom disk inodeTableLba dir names target) (isRegular : target.fType = .regular)
    (isDir : tree.isDir dir) {post : List (List UInt8)} (ne : post ≠ []) {other : Target} :
    ¬ ResolvesFrom disk inodeTableLba dir (names ++ post) other := by
  intro resolves'
  induction resolves with
  | @last dir entry mem =>
      generalize isNames : [entry.name] ++ post = names at resolves'
      cases resolves' with
      | last _ => exact ne (List.cons.inj isNames).2
      | @step _ entry' _ _ _ mem' isDirectory' _ =>
          have same := tree.distinct dir isDir entry mem entry' mem' (List.cons.inj isNames).1
          dsimp only at isRegular
          rw [same, isDirectory'] at isRegular
          cases isRegular
  | @step dir entry name rest target mem isDirectory _ inductionHypothesis =>
      generalize isNames : entry.name :: name :: rest ++ post = names at resolves'
      cases resolves' with
      | last _ => cases (List.cons.inj isNames).2
      | @step _ entry' name' rest' _ mem' _ resolves' =>
          obtain ⟨sameName, sameRest⟩ := List.cons.inj isNames
          have same := tree.distinct dir isDir entry mem entry' mem' sameName
          rw [← sameRest, ← same] at resolves'
          exact inductionHypothesis isRegular (tree.isDir_of_entry isDir mem isDirectory) resolves'

/-! ### The way down to what is reached -/

theorem Descends.follow {tree : Tree disk inodeTableLba} (descends : Descends disk inodeTableLba names dir)
    (leadsBack : tree.LeadsBack) (mem : entry ∈ dirAt disk inodeTableLba dir)
    (isDirectory : entry.fType = .directory) : ∃ names, Descends disk inodeTableLba names entry.iNo := by
  have isDir : tree.isDir dir := descends.isDir
  by_cases isDot : entry.name = [dot]
  · rw [(tree.entry_dot isDir mem isDot).1]
    exact ⟨names, descends⟩
  · by_cases isDotDot : entry.name = [dot, dot]
    · rw [(tree.entry_dotDot isDir mem isDotDot).1]
      exact ⟨names.dropLast, descends.dropLast leadsBack⟩
    · exact ⟨names ++ [entry.name], .step descends mem isDirectory ⟨isDot, isDotDot⟩⟩

theorem ResolvesFrom.descends {tree : Tree disk inodeTableLba}
    (resolves : ResolvesFrom disk inodeTableLba dir names target) (leadsBack : tree.LeadsBack)
    {above : List (List UInt8)} (descends : Descends disk inodeTableLba above dir) :
    ∃ names, Descends disk inodeTableLba names target.dir := by
  induction resolves generalizing above with
  | last _ => exact ⟨above, descends⟩
  | step mem isDirectory _ inductionHypothesis =>
      obtain ⟨_, next⟩ := descends.follow leadsBack mem isDirectory
      exact inductionHypothesis next

theorem ReachesDir.descends {tree : Tree disk inodeTableLba} (reaches : ReachesDir disk inodeTableLba n)
    (leadsBack : tree.LeadsBack) : ∃ names, Descends disk inodeTableLba names n := by
  obtain ⟨names, above, isRoot | resolves⟩ := reaches
  · have isZero : n = 0 := congrArg Target.iNo isRoot.2
    rw [isZero]
    exact ⟨[], .root⟩
  · obtain ⟨_, descends⟩ := resolves.descends leadsBack .root
    obtain ⟨_, entry, mem, _, isNo, isType⟩ := resolves.reaches reachesDir_root
    dsimp only at descends mem isNo isType
    rw [← isNo]
    exact descends.follow leadsBack mem isType

/-! ### Paths that avoid an inode -/

/-- The components lead to the target, and none of them is an entry of this inode. -/
inductive AvoidsFrom (disk : Disk) (inodeTableLba avoided : Nat) : Nat → List (List UInt8) → Target → Prop where
  | last {dir : Nat} {entry : DirEntry} (mem : entry ∈ dirAt disk inodeTableLba dir) (ne : entry.iNo ≠ avoided) :
      AvoidsFrom disk inodeTableLba avoided dir [entry.name] ⟨dir, entry.iNo, entry.fType⟩
  | step {dir : Nat} {entry : DirEntry} {name : List UInt8} {rest : List (List UInt8)} {target : Target}
      (mem : entry ∈ dirAt disk inodeTableLba dir) (ne : entry.iNo ≠ avoided)
      (isDir : entry.fType = .directory)
      (avoids : AvoidsFrom disk inodeTableLba avoided entry.iNo (name :: rest) target) :
      AvoidsFrom disk inodeTableLba avoided dir (entry.name :: name :: rest) target

/-- The components lead from the root to the target, and not through this inode. -/
def Avoids (disk : Disk) (inodeTableLba avoided : Nat) (names : List (List UInt8)) (target : Target) : Prop :=
  (names = [] ∧ target = ⟨0, 0, .directory⟩) ∨ AvoidsFrom disk inodeTableLba avoided 0 names target

variable {avoided : Nat}

theorem AvoidsFrom.resolves (avoids : AvoidsFrom disk inodeTableLba avoided dir names target) :
    ResolvesFrom disk inodeTableLba dir names target := by
  induction avoids with
  | last mem _ => exact .last mem
  | step mem _ isDir _ inductionHypothesis => exact .step mem isDir inductionHypothesis

theorem Avoids.resolves (avoids : Avoids disk inodeTableLba avoided names target) :
    Resolves disk inodeTableLba names target :=
  avoids.imp_right AvoidsFrom.resolves

theorem AvoidsFrom.concat (avoids : AvoidsFrom disk inodeTableLba avoided dir names target)
    (isDirectory : target.fType = .directory) (mem : entry ∈ dirAt disk inodeTableLba target.iNo)
    (ne : entry.iNo ≠ avoided) :
    AvoidsFrom disk inodeTableLba avoided dir (names ++ [entry.name]) ⟨target.iNo, entry.iNo, entry.fType⟩ := by
  induction avoids with
  | last step notIt => exact .step step notIt isDirectory (.last mem ne)
  | step step notIt isDir _ inductionHypothesis => exact .step step notIt isDir (inductionHypothesis isDirectory mem)

theorem Avoids.concat {above : Nat} (avoids : Avoids disk inodeTableLba avoided names ⟨above, dir, .directory⟩)
    (mem : entry ∈ dirAt disk inodeTableLba dir) (ne : entry.iNo ≠ avoided) :
    AvoidsFrom disk inodeTableLba avoided 0 (names ++ [entry.name]) ⟨dir, entry.iNo, entry.fType⟩ := by
  rcases avoids with ⟨isNil, isRoot⟩ | avoids
  · have isZero : dir = 0 := congrArg Target.iNo isRoot
    rw [isZero] at mem
    rw [isNil, isZero]
    exact .last mem ne
  · exact avoids.concat rfl mem ne

/-- The way down does not go through a directory without proper entries. -/
theorem Descends.avoids (descends : Descends disk inodeTableLba names n)
    (isEmpty : ∀ entry ∈ dirAt disk inodeTableLba avoided, ¬ IsProper entry.name) (ne : n ≠ avoided) :
    ∃ above, Avoids disk inodeTableLba avoided names ⟨above, n, .directory⟩ := by
  induction descends with
  | root => exact ⟨0, .inl ⟨rfl, rfl⟩⟩
  | @step names dir entry _ mem isDirectory proper inductionHypothesis =>
      have notIt : dir ≠ avoided := by
        intro same
        rw [same] at mem
        exact isEmpty entry mem proper
      obtain ⟨above, avoids⟩ := inductionHypothesis notIt
      have next := avoids.concat mem ne
      rw [isDirectory] at next
      exact ⟨dir, .inr next⟩

/-- A path that does not end at a file does not come to it. -/
theorem ResolvesFrom.avoids {tree : Tree disk inodeTableLba}
    (resolves : ResolvesFrom disk inodeTableLba dir names target) (isDir : tree.isDir dir)
    (noDir : ¬ tree.isDir avoided) (ne : target.iNo ≠ avoided) :
    AvoidsFrom disk inodeTableLba avoided dir names target := by
  induction resolves with
  | last mem => exact .last mem ne
  | @step dir entry name rest target mem isDirectory _ inductionHypothesis =>
      have isDir' := tree.isDir_of_entry isDir mem isDirectory
      refine .step mem (fun same => ?_) isDirectory (inductionHypothesis isDir' ne)
      rw [same] at isDir'
      exact noDir isDir'

theorem Resolves.avoids {tree : Tree disk inodeTableLba} (resolves : Resolves disk inodeTableLba names target)
    (noDir : ¬ tree.isDir avoided) (ne : target.iNo ≠ avoided) :
    Avoids disk inodeTableLba avoided names target :=
  resolves.imp_right fun resolves => resolves.avoids tree.root noDir ne

/-! ### Directories that lose entries -/

/-- Where no directory gains an entry, no path leads to anything new. -/
theorem ResolvesFrom.of_subset (resolves : ResolvesFrom disk' inodeTableLba dir names target)
    (subset : ∀ dir, ReachesDir disk inodeTableLba dir → ∀ entry ∈ dirAt disk' inodeTableLba dir,
      entry ∈ dirAt disk inodeTableLba dir)
    (reaches : ReachesDir disk inodeTableLba dir) : ResolvesFrom disk inodeTableLba dir names target := by
  induction resolves with
  | last mem => exact .last (subset _ reaches _ mem)
  | @step dir entry name rest target mem isDirectory _ inductionHypothesis =>
      have old := subset _ reaches _ mem
      exact .step old isDirectory (inductionHypothesis (reaches.step old isDirectory))

theorem Resolves.of_subset (resolves : Resolves disk' inodeTableLba names target)
    (subset : ∀ dir, ReachesDir disk inodeTableLba dir → ∀ entry ∈ dirAt disk' inodeTableLba dir,
      entry ∈ dirAt disk inodeTableLba dir) : Resolves disk inodeTableLba names target :=
  resolves.imp_right fun resolves => resolves.of_subset subset reachesDir_root

/-- Where no entry is lost but those of one inode, the paths that avoid it are kept. -/
theorem AvoidsFrom.kept (avoids : AvoidsFrom disk inodeTableLba avoided dir names target)
    (kept : ∀ dir, ReachesDir disk inodeTableLba dir → dir ≠ avoided →
      ∀ entry ∈ dirAt disk inodeTableLba dir, entry.iNo ≠ avoided → entry ∈ dirAt disk' inodeTableLba dir)
    (reaches : ReachesDir disk inodeTableLba dir) (notIt : dir ≠ avoided) :
    ResolvesFrom disk' inodeTableLba dir names target := by
  induction avoids with
  | last mem ne => exact .last (kept _ reaches notIt _ mem ne)
  | @step dir entry name rest target mem ne isDirectory _ inductionHypothesis =>
      exact .step (kept _ reaches notIt _ mem ne) isDirectory
        (inductionHypothesis (reaches.step mem isDirectory) ne)

theorem Avoids.kept (avoids : Avoids disk inodeTableLba avoided names target)
    (kept : ∀ dir, ReachesDir disk inodeTableLba dir → dir ≠ avoided →
      ∀ entry ∈ dirAt disk inodeTableLba dir, entry.iNo ≠ avoided → entry ∈ dirAt disk' inodeTableLba dir)
    (notRoot : avoided ≠ 0) : Resolves disk' inodeTableLba names target :=
  avoids.imp_right fun avoids => avoids.kept kept reachesDir_root notRoot.symm

/-! ### Trees on a volume -/

/-- A tree of directories and files. The blocks of a directory or a file are its own,
and a directory has no blocks but those with entries. -/
structure VolumeTree (part : Volume) extends Tree part.disk part.inodeTableLba where
  isFile : Nat → Prop
  layout : part.Layout
  leadsBack : toTree.LeadsBack
  directory : ∀ n, isDir n → IsDirectory part (part.record n)
  filled : ∀ n, isDir n → ∀ lba ∈ dirBlocks part.disk (part.record n), liveAt (ideRead part.disk lba 1) ≠ []
  table : ∀ n, isDir n → sectorOf (part.record n) 12 ≠ 0 → ∃ lba ∈ tableBlocks part.disk (part.record n), lba ≠ 0
  file : ∀ dir, isDir dir → ∀ entry ∈ dirAt part.disk part.inodeTableLba dir, entry.fType = .regular →
    isFile entry.iNo
  inTable : ∀ n, isFile n → n < 4096
  fileNo : ∀ n, isFile n → (part.record n).iNo.toNat = n
  noDir : ∀ n, isFile n → ¬ isDir n
  inUse : ∀ n, isFile n → ∀ lba ∈ ownBlocks part.disk (part.record n), part.InUse lba
  apart : ∀ n other, isDir n ∨ isFile n → isDir other ∨ isFile other → n ≠ other →
    ∀ lba ∈ ownBlocks part.disk (part.record n), lba ∉ ownBlocks part.disk (part.record other)

/-- A directory or a file. -/
def VolumeTree.IsObject (tree : VolumeTree part) (n : Nat) : Prop := tree.isDir n ∨ tree.isFile n

variable (tree : VolumeTree part)

theorem VolumeTree.dir_lt (isDir : tree.isDir n) : n < 4096 := by
  obtain ⟨inode, isRead, _⟩ := tree.inode n isDir
  by_contra tooLarge
  rw [inodeRead, inodeLocate, if_neg tooLarge] at isRead
  cases isRead

theorem VolumeTree.object_lt (isObject : tree.IsObject n) : n < 4096 :=
  isObject.elim (fun isDir => tree.dir_lt isDir) fun isFile => tree.inTable n isFile

/-- The record of a directory or a file has its number. -/
theorem VolumeTree.record_iNo (isObject : tree.IsObject n) : (part.record n).iNo.toNat = n := by
  rcases isObject with isDir | isFile
  · obtain ⟨inode, isRead, isNo⟩ := tree.inode n isDir
    obtain ⟨other, isOther, sameNo, _⟩ := @inodeRead_eq part n (tree.dir_lt isDir)
    cases isRead.symm.trans isOther
    rw [← sameNo, isNo]
  · exact tree.fileNo n isFile

theorem VolumeTree.object_inUse (isObject : tree.IsObject n) {lba : Nat}
    (mem : lba ∈ ownBlocks part.disk (part.record n)) : part.InUse lba := by
  rcases isObject with isDir | isFile
  · exact (tree.directory n isDir).inUse lba mem
  · exact tree.inUse n isFile lba mem

theorem VolumeTree.object_of_entry (isDir : tree.isDir dir)
    (mem : entry ∈ dirAt part.disk part.inodeTableLba dir) : tree.IsObject entry.iNo := by
  rcases tree.entry dir isDir entry mem with ⟨_, isDir'⟩ | isRegular
  · exact .inl isDir'
  · exact .inr (tree.file dir isDir entry mem isRegular)

/-- What a path leads to is in the tree. -/
theorem VolumeTree.object_of_resolves (resolves : ResolvesFrom part.disk part.inodeTableLba dir names target)
    (isDir : tree.isDir dir) : tree.isDir target.dir ∧ tree.IsObject target.iNo := by
  induction resolves with
  | last mem => exact ⟨isDir, tree.object_of_entry isDir mem⟩
  | step mem isDirectory _ inductionHypothesis =>
      exact inductionHypothesis (tree.isDir_of_entry isDir mem isDirectory)

theorem VolumeTree.dir_of_reaches (reaches : ReachesDir part.disk part.inodeTableLba n) : tree.isDir n := by
  obtain ⟨names, above, isRoot | resolves⟩ := reaches
  · have isZero : n = 0 := congrArg Target.iNo isRoot.2
    rw [isZero]
    exact tree.root
  · obtain ⟨reaches, entry, mem, _, isNo, isType⟩ := resolves.reaches reachesDir_root
    have isDir := (tree.object_of_resolves resolves tree.root).1
    dsimp only at isNo isType
    rw [← isNo]
    exact tree.isDir_of_entry isDir mem isType

theorem isProper_iff : entry.isProper = true ↔ IsProper entry.name := by
  unfold DirEntry.isProper IsProper
  rw [decide_eq_true_iff]

/-- A directory that is reached, but for the root, has a proper entry in another. -/
theorem VolumeTree.entry_of_reaches (reaches : ReachesDir part.disk part.inodeTableLba n) (notRoot : n ≠ 0) :
    ∃ dir, ReachesDir part.disk part.inodeTableLba dir ∧ ∃ entry ∈ dirAt part.disk part.inodeTableLba dir,
      entry.isProper = true ∧ entry.iNo = n ∧ entry.fType = .directory ∧ tree.parent n = dir := by
  obtain ⟨names, descends⟩ := reaches.descends tree.leadsBack
  cases descends with
  | root => exact absurd rfl notRoot
  | @step names dir entry descends mem isDirectory proper =>
      obtain ⟨above, resolves⟩ := descends.resolves
      have isDir : tree.isDir dir := descends.isDir
      exact ⟨dir, ⟨names, above, resolves⟩, entry, mem, isProper_iff.mpr proper, rfl, isDirectory,
        tree.leadsBack dir isDir entry mem isDirectory proper⟩

/-- A file has no entry of the dots. -/
theorem VolumeTree.isProper_of_regular (isDir : tree.isDir dir)
    (mem : entry ∈ dirAt part.disk part.inodeTableLba dir) (isRegular : entry.fType = .regular) :
    entry.isProper = true := by
  unfold DirEntry.isProper
  rw [decide_eq_true_iff]
  constructor
  · intro isDot
    have isDirectory := (tree.entry_dot isDir mem isDot).2
    rw [isRegular] at isDirectory
    cases isDirectory
  · intro isDotDot
    have isDirectory := (tree.entry_dotDot isDir mem isDotDot).2
    rw [isRegular] at isDirectory
    cases isDirectory

/-- The entries of a file are proper. -/
theorem VolumeTree.isProper_of_file (isDir : tree.isDir dir)
    (mem : entry ∈ dirAt part.disk part.inodeTableLba dir) (isFile : tree.isFile entry.iNo) :
    entry.isProper = true := by
  rcases tree.entry dir isDir entry mem with ⟨_, isDir'⟩ | isRegular
  · exact absurd isDir' (tree.noDir _ isFile)
  · exact tree.isProper_of_regular isDir mem isRegular

theorem VolumeTree.mem_dirAt (isDir : tree.isDir dir) :
    entry ∈ dirAt part.disk part.inodeTableLba dir ↔
      entry ∈ liveEntries part.disk (part.record dir) ∧ entry.name ≠ [] :=
  mem_dirAt_iff (tree.dir_lt isDir) (tree.directory dir isDir).cleared

/-- A directory of two entries has no proper one. -/
theorem VolumeTree.isEmpty_of_size (isDir : tree.isDir n) (size : (part.record n).iSize.toNat = dirEntrySize * 2) :
    ∀ entry ∈ liveEntries part.disk (part.record n), entry.isProper = false := by
  have directory := tree.directory n isDir
  have isTwo : (liveEntries part.disk (part.record n)).length = 2 := by
    have isSize := directory.size
    simp only [dirEntrySize] at size isSize
    omega
  obtain ⟨first, second, isPair⟩ := List.length_eq_two.mp isTwo
  obtain ⟨self, selfMem, isDot, _⟩ := tree.self n isDir
  obtain ⟨up, upMem, isDotDot, _⟩ := tree.up n isDir
  have ne : self ≠ up := by
    intro same
    rw [same, isDotDot] at isDot
    cases isDot
  have isSelf := ((tree.mem_dirAt isDir).mp selfMem).1
  have isUp := ((tree.mem_dirAt isDir).mp upMem).1
  rw [isPair] at isSelf isUp ⊢
  intro entry mem
  simp only [List.mem_cons, List.not_mem_nil, or_false] at isSelf isUp mem
  have isDots : entry = self ∨ entry = up := by grind
  rcases isDots with isSelf | isUp
  · simp [DirEntry.isProper, isSelf, isDot]
  · simp [DirEntry.isProper, isUp, isDotDot]

/-! ### A file and a directory in the root -/

/-- The inodes are in sector 3; the entries of the root are in sector 611, the data of its
file `f` in 612, and the entries of its directory `d` in 613. -/
def smallDisk : Disk := fun lba off =>
  if lba = 3 then
    if off = 4 then 96 else if off = 16 then 0x63 else if off = 17 then 2
    else if off = 76 then 1 else if off = 80 then 10 else if off = 92 then 0x64 else if off = 93 then 2
    else if off = 152 then 2 else if off = 156 then 48 else if off = 168 then 0x65 else if off = 169 then 2
    else 0
  else if lba = 611 then
    if off = 0 ∨ off = 24 ∨ off = 25 then dot else if off = 48 then 102 else if off = 72 then 100
    else if off = 64 ∨ off = 68 then 1 else if off = 20 ∨ off = 44 ∨ off = 88 ∨ off = 92 then 2 else 0
  else if lba = 613 then
    if off = 0 ∨ off = 24 ∨ off = 25 then dot else if off = 16 ∨ off = 20 ∨ off = 44 then 2 else 0
  else 0

def smallVolume : Volume :=
  { blankVolume with
    disk := smallDisk
    blockBitmap := ⟨512, fun i => if i = 0 then 7#8 else 0⟩
    inodeBitmap := ⟨512, fun i => if i = 0 then 7#8 else 0⟩ }

theorem smallVolume_layout : smallVolume.Layout where
  bitmapBelow := blankVolume_wellFormed.bitmapBelow
  tableBelow := blankVolume_wellFormed.tableBelow
  dataFits := blankVolume_wellFormed.dataFits
  blockBitmapBelow bit inside := by
    have inside : bit < 8 * 512 := inside
    show 1 + bit / 4096 < 3
    omega
  inodeBitmapBelow := by decide

theorem smallVolume_rootEntries :
    dirAt smallVolume.disk smallVolume.inodeTableLba 0 =
      [⟨[dot, 0, 0, 0, 0, 0, 0, 0, 0, 0, 0, 0, 0, 0, 0, 0], 0, .directory⟩,
        ⟨[dot, dot, 0, 0, 0, 0, 0, 0, 0, 0, 0, 0, 0, 0, 0, 0], 0, .directory⟩,
        ⟨[102, 0, 0, 0, 0, 0, 0, 0, 0, 0, 0, 0, 0, 0, 0, 0], 1, .regular⟩,
        ⟨[100, 0, 0, 0, 0, 0, 0, 0, 0, 0, 0, 0, 0, 0, 0, 0], 2, .directory⟩] := by
  decide +kernel

theorem smallVolume_childEntries :
    dirAt smallVolume.disk smallVolume.inodeTableLba 2 =
      [⟨[dot, 0, 0, 0, 0, 0, 0, 0, 0, 0, 0, 0, 0, 0, 0, 0], 2, .directory⟩,
        ⟨[dot, dot, 0, 0, 0, 0, 0, 0, 0, 0, 0, 0, 0, 0, 0, 0], 0, .directory⟩] := by
  decide +kernel

theorem smallVolume_blocks : ∀ n < 3, ownBlocks smallVolume.disk (smallVolume.record n) = [611 + n] := by
  decide +kernel

theorem smallVolume_inUse : ∀ n < 3, smallVolume.InUse (611 + n) := by
  intro n small
  refine ⟨Nat.le_add_right 611 n, ?_, ?_⟩
  · show 611 + n - 611 < 8 * 512
    omega
  · have bits : ∀ n < 3, bitmapScanTest smallVolume.blockBitmap (611 + n - 611) = true := by decide +kernel
    exact bits n small

/-- The root and `d`. -/
def isSmallDir (n : Nat) : Prop := n = 0 ∨ n = 2

theorem isSmallDir.lt {n : Nat} (isDir : isSmallDir n) : n < 3 := by
  unfold isSmallDir at isDir
  omega

/-- What is read off the disk for the two directories. -/
theorem smallVolume_read : ∀ n ∈ [0, 2],
    let inode := smallVolume.record n
    let first := liveAt (ideRead smallVolume.disk (sectorOf inode 0) 1)
    (∀ lba ∈ dirBlocks smallVolume.disk inode, ∀ idx < dirEntrysPerSec,
      fTypeAt (ideRead smallVolume.disk lba 1) idx = 0 →
        (dirEntryAt (ideRead smallVolume.disk lba 1) idx).name = []) ∧
    ((liveEntries smallVolume.disk inode).map DirEntry.name).Nodup ∧
    (((liveEntries smallVolume.disk inode).filter DirEntry.isProper).map DirEntry.iNo).Nodup ∧
    inode.iSize.toNat = dirEntrySize * (liveEntries smallVolume.disk inode).length ∧
    sectorOf inode 0 ≠ 0 ∧ (∃ entry ∈ first, entry.name = [dot]) ∧
    (∃ entry ∈ first, entry.name = [dot, dot]) ∧
    (∀ lba ∈ dirBlocks smallVolume.disk inode, lba ≠ sectorOf inode 0 →
      ∀ entry ∈ liveAt (ideRead smallVolume.disk lba 1), entry.isProper = true) ∧
    (∀ lba ∈ dirBlocks smallVolume.disk inode, liveAt (ideRead smallVolume.disk lba 1) ≠ []) ∧
    (sectorOf inode 12 ≠ 0 → ∃ lba ∈ tableBlocks smallVolume.disk inode, lba ≠ 0) := by
  decide +kernel

theorem isSmallDir.mem {n : Nat} (isDir : isSmallDir n) : n ∈ [0, 2] := by
  unfold isSmallDir at isDir
  simp [isDir]

theorem smallVolume_directory : ∀ n, isSmallDir n → IsDirectory smallVolume (smallVolume.record n) := by
  intro n isDir
  have own := smallVolume_blocks n isDir.lt
  have inUse : ∀ lba ∈ ownBlocks smallVolume.disk (smallVolume.record n), smallVolume.InUse lba := by
    rw [own]
    intro lba mem
    rw [List.mem_singleton.mp mem]
    exact smallVolume_inUse n isDir.lt
  obtain ⟨cleared, names, numbers, size, first, self, up, dotsFirst, _⟩ := smallVolume_read n isDir.mem
  exact ⟨by rw [own]; exact List.nodup_singleton _, inUse, cleared, names, numbers, size, first, self, up,
    dotsFirst⟩

theorem smallVolume_inode : ∀ n, isSmallDir n →
    ∃ inode, inodeRead smallVolume.disk smallVolume.inodeTableLba n = some inode ∧ inode.iNo = n := by
  intro n isDir
  obtain ⟨inode, isRead, isNo, _⟩ := @inodeRead_eq smallVolume n (by have small := isDir.lt; omega)
  have numbers : ∀ n < 3, (smallVolume.record n).iNo.toNat = n := by decide +kernel
  exact ⟨inode, isRead, isNo.trans (numbers n isDir.lt)⟩

theorem smallVolume_entry : ∀ n, isSmallDir n → ∀ entry ∈ dirAt smallVolume.disk smallVolume.inodeTableLba n,
    (entry.fType = .directory ∧ isSmallDir entry.iNo) ∨ entry.fType = .regular := by
  unfold isSmallDir
  rintro _ (rfl | rfl)
  · rw [smallVolume_rootEntries]
    decide
  · rw [smallVolume_childEntries]
    decide

theorem smallVolume_distinct : ∀ n, isSmallDir n → ∀ entry ∈ dirAt smallVolume.disk smallVolume.inodeTableLba n,
    ∀ entry' ∈ dirAt smallVolume.disk smallVolume.inodeTableLba n, entry.name = entry'.name → entry = entry' := by
  rintro _ (rfl | rfl)
  · rw [smallVolume_rootEntries]
    decide
  · rw [smallVolume_childEntries]
    decide

theorem smallVolume_self : ∀ n, isSmallDir n → ∃ entry ∈ dirAt smallVolume.disk smallVolume.inodeTableLba n,
    entry.name = [dot] ∧ entry.iNo = n ∧ entry.fType = .directory := by
  rintro _ (rfl | rfl)
  · rw [smallVolume_rootEntries]
    decide
  · rw [smallVolume_childEntries]
    decide

theorem smallVolume_up : ∀ n, isSmallDir n → ∃ entry ∈ dirAt smallVolume.disk smallVolume.inodeTableLba n,
    entry.name = [dot, dot] ∧ entry.iNo = 0 ∧ entry.fType = .directory := by
  rintro _ (rfl | rfl)
  · rw [smallVolume_rootEntries]
    decide
  · rw [smallVolume_childEntries]
    decide

theorem smallVolume_root : isSmallDir 0 := .inl rfl

theorem smallVolume_parentRoot : (fun _ : Nat => 0) 0 = 0 := rfl

def smallRoot : Tree smallVolume.disk smallVolume.inodeTableLba where
  isDir := isSmallDir
  parent _ := 0
  root := smallVolume_root
  parentRoot := smallVolume_parentRoot
  inode := smallVolume_inode
  entry := smallVolume_entry
  distinct := smallVolume_distinct
  self := smallVolume_self
  up := smallVolume_up

theorem smallRoot_leadsBack : smallRoot.LeadsBack := by
  unfold Tree.LeadsBack IsProper
  rintro _ (rfl | rfl)
  · rw [smallVolume_rootEntries]
    decide
  · rw [smallVolume_childEntries]
    decide

theorem smallVolume_filled : ∀ n, isSmallDir n → ∀ lba ∈ dirBlocks smallVolume.disk (smallVolume.record n),
    liveAt (ideRead smallVolume.disk lba 1) ≠ [] := by
  intro n isDir
  obtain ⟨_, _, _, _, _, _, _, _, filled, _⟩ := smallVolume_read n isDir.mem
  exact filled

theorem smallVolume_table : ∀ n, isSmallDir n → sectorOf (smallVolume.record n) 12 ≠ 0 →
    ∃ lba ∈ tableBlocks smallVolume.disk (smallVolume.record n), lba ≠ 0 := by
  intro n isDir
  obtain ⟨_, _, _, _, _, _, _, _, _, table⟩ := smallVolume_read n isDir.mem
  exact table

theorem smallVolume_file : ∀ n, isSmallDir n → ∀ entry ∈ dirAt smallVolume.disk smallVolume.inodeTableLba n,
    entry.fType = .regular → entry.iNo = 1 := by
  rintro _ (rfl | rfl)
  · rw [smallVolume_rootEntries]
    decide
  · rw [smallVolume_childEntries]
    decide

theorem smallVolume_apart : ∀ n other, isSmallDir n ∨ n = 1 → isSmallDir other ∨ other = 1 → n ≠ other →
    ∀ lba ∈ ownBlocks smallVolume.disk (smallVolume.record n),
      lba ∉ ownBlocks smallVolume.disk (smallVolume.record other) := by
  intro n other isObject isOther ne
  have lt : ∀ {n}, isSmallDir n ∨ n = 1 → n < 3 := by
    rintro n (isDir | isFile)
    · exact isDir.lt
    · omega
  rw [smallVolume_blocks n (lt isObject), smallVolume_blocks other (lt isOther)]
  intro lba mem mem'
  have same := List.mem_singleton.mp mem
  have same' := List.mem_singleton.mp mem'
  omega

theorem smallVolume_fileBlocks : ∀ n, n = 1 → ∀ lba ∈ ownBlocks smallVolume.disk (smallVolume.record n),
    smallVolume.InUse lba := by
  rintro _ rfl
  rw [smallVolume_blocks 1 (by decide)]
  intro lba mem
  rw [List.mem_singleton.mp mem]
  exact smallVolume_inUse 1 (by decide)

def smallTree : VolumeTree smallVolume where
  toTree := smallRoot
  isFile n := n = 1
  layout := smallVolume_layout
  leadsBack := smallRoot_leadsBack
  directory := smallVolume_directory
  filled := smallVolume_filled
  table := smallVolume_table
  file := smallVolume_file
  inTable n isFile := by omega
  fileNo n isFile := by
    rw [isFile]
    decide +kernel
  noDir n isFile isDir := by
    rw [isFile] at isDir
    rcases isDir with isZero | isTwo
    · cases isZero
    · cases isTwo
  inUse := smallVolume_fileBlocks
  apart := smallVolume_apart

end ZyOs.Fs
