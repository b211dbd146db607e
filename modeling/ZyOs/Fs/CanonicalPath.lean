import ZyOs.Fs.PathResolution

/-!
Contract: the canonical path of a directory: the names that lead down to it from
the root, without `.` and `..`.

Owns:
- `strrchr`, with which the kernel and the shell cut a path at its last slash;
- `Descends`, and that `..` is the step back on it;
- what `search_file` returns for a path that resolves.
-/

namespace ZyOs.Fs

open ZyOs.Lib

/-! ### Strings -/

/-- The loop of `strrchr`; `lastChar` is the index that it has for now. -/
def strrchrLoop (ch : UInt8) : (str : List UInt8) → (idx : Nat) → (lastChar : Option Nat) → Option Nat
  | [], _, lastChar => lastChar
  | char :: str, idx, lastChar =>
      strrchrLoop ch str (idx + 1) (if char = ch then some idx else lastChar)

/-- `strrchr`, as an index into the string. -/
def strrchr (str : List UInt8) (ch : UInt8) : Option Nat := strrchrLoop ch str 0 none

theorem strrchrLoop_of_notMem {ch : UInt8} {str : List UInt8} (notMem : ch ∉ str) (idx : Nat)
    (lastChar : Option Nat) : strrchrLoop ch str idx lastChar = lastChar := by
  induction str generalizing idx with
  | nil => rfl
  | cons char str inductionHypothesis =>
      rw [List.mem_cons, not_or] at notMem
      rw [strrchrLoop, if_neg (Ne.symm notMem.1)]
      exact inductionHypothesis notMem.2 (idx + 1)

theorem strrchrLoop_append {ch : UInt8} {after : List UInt8} (notMem : ch ∉ after)
    (before : List UInt8) (idx : Nat) (lastChar : Option Nat) :
    strrchrLoop ch (before ++ ch :: after) idx lastChar = some (idx + before.length) := by
  induction before generalizing idx lastChar with
  | nil =>
      rw [List.nil_append, strrchrLoop, if_pos rfl]
      exact strrchrLoop_of_notMem notMem (idx + 1) (some idx)
  | cons char before inductionHypothesis =>
      rw [List.cons_append, strrchrLoop, inductionHypothesis, List.length_cons]
      congr 1
      omega

theorem strrchr_append {ch : UInt8} {after : List UInt8} (notMem : ch ∉ after)
    (before : List UInt8) : strrchr (before ++ ch :: after) ch = some before.length := by
  rw [strrchr, strrchrLoop_append notMem, Nat.zero_add]

/-! ### Paths and their names -/

theorem pathOf_concat (names : List (List UInt8)) (name : List UInt8) :
    pathOf (names ++ [name]) = pathOf names ++ slash :: name := by
  simp [pathOf]

/-- The path of the directory that these names lead to. -/
def canonicalPath (names : List (List UInt8)) : List UInt8 :=
  if names = [] then [slash] else pathOf names

theorem canonicalPath_concat (names : List (List UInt8)) (name : List UInt8) :
    canonicalPath (names ++ [name]) = pathOf names ++ slash :: name := by
  rw [canonicalPath, if_neg (by simp), pathOf_concat]

theorem canonicalPath_absolute (names : List (List UInt8)) :
    (canonicalPath names).head? = some slash := by
  cases names with
  | nil => rfl
  | cons name rest => rfl

theorem components_canonicalPath {names : List (List UInt8)} (isNames : ∀ name ∈ names, IsName name) :
    components slash (canonicalPath names) = names := by
  unfold canonicalPath
  split
  · rename_i isNil
    rw [isNil]
    rfl
  · exact components_pathOf isNames

theorem zero_notMem_canonicalPath {names : List (List UInt8)}
    (noZero : ∀ name ∈ names, (0 : UInt8) ∉ name) :
    (0 : UInt8) ∉ canonicalPath names := by
  intro isZero
  unfold canonicalPath at isZero
  split at isZero
  · exact absurd isZero (by decide)
  · obtain ⟨name, mem, isChar⟩ := List.mem_flatMap.mp isZero
    rcases List.mem_cons.mp isChar with isSlash | isChar
    · exact absurd isSlash (by decide)
    · exact noZero name mem isChar

/-- The components with a slash before each are no longer than the path. -/
theorem length_pathOf_components {pathname : List UInt8} (absolute : pathname.head? = some slash) :
    (pathOf (components slash pathname)).length ≤ pathname.length := by
  induction length : pathname.length using Nat.strong_induction_on generalizing pathname with
  | _ n inductionHypothesis =>
      subst length
      have shorter := pathParse_length absolute
      rw [← pathParse_names]
      unfold namesLeft
      split
      · exact Nat.zero_le _
      · cases isRest : (pathParse pathname).2 with
        | none =>
            rw [isRest] at shorter
            simp only [Option.getD_none, components_nil, pathOf, List.flatMap_cons, List.flatMap_nil,
              List.length_append, List.length_cons, List.length_nil] at shorter ⊢
            omega
        | some rest =>
            rw [isRest] at shorter
            rw [Option.getD_some] at shorter ⊢
            have restShorter := inductionHypothesis rest.length (by omega) (pathParse_rest isRest) rfl
            simp only [pathOf, List.flatMap_cons, List.length_append, List.length_cons] at restShorter ⊢
            omega

/-! ### The way down -/

/-- A name other than `.` and `..`. -/
def IsProper (name : List UInt8) : Prop := name ≠ [dot] ∧ name ≠ [dot, dot]

/-- The names lead down from the root to a directory. -/
inductive Descends (disk : Disk) (inodeTableLba : Nat) : List (List UInt8) → Nat → Prop where
  | root : Descends disk inodeTableLba [] 0
  | step {names : List (List UInt8)} {dir : Nat} {entry : DirEntry}
      (descends : Descends disk inodeTableLba names dir)
      (mem : entry ∈ dirAt disk inodeTableLba dir) (isDirectory : entry.fType = .directory)
      (proper : IsProper entry.name) :
      Descends disk inodeTableLba (names ++ [entry.name]) entry.iNo

variable {disk : Disk} {inodeTableLba : Nat}

/-- The parent of a directory is the one that has its entry. -/
def Tree.LeadsBack (tree : Tree disk inodeTableLba) : Prop :=
  ∀ dir, tree.isDir dir → ∀ entry ∈ dirAt disk inodeTableLba dir, entry.fType = .directory →
    IsProper entry.name → tree.parent entry.iNo = dir

variable {tree : Tree disk inodeTableLba} {names : List (List UInt8)} {dir : Nat}

theorem Tree.isDir_of_entry (tree : Tree disk inodeTableLba) (isDir : tree.isDir dir)
    {entry : DirEntry} (mem : entry ∈ dirAt disk inodeTableLba dir)
    (isDirectory : entry.fType = .directory) : tree.isDir entry.iNo := by
  rcases tree.entry dir isDir entry mem with ⟨_, isDir'⟩ | isRegular
  · exact isDir'
  · rw [isDirectory] at isRegular
    cases isRegular

/-- The entry `.` of a directory is its own. -/
theorem Tree.entry_dot (tree : Tree disk inodeTableLba) (isDir : tree.isDir dir) {entry : DirEntry}
    (mem : entry ∈ dirAt disk inodeTableLba dir) (isDot : entry.name = [dot]) :
    entry.iNo = dir ∧ entry.fType = .directory := by
  obtain ⟨self, selfMem, selfName, selfNo, selfType⟩ := tree.self dir isDir
  rw [tree.distinct dir isDir entry mem self selfMem (isDot.trans selfName.symm)]
  exact ⟨selfNo, selfType⟩

/-- The entry `..` of a directory is that of its parent. -/
theorem Tree.entry_dotDot (tree : Tree disk inodeTableLba) (isDir : tree.isDir dir)
    {entry : DirEntry} (mem : entry ∈ dirAt disk inodeTableLba dir)
    (isDotDot : entry.name = [dot, dot]) :
    entry.iNo = tree.parent dir ∧ entry.fType = .directory := by
  obtain ⟨up, upMem, upName, upNo, upType⟩ := tree.up dir isDir
  rw [tree.distinct dir isDir entry mem up upMem (isDotDot.trans upName.symm)]
  exact ⟨upNo, upType⟩

theorem Descends.isDir (descends : Descends disk inodeTableLba names dir) : tree.isDir dir := by
  induction descends with
  | root => exact tree.root
  | step _ mem isDirectory _ inductionHypothesis =>
      exact tree.isDir_of_entry inductionHypothesis mem isDirectory

/-- `..` leads one step back; the root is its own parent. -/
theorem Descends.dropLast (descends : Descends disk inodeTableLba names dir)
    (leadsBack : tree.LeadsBack) :
    Descends disk inodeTableLba names.dropLast (tree.parent dir) := by
  cases descends with
  | root =>
      rw [tree.parentRoot]
      exact .root
  | step descends mem isDirectory proper =>
      rw [List.dropLast_concat, leadsBack _ descends.isDir _ mem isDirectory proper]
      exact descends

/-- What resolves from a directory resolves from the root below its names. -/
theorem Descends.resolvesFrom (descends : Descends disk inodeTableLba names dir)
    {rest : List (List UInt8)} {target : Target}
    (resolves : ResolvesFrom disk inodeTableLba dir rest target) :
    ResolvesFrom disk inodeTableLba 0 (names ++ rest) target := by
  induction descends generalizing rest with
  | root => exact resolves
  | @step names dir entry _ mem isDirectory _ inductionHypothesis =>
      rw [List.append_assoc, List.singleton_append]
      apply inductionHypothesis
      cases rest with
      | nil => cases resolves
      | cons name rest => exact .step mem isDirectory resolves

/-- The names of a directory resolve to it. -/
theorem Descends.resolves (descends : Descends disk inodeTableLba names dir) :
    ∃ above, Resolves disk inodeTableLba names ⟨above, dir, .directory⟩ := by
  cases descends with
  | root => exact ⟨0, .inl ⟨rfl, rfl⟩⟩
  | @step names above entry descends mem isDirectory =>
      have last := descends.resolvesFrom (.last mem)
      rw [isDirectory] at last
      exact ⟨above, .inr last⟩

/-! ### What is returned -/

/-- `search_file` returns the number and the type that the components lead to. -/
theorem Resolves.searchFile {pathname : List UInt8} (isPath : IsPath pathname)
    (single : components slash pathname = [] → pathname = [slash]) {target : Target}
    (resolves : Resolves disk inodeTableLba (components slash pathname) target) {part : Partition}
    (mirrors : Mirrors tree part) (dirE : DirEntry) :
    ∃ part' result, Fs.searchFile part dirE pathname = some (part', result) ∧
      result.ret = target.iNo ∧ result.fileType = target.fType := by
  have searches : SearchesPath tree pathname := by
    by_cases isRoot : IsRootPath pathname
    · exact searchesPath_root isRoot tree
    · exact searchesPath_names isPath isRoot (fun isNil => isRoot (.inl (single isNil))) tree
  obtain ⟨found, answers, _, isTarget⟩ := searches
  obtain ⟨sameRet, sameType, _⟩ := isTarget target resolves
  obtain ⟨⟨part', result⟩, isResult, isFound⟩ := Option.map_eq_some_iff.mp (answers part dirE mirrors)
  refine ⟨part', result, isResult, ?_, ?_⟩
  · rw [← sameRet, ← isFound]
    rfl
  · rw [← sameType, ← isFound]
    rfl

/-! ### A directory in the root -/

/-- The inodes are in sector 1; the entries of the root are in sector 9, and those
of its directory `a` in sector 10. -/
def nestedDisk : Disk := fun lba off =>
  if lba = 1 then
    if off = 16 then 9 else if off = 76 then 1 else if off = 92 then 10 else 0
  else if lba = 9 then
    if off = 0 ∨ off = 24 ∨ off = 25 then dot else if off = 48 then 97
    else if off = 64 then 1 else if off = 20 ∨ off = 44 ∨ off = 68 then 2 else 0
  else if lba = 10 then
    if off = 0 ∨ off = 24 ∨ off = 25 then dot else if off = 16 then 1
    else if off = 20 ∨ off = 44 then 2 else 0
  else 0

theorem nestedDisk_root :
    inodeRead nestedDisk 1 0 = some ⟨0, 1, [9, 0, 0, 0, 0, 0, 0, 0, 0, 0, 0, 0, 0]⟩ := by
  decide +kernel

theorem nestedDisk_child :
    inodeRead nestedDisk 1 1 = some ⟨1, 1, [10, 0, 0, 0, 0, 0, 0, 0, 0, 0, 0, 0, 0]⟩ := by
  decide +kernel

theorem nestedDisk_rootEntries :
    dirAt nestedDisk 1 0 =
      [⟨[dot, 0, 0, 0, 0, 0, 0, 0, 0, 0, 0, 0, 0, 0, 0, 0], 0, .directory⟩,
        ⟨[dot, dot, 0, 0, 0, 0, 0, 0, 0, 0, 0, 0, 0, 0, 0, 0], 0, .directory⟩,
        ⟨[97, 0, 0, 0, 0, 0, 0, 0, 0, 0, 0, 0, 0, 0, 0, 0], 1, .directory⟩] := by
  decide +kernel

theorem nestedDisk_childEntries :
    dirAt nestedDisk 1 1 =
      [⟨[dot, 0, 0, 0, 0, 0, 0, 0, 0, 0, 0, 0, 0, 0, 0, 0], 1, .directory⟩,
        ⟨[dot, dot, 0, 0, 0, 0, 0, 0, 0, 0, 0, 0, 0, 0, 0, 0], 0, .directory⟩] := by
  decide +kernel

theorem nestedDisk_inode : ∀ iNo, iNo = 0 ∨ iNo = 1 →
    ∃ inode, inodeRead nestedDisk 1 iNo = some inode ∧ inode.iNo = iNo := by
  rintro _ (rfl | rfl)
  · exact ⟨_, nestedDisk_root, rfl⟩
  · exact ⟨_, nestedDisk_child, rfl⟩

theorem nestedDisk_entry : ∀ iNo, iNo = 0 ∨ iNo = 1 → ∀ entry ∈ dirAt nestedDisk 1 iNo,
    (entry.fType = .directory ∧ (entry.iNo = 0 ∨ entry.iNo = 1)) ∨ entry.fType = .regular := by
  rintro _ (rfl | rfl)
  · rw [nestedDisk_rootEntries]
    decide
  · rw [nestedDisk_childEntries]
    decide

theorem nestedDisk_distinct : ∀ iNo, iNo = 0 ∨ iNo = 1 → ∀ entry ∈ dirAt nestedDisk 1 iNo,
    ∀ entry' ∈ dirAt nestedDisk 1 iNo, entry.name = entry'.name → entry = entry' := by
  rintro _ (rfl | rfl)
  · rw [nestedDisk_rootEntries]
    decide
  · rw [nestedDisk_childEntries]
    decide

theorem nestedDisk_self : ∀ iNo, iNo = 0 ∨ iNo = 1 → ∃ entry ∈ dirAt nestedDisk 1 iNo,
    entry.name = [dot] ∧ entry.iNo = iNo ∧ entry.fType = .directory := by
  rintro _ (rfl | rfl)
  · rw [nestedDisk_rootEntries]
    decide
  · rw [nestedDisk_childEntries]
    decide

theorem nestedDisk_up : ∀ iNo, iNo = 0 ∨ iNo = 1 → ∃ entry ∈ dirAt nestedDisk 1 iNo,
    entry.name = [dot, dot] ∧ entry.iNo = 0 ∧ entry.fType = .directory := by
  rintro _ (rfl | rfl)
  · rw [nestedDisk_rootEntries]
    decide
  · rw [nestedDisk_childEntries]
    decide

theorem nestedDisk_isRoot : (0 : Nat) = 0 ∨ (0 : Nat) = 1 := .inl rfl

theorem nestedDisk_parentRoot : (fun _ : Nat => 0) 0 = 0 := rfl

def nestedTree : Tree nestedDisk 1 where
  isDir iNo := iNo = 0 ∨ iNo = 1
  parent _ := 0
  root := nestedDisk_isRoot
  parentRoot := nestedDisk_parentRoot
  inode := nestedDisk_inode
  entry := nestedDisk_entry
  distinct := nestedDisk_distinct
  self := nestedDisk_self
  up := nestedDisk_up

theorem nestedTree_leadsBack : nestedTree.LeadsBack := by
  unfold Tree.LeadsBack IsProper
  rintro _ (rfl | rfl)
  · rw [nestedDisk_rootEntries]
    decide
  · rw [nestedDisk_childEntries]
    decide

end ZyOs.Fs
