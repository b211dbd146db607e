import ZyOs.Fs.CanonicalPath

/-!
Contract: `wash_path`, with which the shell removes `.` and `..` from a path.

Owns: that `search_file` finds the same for the path and for the washed path,
when the path resolves: the shell edits a string, and the kernel follows the
entries `.` and `..` on the disk.

A C string is the list of its bytes before the terminating zero. A result of
`none` is a failed `assert`.
-/

namespace ZyOs.Shell

open ZyOs.Fs ZyOs.Lib

/-! ### `wash_path` -/

/-- One pass of the loop of `wash_path`. -/
def washStep (newAbsPath name : List UInt8) : List UInt8 :=
  if name = [dot, dot] then
    -- the string is cut where `strrchr` points, or after that slash at the top;
    -- a slash is always there
    match strrchr newAbsPath slash with
    | none => newAbsPath
    | some slashPtr =>
        if slashPtr ≠ 0 then newAbsPath.take slashPtr else newAbsPath.take (slashPtr + 1)
  else if name ≠ [dot] then
    (if newAbsPath ≠ [slash] then newAbsPath ++ [slash] else newAbsPath) ++ name
  else
    newAbsPath

/-- The loop of `wash_path`, over `fuel` names at most. -/
def washLoop : Nat → (name : List UInt8) → (subPath : Option (List UInt8)) →
    (newAbsPath : List UInt8) → Option (List UInt8)
  | 0, _, _, _ => none
  | fuel + 1, name, subPath, newAbsPath =>
      if name = [] then some newAbsPath
      else
        let (next, rest) := pathParseRest subPath
        washLoop fuel next rest (washStep newAbsPath name)

/-- `wash_path`. -/
def washPath (oldAbsPath : List UInt8) : Option (List UInt8) :=
  if oldAbsPath.head? = some slash then
    let (name, subPath) := pathParse oldAbsPath
    if name = [] then some [slash]
    else washLoop (oldAbsPath.length + 1) name subPath [slash]
  else
    none

/-! ### The names that are left -/

/-- What a name does to the names of the directory that is reached. -/
def washName (names : List (List UInt8)) (name : List UInt8) : List (List UInt8) :=
  if name = [dot, dot] then names.dropLast else if name = [dot] then names else names ++ [name]

def wash (names : List (List UInt8)) (rest : List (List UInt8)) : List (List UInt8) :=
  rest.foldl washName names

variable {names rest : List (List UInt8)} {name : List UInt8}

theorem mem_washName {other : List UInt8} (mem : other ∈ washName names name) :
    other ∈ names ∨ other = name := by
  unfold washName at mem
  split at mem
  · exact .inl ((List.dropLast_sublist names).mem mem)
  · split at mem
    · exact .inl mem
    · rcases List.mem_append.mp mem with mem | mem
      · exact .inl mem
      · exact .inr (List.mem_singleton.mp mem)

/-- What is left are names that were there. -/
theorem mem_wash {other : List UInt8} (mem : other ∈ wash names rest) :
    other ∈ names ∨ other ∈ rest := by
  induction rest generalizing names with
  | nil => exact .inl mem
  | cons name rest inductionHypothesis =>
      rcases inductionHypothesis mem with mem | mem
      · exact (mem_washName mem).imp_right fun isName => List.mem_cons.mpr (.inl isName)
      · exact .inr (List.mem_cons_of_mem _ mem)

theorem length_pathOf_dropLast (names : List (List UInt8)) :
    (pathOf names.dropLast).length ≤ (pathOf names).length := by
  rcases List.eq_nil_or_concat names with rfl | ⟨init, last, rfl⟩
  · exact Nat.le_refl _
  · rw [List.concat_eq_append, List.dropLast_concat, pathOf_concat, List.length_append]
    omega

theorem length_pathOf_washName (names : List (List UInt8)) (name : List UInt8) :
    (pathOf (washName names name)).length ≤ (pathOf names).length + (name.length + 1) := by
  have shorter := length_pathOf_dropLast names
  unfold washName
  split
  · omega
  · split
    · omega
    · rw [pathOf_concat, List.length_append, List.length_cons]

theorem length_pathOf_wash (names rest : List (List UInt8)) :
    (pathOf (wash names rest)).length ≤ (pathOf names).length + (pathOf rest).length := by
  induction rest generalizing names with
  | nil => exact Nat.le_refl _
  | cons name rest inductionHypothesis =>
      have after := inductionHypothesis (washName names name)
      have step := length_pathOf_washName names name
      have split : (pathOf (name :: rest)).length = name.length + 1 + (pathOf rest).length := by
        simp only [pathOf, List.flatMap_cons, List.length_append, List.length_cons]
      rw [split]
      exact after.trans (by omega)

/-! ### The string and the names -/

theorem canonicalPath_eq_slash_iff (isNames : ∀ name ∈ names, IsName name) :
    canonicalPath names = [slash] ↔ names = [] := by
  constructor
  · intro isSlash
    rw [← components_canonicalPath isNames, isSlash]
    rfl
  · rintro rfl
    rfl

/-- The cut at the last slash takes the last name off. -/
theorem washStep_dotDot (isNames : ∀ name ∈ names, IsName name) :
    washStep (canonicalPath names) [dot, dot] = canonicalPath names.dropLast := by
  unfold washStep
  rw [if_pos rfl]
  rcases List.eq_nil_or_concat names with rfl | ⟨init, last, rfl⟩
  · rfl
  · have isLast := isNames last (by simp)
    rw [List.concat_eq_append, List.dropLast_concat, canonicalPath_concat,
      strrchr_append isLast.notMem]
    dsimp only
    cases init with
    | nil => rfl
    | cons first init =>
        rw [if_pos (by simp [pathOf]), List.take_left, canonicalPath, if_neg (List.cons_ne_nil _ _)]

theorem washStep_eq (isNames : ∀ name ∈ names, IsName name) :
    washStep (canonicalPath names) name = canonicalPath (washName names name) := by
  by_cases isDotDot : name = [dot, dot]
  · rw [isDotDot, washStep_dotDot isNames, washName, if_pos rfl]
  · rw [washStep, if_neg isDotDot, washName, if_neg isDotDot]
    by_cases isDot : name = [dot]
    · rw [if_neg (not_not.mpr isDot), if_pos isDot]
    · rw [if_pos isDot, if_neg isDot, canonicalPath_concat]
      by_cases isNil : names = []
      · rw [isNil]
        rfl
      · rw [if_pos (fun isSlash => isNil ((canonicalPath_eq_slash_iff isNames).mp isSlash)),
          canonicalPath, if_neg isNil, List.append_assoc, List.singleton_append]

theorem washLoop_eq {fuel : Nat} {subPath : Option (List UInt8)}
    (isNames : ∀ name ∈ names, IsName name)
    (isLeft : ∀ other ∈ namesLeft name subPath, IsName other)
    (enough : (namesLeft name subPath).length < fuel) :
    washLoop fuel name subPath (canonicalPath names) =
      some (canonicalPath (wash names (namesLeft name subPath))) := by
  induction fuel generalizing names name subPath with
  | zero => exact absurd enough (Nat.not_lt_zero _)
  | succ fuel inductionHypothesis =>
      unfold washLoop
      by_cases isNil : name = []
      · rw [if_pos isNil, namesLeft, if_pos isNil]
        rfl
      · rw [namesLeft_rest subPath isNil] at isLeft enough ⊢
        rw [if_neg isNil, washStep_eq isNames]
        apply inductionHypothesis
        · intro other mem
          rcases mem_washName mem with mem | rfl
          · exact isNames other mem
          · exact isLeft other List.mem_cons_self
        · exact fun other mem => isLeft other (List.mem_cons_of_mem _ mem)
        · exact Nat.lt_of_succ_lt_succ enough

/-- The washed path is the canonical path of the names that are left. -/
theorem washPath_eq {pathname : List UInt8} (absolute : pathname.head? = some slash) :
    washPath pathname = some (canonicalPath (wash [] (components slash pathname))) := by
  have count : (components slash pathname).length < pathname.length + 1 :=
    Nat.lt_succ_of_le (length_components_le pathname)
  have isNames : ∀ name ∈ components slash pathname, IsName name := fun _ => isName_of_mem
  rw [← pathParse_names] at count isNames ⊢
  rw [washPath, if_pos absolute]
  dsimp only
  split
  · rename_i isNil
    rw [namesLeft, if_pos isNil]
    rfl
  · exact washLoop_eq (fun _ mem => absurd mem List.not_mem_nil) isNames count

/-- `wash_path` writes no longer path than it reads. -/
theorem isPath_wash {pathname : List UInt8} (isPath : IsPath pathname) :
    IsPath (canonicalPath (wash [] (components slash pathname))) := by
  have mem : ∀ name ∈ wash [] (components slash pathname), name ∈ components slash pathname :=
    fun name mem => (mem_wash mem).resolve_left List.not_mem_nil
  have isNames : ∀ name ∈ wash [] (components slash pathname), IsName name :=
    fun name isIn => isName_of_mem (mem name isIn)
  refine ⟨canonicalPath_absolute _, ?_, ?_, ?_⟩
  · have shorter := (length_pathOf_wash [] (components slash pathname)).trans
      (Nat.add_le_add_left (length_pathOf_components isPath.absolute) _)
    have short := isPath.short
    simp only [pathOf, List.flatMap_nil, List.length_nil, Nat.zero_add] at shorter
    unfold canonicalPath
    split
    · decide
    · exact Nat.lt_of_le_of_lt shorter short
  · apply zero_notMem_canonicalPath
    intro name isIn isZero
    exact isPath.noZero (subset_of_mem_components (mem name isIn) isZero)
  · rw [components_canonicalPath isNames]
    exact fun name isIn => isPath.names name (mem name isIn)

/-! ### The names and the tree -/

variable {disk : Disk} {inodeTableLba : Nat} {tree : Tree disk inodeTableLba} {dir : Nat}

/-- A step into a directory on the disk is a step of the names. -/
theorem descends_washName (leadsBack : tree.LeadsBack)
    (descends : Descends disk inodeTableLba names dir) {entry : DirEntry}
    (mem : entry ∈ dirAt disk inodeTableLba dir) (isDirectory : entry.fType = .directory) :
    Descends disk inodeTableLba (washName names entry.name) entry.iNo := by
  have isDir : tree.isDir dir := descends.isDir
  unfold washName
  split
  · rename_i isDotDot
    rw [(tree.entry_dotDot isDir mem isDotDot).1]
    exact descends.dropLast leadsBack
  · rename_i notDotDot
    split
    · rename_i isDot
      rw [(tree.entry_dot isDir mem isDot).1]
      exact descends
    · rename_i notDot
      exact .step descends mem isDirectory ⟨notDot, notDotDot⟩

/-- The names that are left lead to what the components lead to. -/
theorem resolves_wash (leadsBack : tree.LeadsBack) {target : Target}
    (resolves : ResolvesFrom disk inodeTableLba dir rest target)
    (descends : Descends disk inodeTableLba names dir) :
    ∃ above, Resolves disk inodeTableLba (wash names rest) ⟨above, target.iNo, target.fType⟩ := by
  induction resolves generalizing names with
  | @last dir entry mem =>
      have isDir : tree.isDir dir := descends.isDir
      rcases tree.entry dir isDir entry mem with ⟨isDirectory, _⟩ | isRegular
      · obtain ⟨above, resolves⟩ := (descends_washName leadsBack descends mem isDirectory).resolves
        rw [isDirectory]
        exact ⟨above, resolves⟩
      · -- a file has a proper name, which is the last that is left
        have notDirectory : entry.fType ≠ .directory := by simp [isRegular]
        have notDotDot : entry.name ≠ [dot, dot] := fun isDotDot =>
          notDirectory (tree.entry_dotDot isDir mem isDotDot).2
        have notDot : entry.name ≠ [dot] := fun isDot =>
          notDirectory (tree.entry_dot isDir mem isDot).2
        have isLast : wash names [entry.name] = names ++ [entry.name] := by
          rw [wash, List.foldl_cons, List.foldl_nil, washName, if_neg notDotDot, if_neg notDot]
        rw [isLast]
        exact ⟨dir, .inr (descends.resolvesFrom (.last mem))⟩
  | step mem isDirectory _ inductionHypothesis =>
      exact inductionHypothesis (descends_washName leadsBack descends mem isDirectory)

/-- For a path that resolves, `search_file` returns the same number and the same
type on the path and on what `wash_path` makes of it. -/
theorem wash_path_same_file (leadsBack : tree.LeadsBack) {pathname : List UInt8}
    (isPath : IsPath pathname) {target : Target}
    (resolves : ResolvesFrom disk inodeTableLba 0 (components slash pathname) target) :
    ∃ washed, washPath pathname = some washed ∧
      ∀ part part' : Partition, Mirrors tree part → Mirrors tree part' → ∀ dirE dirE' : DirEntry,
        ∃ raw clean, searchFile part dirE pathname = some raw ∧
          searchFile part' dirE' washed = some clean ∧
          raw.2.ret = clean.2.ret ∧ raw.2.fileType = clean.2.fileType := by
  refine ⟨_, washPath_eq isPath.absolute, fun part part' mirrors mirrors' dirE dirE' => ?_⟩
  have isNames : ∀ name ∈ wash [] (components slash pathname), IsName name := fun name mem =>
    isName_of_mem ((mem_wash mem).resolve_left List.not_mem_nil)
  have notNil : components slash pathname ≠ [] := by
    intro isNil
    rw [isNil] at resolves
    cases resolves
  obtain ⟨above, washed⟩ := resolves_wash leadsBack resolves .root
  rw [← components_canonicalPath isNames] at washed
  obtain ⟨_, raw, isRaw, rawRet, rawType⟩ := Resolves.searchFile isPath
    (fun isNil => absurd isNil notNil) (.inr resolves) mirrors dirE
  obtain ⟨_, clean, isClean, cleanRet, cleanType⟩ := Resolves.searchFile (isPath_wash isPath)
    (fun isNil => by
      rw [components_canonicalPath isNames] at isNil
      rw [isNil]
      rfl) washed mirrors' dirE'
  exact ⟨_, _, isRaw, isClean, rawRet.trans cleanRet.symm, rawType.trans cleanType.symm⟩

/-- The path `/../a/..//./a`. -/
def climbingPath : List UInt8 :=
  [slash, dot, dot, slash, 97, slash, dot, dot, slash, slash, dot, slash, 97]

theorem climbingPath_resolves :
    ∃ target, ResolvesFrom nestedDisk 1 0 (components slash climbingPath) target := by
  have found : walk nestedDisk 1 0 0 (components slash climbingPath) [] 0 =
      ⟨1, climbingPath.eraseIdx 9, 0, .directory⟩ := by
    decide +kernel
  have isNames : ∀ name ∈ components slash climbingPath, IsName name := fun _ => isName_of_mem
  apply resolves_of_walk (by decide) isNames nestedTree.root
  · rw [found]
    decide
  · rw [found]
    exact .inl rfl

/-- It is washed to `/a`: one task searches for the path with no directory open, another for what
is left of it with the root open. -/
theorem wash_path_same_file_climbing :
    washPath climbingPath = some [slash, 97] ∧
      ∃ part part' : Partition, Mirrors nestedTree part ∧ Mirrors nestedTree part' ∧
        part'.openInodes = [part.rootInode] ∧
        ∃ raw clean, searchFile part ⟨[], 0, .unknown⟩ climbingPath = some raw ∧
          searchFile part' ⟨[], 7, .regular⟩ [slash, 97] = some clean ∧
          raw.2.ret = clean.2.ret ∧ raw.2.fileType = clean.2.fileType := by
  have isPath : IsPath climbingPath := ⟨rfl, by decide, by decide, by decide⟩
  have isWashed : washPath climbingPath = some [slash, 97] := by decide
  obtain ⟨target, resolves⟩ := climbingPath_resolves
  obtain ⟨part, mirrors⟩ := exists_mirrors nestedTree
  have mirrors' : Mirrors nestedTree { part with openInodes := [part.rootInode] } :=
    { mirrors with
      openInodes := fun inode mem _ => by
        obtain rfl := List.mem_singleton.mp mem
        rw [mirrors.rootNo]
        exact mirrors.rootInode }
  obtain ⟨washed, isSome, same⟩ := wash_path_same_file nestedTree_leadsBack isPath resolves
  obtain rfl := Option.some.inj (isWashed.symm.trans isSome)
  exact ⟨isWashed, part, _, mirrors, mirrors', rfl, same part _ mirrors mirrors' _ _⟩

end ZyOs.Shell
