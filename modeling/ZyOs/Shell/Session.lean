import ZyOs.Fs.Getcwd
import ZyOs.Shell.CmdParse
import ZyOs.Shell.WashPath

/-!
Contract: `cd` and `pwd` of the shell, any number of times one after the other.

Owns:
- `make_clear_abs_path`, `buildin_cd` and `buildin_pwd`;
- `Place`: where a shell is, as the list of the names that lead there, and what a call
  does to it and prints;
- that every session of the shell is a session on such a list.

Does not own: `cwd_cache`, `ls` and the calls that change the tree. A result of `none` is a
failed `assert`, or a write behind the end of `abs_path` or of a name.
-/

namespace ZyOs.Shell.Session

open ZyOs.Fs ZyOs.Lib

/-! ### The calls -/

/-- The process of the shell: the partition and its working directory, `final_path`, and
what it has printed. -/
structure State where
  part : Partition
  cwdInodeNr : Int
  finalPath : List UInt8
  out : List UInt8

def State.printf (s : State) (text : List UInt8) : State := { s with out := s.out ++ text }

/-- `getcwd(buf, MAX_PATH_LEN)`; a path has fewer names than `MAX_PATH_LEN`. -/
def getcwd (dataStartLba : Nat) (s : State) : Option (State × Option (List UInt8)) := do
  let (part, buf) ← sysGetcwd maxPathLen s.part dataStartLba s.cwdInodeNr maxPathLen
  return ({ s with part := part }, buf)

/-- What stands in `abs_path` in front of the argument. -/
def cwdPrefix (dataStartLba : Nat) (s : State) (path : List UInt8) : Option (State × List UInt8) :=
  if path.head? ≠ some slash then do
    let (s, buf) ← getcwd dataStartLba s
    match buf with
    | none => return (s, [])
    | some absPath => return (s, if absPath ≠ [slash] then absPath ++ [slash] else absPath)
  else
    some (s, [])

/-- `make_clear_abs_path`. -/
def makeClearAbsPath (dataStartLba : Nat) (s : State) (path : List UInt8) : Option State := do
  let (s, absPath) ← cwdPrefix dataStartLba s path
  guard ((absPath ++ path).length < maxPathLen)
  guard (∀ name ∈ components slash (absPath ++ path), name.length < maxFileNameLen)
  let finalPath ← washPath (absPath ++ path)
  return { s with finalPath := finalPath }

/-- `buildin_cd`, with the arguments behind `argv[0]`; whether it returns `final_path`. -/
def buildinCd (dataStartLba : Nat) (s : State) (dirE : DirEntry) (args : List (List UInt8)) :
    Option (State × Bool) :=
  match args with
  | _ :: _ :: _ => some (s.printf (bytesOf "cd: only support 1 argument!\n"), false)
  | [] => changeTo { s with finalPath := [slash] }
  | [path] => do changeTo (← makeClearAbsPath dataStartLba s path)
where
  changeTo (s : State) : Option (State × Bool) := do
    let (part, cwdInodeNr, ret) ← sysChdir s.part dirE s.cwdInodeNr s.finalPath
    let s := { s with part := part, cwdInodeNr := cwdInodeNr }
    if ret = -1 then
      return (s.printf (bytesOf "cd: no such directory " ++ s.finalPath ++ bytesOf "\n"), false)
    else
      return (s, true)

/-- A call, and what is in the uninitialised entry of `search_file`. -/
inductive Call where
  | cd (args : List (List UInt8)) (dirE : DirEntry)
  | pwd (args : List (List UInt8))

variable {disk : Disk} {inodeTableLba dataStartLba : Nat} {names rest : List (List UInt8)}

/-- Where a shell is, and what it has printed. -/
structure Place where
  names : List (List UInt8)
  out : List UInt8

/-- The path that is given to `wash_path`. -/
def absPath (names : List (List UInt8)) (path : List UInt8) : List UInt8 :=
  if path.head? = some slash then path else (if names = [] then [slash] else canonicalPath names ++ [slash]) ++ path

/-- The names behind an argument. -/
def goal (names : List (List UInt8)) (path : List UInt8) : List (List UInt8) :=
  wash (if path.head? = some slash then [] else names) (components slash path)

open Classical in
/-- `cd` goes where the names lead, if they do. -/
noncomputable def Place.goTo (disk : Disk) (inodeTableLba : Nat) (place : Place) (names : List (List UInt8)) : Place :=
  if ∃ dir, Descends disk inodeTableLba names dir then { place with names := names }
  else
    { place with out := place.out ++ (bytesOf "cd: no such directory " ++ canonicalPath names ++ bytesOf "\n") }

noncomputable def Place.call (disk : Disk) (inodeTableLba : Nat) (place : Place) : Call → Place
  | .cd [] _ => place.goTo disk inodeTableLba []
  | .cd [path] _ => place.goTo disk inodeTableLba (goal place.names path)
  | .cd (_ :: _ :: _) _ => { place with out := place.out ++ bytesOf "cd: only support 1 argument!\n" }
  | .pwd [] => { place with out := place.out ++ (canonicalPath place.names ++ bytesOf "\n") }
  | .pwd (_ :: _) => { place with out := place.out ++ bytesOf "pwd: no argument support!\n" }

/-- The argument fits into the buffers, behind the working directory. -/
def Fits (names : List (List UInt8)) : Call → Prop
  | .cd [path] _ =>
      (absPath names path).length < maxPathLen ∧ (0 : UInt8) ∉ path ∧
        ∀ name ∈ components slash path, name.length < maxFileNameLen
  | _ => True

/-- Proper names are kept. -/
theorem wash_proper (proper : ∀ name ∈ rest, IsProper name) : wash names rest = names ++ rest := by
  induction rest generalizing names with
  | nil => exact (List.append_nil names).symm
  | cons name rest inductionHypothesis =>
      obtain ⟨notDot, notDotDot⟩ := proper name List.mem_cons_self
      have kept : washName names name = names ++ [name] := by
        rw [washName, if_neg notDotDot, if_neg notDot]
      have others : wash (names ++ [name]) rest = names ++ [name] ++ rest :=
        inductionHypothesis fun other mem => proper other (List.mem_cons_of_mem _ mem)
      rw [wash, List.foldl_cons, kept]
      rw [wash, List.append_assoc, List.singleton_append] at others
      exact others

theorem components_absPath (isNames : ∀ name ∈ names, IsName name) (path : List UInt8) :
    components slash (absPath names path) =
      (if path.head? = some slash then [] else names) ++ components slash path := by
  unfold absPath
  split
  · rfl
  · split
    · rename_i isNil
      rw [isNil, List.singleton_append, components_sep_cons]
      rfl
    · rw [List.append_assoc, List.singleton_append, components_append_sep, components_canonicalPath isNames]

/-- The lexical way from the root is the way from the working directory. -/
theorem wash_absPath (isNames : ∀ name ∈ names, IsName name) (proper : ∀ name ∈ names, IsProper name)
    (path : List UInt8) : wash [] (components slash (absPath names path)) = goal names path := by
  rw [components_absPath isNames, goal, wash, List.foldl_append]
  congr 1
  split
  · rfl
  · exact (wash_proper proper).trans (List.nil_append names)

theorem absPath_absolute (names : List (List UInt8)) (path : List UInt8) :
    (absPath names path).head? = some slash := by
  unfold absPath
  split
  · assumption
  · split
    · rfl
    · rw [List.append_assoc, List.head?_append, canonicalPath_absolute]
      rfl

/-! ### `chdir` -/

variable {tree : Tree disk inodeTableLba} {part : Partition} {dir : Nat}

/-- Proper names that lead to a directory are a way down. -/
theorem descends_of_resolves {above : List (List UInt8)} {target : Target}
    (descends : Descends disk inodeTableLba above dir) (resolves : ResolvesFrom disk inodeTableLba dir names target)
    (proper : ∀ name ∈ names, IsProper name) (isDirectory : target.fType = .directory) :
    Descends disk inodeTableLba (above ++ names) target.iNo := by
  induction resolves generalizing above with
  | last mem => exact .step descends mem isDirectory (proper _ List.mem_cons_self)
  | @step dir entry name rest target mem isDir _ inductionHypothesis =>
      have below := Descends.step descends mem isDir (proper _ List.mem_cons_self)
      have further := inductionHypothesis below (fun other mem => proper other (List.mem_cons_of_mem _ mem)) isDirectory
      rwa [List.append_assoc, List.singleton_append] at further

/-- `sys_chdir` to a path that leads to no directory stays where it is. -/
theorem sysChdir_stays (isPath : IsPath (canonicalPath names)) (isNames : ∀ name ∈ names, IsName name)
    (proper : ∀ name ∈ names, IsProper name) (noDirectory : ¬ ∃ dir, Descends disk inodeTableLba names dir)
    (mirrors : Mirrors tree part) (dirE : DirEntry) (cwdInodeNr : Int) :
    ∃ part', sysChdir part dirE cwdInodeNr (canonicalPath names) = some (part', cwdInodeNr, -1) ∧
      Mirrors tree part' := by
  have isComponents := components_canonicalPath isNames
  have notNil : names ≠ [] := fun isNil => noDirectory ⟨0, isNil ▸ .root⟩
  have notRoot : ¬ IsRootPath (canonicalPath names) := by
    rintro (isRoot | isRoot | isRoot)
    · exact notNil ((canonicalPath_eq_slash_iff isNames).mp isRoot)
    · rw [isRoot] at isComponents
      exact (proper [dot] (isComponents ▸ List.mem_singleton_self _)).1 rfl
    · rw [isRoot] at isComponents
      exact (proper [dot, dot] (isComponents ▸ List.mem_singleton_self _)).2 rfl
  obtain ⟨found, answers, complete, isTarget⟩ := searchesPath_names isPath notRoot
    (isComponents.symm ▸ notNil) tree
  obtain ⟨⟨part', result⟩, isResult, isFound⟩ := Option.map_eq_some_iff.mp (answers part dirE mirrors)
  refine ⟨part'.dirClose result.parentDir, ?_, (searchFile_mirrors mirrors isResult).dirClose _⟩
  have notFound : ¬ (result.ret ≠ -1 ∧ result.fileType = .directory) := by
    rintro ⟨notFailed, isDirectory⟩
    rw [← isFound] at complete isTarget
    obtain ⟨target, resolves⟩ := complete.mpr ⟨notFailed, .inl isDirectory⟩
    obtain ⟨_, isType, _⟩ := isTarget target resolves
    rw [isComponents] at resolves
    rcases resolves with ⟨isNil, _⟩ | resolves
    · exact notNil isNil
    · exact noDirectory ⟨_, descends_of_resolves .root resolves proper (isType.symm.trans isDirectory)⟩
  unfold sysChdir
  rw [isResult]
  simp only [Option.bind_eq_bind, Option.bind_some]
  rw [if_neg notFound]
  rfl

/-! ### The calls and the place -/

/-- The process is at the place. -/
structure At (tree : Tree disk inodeTableLba) (s : State) (place : Place) : Prop where
  mirrors : Mirrors tree s.part
  descends : ∃ dir, s.cwdInodeNr = (dir : Nat) ∧ Descends disk inodeTableLba place.names dir
  short : (canonicalPath place.names).length < maxPathLen
  out : s.out = place.out

variable {s : State} {place : Place} {path : List UInt8}

theorem Descends.isProper (descends : Descends disk inodeTableLba names dir) : ∀ name ∈ names, IsProper name := by
  induction descends with
  | root => exact fun name mem => absurd mem List.not_mem_nil
  | step _ _ _ proper inductionHypothesis =>
      intro name mem
      rcases List.mem_append.mp mem with mem | isLast
      · exact inductionHypothesis name mem
      · exact List.mem_singleton.mp isLast ▸ proper

theorem length_le_canonicalPath (names : List (List UInt8)) : names.length ≤ (canonicalPath names).length := by
  have perName : names.length ≤ (pathOf names).length := by
    induction names with
    | nil => exact Nat.le_refl _
    | cons name rest inductionHypothesis =>
        have split : (pathOf (name :: rest)).length = name.length + 1 + (pathOf rest).length := by
          simp only [pathOf, List.flatMap_cons, List.length_append, List.length_cons]
        rw [split, List.length_cons]
        omega
  unfold canonicalPath
  split
  · rename_i isNil
    rw [isNil]
    exact Nat.zero_le _
  · exact perName

theorem At.printf (isAt : At tree s place) (text : List UInt8) :
    At tree (s.printf text) { place with out := place.out ++ text } :=
  ⟨isAt.mirrors, isAt.descends, isAt.short, congrArg (· ++ text) isAt.out⟩

/-- `getcwd` returns the path of the place. -/
theorem At.getcwd (rooted : tree.IsRooted dataStartLba) (isAt : At tree s place) :
    ∃ part, Session.getcwd dataStartLba s = some ({ s with part := part }, some (canonicalPath place.names)) ∧
      Mirrors tree part := by
  obtain ⟨dir, isCwd, descends⟩ := isAt.descends
  have few := Nat.lt_of_le_of_lt (length_le_canonicalPath place.names) isAt.short
  obtain ⟨part, isGot, mirrors⟩ := sysGetcwd_eq rooted descends isAt.short isAt.mirrors few
  refine ⟨part, ?_, mirrors⟩
  unfold Session.getcwd
  rw [isCwd, isGot]
  rfl

theorem At.cwdPrefix (rooted : tree.IsRooted dataStartLba) (isAt : At tree s place) (path : List UInt8) :
    ∃ part absPrefix, Session.cwdPrefix dataStartLba s path = some ({ s with part := part }, absPrefix) ∧
      Mirrors tree part ∧ absPrefix ++ path = absPath place.names path := by
  unfold Session.cwdPrefix absPath
  by_cases absolute : path.head? = some slash
  · rw [if_neg (not_not.mpr absolute), if_pos absolute]
    exact ⟨s.part, [], rfl, isAt.mirrors, rfl⟩
  · obtain ⟨part, isGot, mirrors⟩ := isAt.getcwd rooted
    obtain ⟨dir, _, descends⟩ := isAt.descends
    have isSlash := canonicalPath_eq_slash_iff fun name mem => (descends.isName rooted name mem).1
    rw [if_pos absolute, if_neg absolute, isGot]
    refine ⟨part, _, rfl, mirrors, ?_⟩
    congr 1
    by_cases isNil : place.names = []
    · rw [if_pos isNil, if_neg (not_not.mpr (isSlash.mpr isNil))]
      exact isSlash.mpr isNil
    · rw [if_neg isNil, if_pos fun isRoot => isNil (isSlash.mp isRoot)]

/-- `final_path` is the path of the goal. -/
theorem At.makeClearAbsPath (rooted : tree.IsRooted dataStartLba) (isAt : At tree s place) {dirE : DirEntry}
    (fits : Fits place.names (.cd [path] dirE)) :
    ∃ part, Session.makeClearAbsPath dataStartLba s path =
        some { s with part := part, finalPath := canonicalPath (goal place.names path) } ∧
      Mirrors tree part ∧ IsPath (canonicalPath (goal place.names path)) := by
  obtain ⟨short, noZero, shortNames⟩ := fits
  obtain ⟨dir, _, descends⟩ := isAt.descends
  have kept := descends.isName rooted
  have isNames : ∀ name ∈ place.names, IsName name := fun name mem => (kept name mem).1
  obtain ⟨part, absPrefix, isPrefix, mirrors, isWhole⟩ := isAt.cwdPrefix rooted path
  have absolute := absPath_absolute place.names path
  have allShort : ∀ name ∈ components slash (absPath place.names path), name.length < maxFileNameLen := by
    intro name mem
    rw [components_absPath isNames] at mem
    rcases List.mem_append.mp mem with mem | mem
    · split at mem
      · cases mem
      · exact (kept name mem).2.1
    · exact shortNames name mem
  have isPath : IsPath (absPath place.names path) := by
    refine ⟨absolute, short, ?_, allShort⟩
    have noZeroCwd := zero_notMem_canonicalPath fun name mem => (kept name mem).2.2
    unfold absPath
    split
    · exact noZero
    · split
      · simp [noZero, slash]
      · simp [noZero, noZeroCwd, slash]
  have isGoal := wash_absPath isNames (Descends.isProper descends) path
  have washed := isPath_wash isPath
  rw [isGoal] at washed
  refine ⟨part, ?_, mirrors, washed⟩
  unfold Session.makeClearAbsPath
  rw [isPrefix]
  have passes : (guard (∀ name ∈ components slash (absPath place.names path), name.length < maxFileNameLen) :
      Option Unit) = some () := if_pos allShort
  simp only [Option.bind_eq_bind, Option.bind_some, isWhole, short, guard_true, passes, washPath_eq absolute, isGoal]
  rfl

/-- The process goes where the names of `final_path` lead. -/
theorem At.changeTo (rooted : tree.IsRooted dataStartLba) (isAt : At tree s place) (dirE : DirEntry)
    (isFinal : s.finalPath = canonicalPath names) (isPath : IsPath (canonicalPath names))
    (isNames : ∀ name ∈ names, IsName name) (proper : ∀ name ∈ names, IsProper name) :
    ∃ result, buildinCd.changeTo dirE s = some result ∧
      At tree result.1 (place.goTo disk inodeTableLba names) := by
  unfold buildinCd.changeTo Place.goTo
  rw [isFinal]
  by_cases leads : ∃ dir, Descends disk inodeTableLba names dir
  · obtain ⟨dir, descends⟩ := leads
    obtain ⟨part, isChanged, mirrors⟩ := sysChdir_eq rooted descends isPath.short isAt.mirrors dirE s.cwdInodeNr
    rw [isChanged, if_pos ⟨dir, descends⟩]
    exact ⟨_, rfl, mirrors, ⟨dir, rfl, descends⟩, isPath.short, isAt.out⟩
  · obtain ⟨part, isChanged, mirrors⟩ := sysChdir_stays isPath isNames proper leads isAt.mirrors dirE s.cwdInodeNr
    rw [isChanged, if_neg leads]
    refine ⟨_, rfl, ?_⟩
    have stays : At tree { s with part := part } place := ⟨mirrors, isAt.descends, isAt.short, isAt.out⟩
    have printed := stays.printf (bytesOf "cd: no such directory " ++ canonicalPath names ++ bytesOf "\n")
    exact ⟨printed.mirrors, printed.descends, printed.short, by simpa [State.printf, isFinal] using printed.out⟩

end ZyOs.Shell.Session
