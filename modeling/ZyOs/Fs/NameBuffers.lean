import ZyOs.Fs.PathDepth
import ZyOs.Shell.WashPath

/-!
Contract: the `MAX_FILE_NAME_LEN` bytes in which `path_parse` stores a name, in the
calls that take a path from a user.

Owns:
- `path_depth_cnt`, `search_file` and `wash_path` over the bytes of their `name`;
- which of these each call comes to, and with which path.

A character stored behind the buffer ends the model, and so does a buffer that holds
no zero after `path_parse`. What `search_dir_entry` answers is a parameter, by the
inode number of the directory.

Does not own: what a call does once it has parsed its path.
-/

namespace ZyOs.Fs.Names

open Lib

/-! ### The buffer -/

/-- What a parse may run into: a character outside the buffer, a name without a zero,
a failed `ASSERT`. -/
inductive NameStop where
  | outside
  | unterminated
  | panic
deriving DecidableEq

/-- The characters are stored one after the other. -/
def storeName (nameStore : Buf) (name : List UInt8) : Buf := fun i => name.getD i (nameStore i)

/-- `path_parse` into a buffer of `MAX_FILE_NAME_LEN` bytes. -/
def parseInto (nameStore : Buf) (pathname : List UInt8) :
    Except NameStop (Buf × Option (List UInt8)) :=
  let parsed := pathParse pathname
  if parsed.1.length ≤ maxFileNameLen then
    if ∃ i < maxFileNameLen, storeName nameStore parsed.1 i = 0 then
      .ok (storeName nameStore parsed.1, parsed.2)
    else
      .error .unterminated
  else
    .error .outside

/-- `memset`, and `path_parse` of the rest if there is one. -/
def parseNext (name : Buf) : Option (List UInt8) → Except NameStop (Buf × Option (List UInt8))
  | none => .ok (memset name 0 0 maxFileNameLen, none)
  | some subPath => parseInto (memset name 0 0 maxFileNameLen) subPath

/-- The string in the buffer. -/
def cString (name : Buf) : List UInt8 := ((List.range maxFileNameLen).map name).takeWhile (· ≠ 0)

/-! ### The functions that parse -/

/-- The loop of `path_depth_cnt`, over `fuel` names at most. -/
def depthLoop : Nat → Buf → Option (List UInt8) → (depth : Nat) → Except NameStop Nat
  | 0, _, _, _ => .error .panic
  | fuel + 1, name, subPath, depth =>
      if name 0 = 0 then
        .ok depth
      else do
        let (name, subPath) ← parseNext name subPath
        depthLoop fuel name subPath (depth + 1)

/-- `path_depth_cnt`; `name` is not initialised. -/
def pathDepthCnt (name : Buf) (pathname : List UInt8) : Except NameStop Nat := do
  let (name, subPath) ← parseInto name pathname
  depthLoop (pathname.length + 2) name subPath 0

/-- The inode number that `search_file` returns unless it is -1, and the fields of its
`struct path_search_record` that its callers parse or test. -/
structure SearchedNames where
  inodeNo : Option Nat
  searchedPath : List UInt8
  fileType : FileTypes

/-- The answers of `search_dir_entry`: inode number and type. -/
abbrev Lookup := Nat → List UInt8 → Option (Nat × FileTypes)

/-- The loop of `search_file`, over `fuel` names at most; `dirE` is `dir_e.i_no`. -/
def searchLoop (lookup : Lookup) : Nat → (parentDir dirE : Nat) → Buf → Option (List UInt8) →
    (searchedPath : List UInt8) → Except NameStop SearchedNames
  | 0, _, _, _, _, _ => .error .panic
  | fuel + 1, parentDir, dirE, name, subPath, searchedPath =>
      if name 0 = 0 then
        .ok ⟨Calls.asInodeNo dirE, searchedPath, .directory⟩
      else if searchedPath.length < maxPathLen then
        let searchedPath := searchedPath ++ slash :: cString name
        match lookup parentDir (cString name) with
        | none => .ok ⟨none, searchedPath, .unknown⟩
        | some (iNo, fType) => do
            let (name, subPath) ← parseNext name subPath
            match fType with
            | .directory => searchLoop lookup fuel iNo iNo name subPath searchedPath
            | .regular => .ok ⟨Calls.asInodeNo iNo, searchedPath, .regular⟩
            | .unknown => searchLoop lookup fuel parentDir iNo name subPath searchedPath
      else
        .error .panic

/-- The paths that `search_file` answers without parsing. -/
def IsRootName (pathname : List UInt8) : Prop :=
  pathname = [slash] ∨ pathname = [slash, dot] ∨ pathname = [slash, dot, dot]

instance (pathname : List UInt8) : Decidable (IsRootName pathname) := by
  unfold IsRootName
  infer_instance

/-- `search_file`; `dir_e` is not initialised. -/
def searchFile (lookup : Lookup) (dirE : Nat) (pathname : List UInt8) : Except NameStop SearchedNames :=
  if IsRootName pathname then
    .ok ⟨some 0, [], .directory⟩
  else if pathname.head? = some slash ∧ 1 < pathname.length ∧ pathname.length < maxPathLen then do
    let (name, subPath) ← parseInto (fun _ => 0) pathname
    searchLoop lookup (pathname.length + 1) 0 dirE name subPath []
  else
    .error .panic

/-- The loop of `wash_path`, over `fuel` names at most. -/
def washLoop : Nat → Buf → Option (List UInt8) → (newAbsPath : List UInt8) →
    Except NameStop (List UInt8)
  | 0, _, _, _ => .error .panic
  | fuel + 1, name, subPath, newAbsPath =>
      if name 0 = 0 then
        .ok newAbsPath
      else do
        let newAbsPath := Shell.washStep newAbsPath (cString name)
        let (name, subPath) ← parseNext name subPath
        washLoop fuel name subPath newAbsPath

/-- `wash_path`. -/
def washPath (oldAbsPath : List UInt8) : Except NameStop (List UInt8) :=
  if oldAbsPath.head? = some slash then do
    let (name, subPath) ← parseInto (fun _ => 0) oldAbsPath
    washLoop (oldAbsPath.length + 1) name subPath [slash]
  else
    .error .panic

/-! ### The calls -/

/-- A C string. -/
structure CString where
  bytes : List UInt8
  noZero : (0 : UInt8) ∉ bytes

/-- Uninitialised variables: `name` in the two calls of `path_depth_cnt`, and `dir_e.i_no`
in `search_file`. -/
structure Stack where
  first : Buf
  second : Buf
  dirE : Nat

/-- A call with a path, and what else decides which names it parses: the flags, whether
the buffer is allocated, and what `getcwd` gives. -/
inductive PathCall where
  | sysOpen (flags : Nat)
  | sysMkdir (ioBuf : Bool)
  | sysUnlink
  | sysStat
  | makeClearAbsPath (cwd : Option CString)

/-- `abs_path` in `make_clear_abs_path`. -/
def absPath (cwd : Option CString) (path : CString) : List UInt8 :=
  if path.bytes.head? ≠ some slash then
    match cwd with
    | none => path.bytes
    | some dir => (if dir.bytes = [slash] then dir.bytes else dir.bytes ++ [slash]) ++ path.bytes
  else
    path.bytes

/-- The names a call parses. -/
def PathCall.run (lookup : Lookup) (stack : Stack) (path : CString) : PathCall → Except NameStop Unit
  | .sysOpen flags =>
      if path.bytes.getLast? = some slash then
        .ok ()
      else if flags ≤ 7 then do
        let _ ← pathDepthCnt stack.first path.bytes
        let record ← searchFile lookup stack.dirE path.bytes
        if record.fileType = .directory then
          return ()
        else do
          let _ ← pathDepthCnt stack.second record.searchedPath
          return ()
      else
        .error .panic
  | .sysMkdir ioBuf =>
      if ioBuf then do
        let record ← searchFile lookup stack.dirE path.bytes
        match record.inodeNo with
        | some _ => return ()
        | none => do
            let _ ← pathDepthCnt stack.first path.bytes
            let _ ← pathDepthCnt stack.second record.searchedPath
            return ()
      else
        .ok ()
  | .sysUnlink =>
      if path.bytes.length < maxPathLen then do
        let _ ← searchFile lookup stack.dirE path.bytes
        return ()
      else
        .error .panic
  | .sysStat =>
      if IsRootName path.bytes then
        .ok ()
      else do
        let _ ← searchFile lookup stack.dirE path.bytes
        return ()
  | .makeClearAbsPath cwd => do
      let _ ← washPath (absPath cwd path)
      return ()

/-! ### What a run comes to -/

/-- Under `good` the run gives this value, and else it leaves a buffer in disorder. -/
structure Outcome {α : Type} (good : Prop) (value : α) (result : Except NameStop α) : Prop where
  ok : good → result = .ok value
  stop : ¬ good → ∃ stop, result = .error stop ∧ stop ≠ .panic

namespace Outcome

variable {α β : Type} {good good' : Prop} {value : α} {value' : β} {result : Except NameStop α}

theorem pure (value : α) : Outcome True value (.ok value) :=
  ⟨fun _ => rfl, fun isFalse => absurd trivial isFalse⟩

theorem bind {next : α → Except NameStop β} (first : Outcome good value result)
    (second : good → Outcome good' value' (next value)) :
    Outcome (good ∧ good') value' (result.bind next) where
  ok both := by
    rw [first.ok both.1]
    exact (second both.1).ok both.2
  stop notBoth := by
    by_cases isGood : good
    · rw [first.ok isGood]
      exact (second isGood).stop fun isGood' => notBoth ⟨isGood, isGood'⟩
    · obtain ⟨stop, isStop, ne⟩ := first.stop isGood
      exact ⟨stop, by rw [isStop]; rfl, ne⟩

theorem congr (outcome : Outcome good value result) (same : good ↔ good') :
    Outcome good' value result :=
  ⟨fun isGood => outcome.ok (same.mpr isGood), fun notGood => outcome.stop (notGood ∘ same.mp)⟩

end Outcome

/-- Every character is stored in the buffer, and a zero is left in it. -/
def Safe {α : Type} (result : Except NameStop α) : Prop :=
  result ≠ .error .outside ∧ result ≠ .error .unterminated

theorem Outcome.safe_iff {α : Type} {good : Prop} {value : α} {result : Except NameStop α}
    (outcome : Outcome good value result) : Safe result ↔ good := by
  constructor
  · intro safe
    by_contra notGood
    obtain ⟨stop, isStop, ne⟩ := outcome.stop notGood
    cases stop with
    | outside => exact safe.1 isStop
    | unterminated => exact safe.2 isStop
    | panic => exact ne rfl
  · intro isGood
    rw [outcome.ok isGood]
    simp [Safe]

/-! ### One name -/

variable {name buf : Buf} {subPath : Option (List UInt8)} {first pathname : List UInt8}
  {names : List (List UInt8)}

/-- A zero of the buffer lies behind the characters of a name. -/
def Holds (buf : Buf) (first : List UInt8) : Prop :=
  ∃ i < maxFileNameLen, first.length ≤ i ∧ buf i = 0

theorem storeName_inside {i : Nat} (inside : i < first.length) (noZero : (0 : UInt8) ∉ first) :
    storeName buf first i ≠ 0 := by
  have isChar : storeName buf first i = first[i] := by simp [storeName, inside]
  rw [isChar]
  intro isZero
  apply noZero
  rw [← isZero]
  exact List.getElem_mem inside

theorem storeName_behind {i : Nat} (behind : first.length ≤ i) : storeName buf first i = buf i := by
  simp [storeName, behind]

theorem holds_iff (noZero : (0 : UInt8) ∉ first) :
    Holds buf first ↔ first.length ≤ maxFileNameLen ∧ ∃ i < maxFileNameLen, storeName buf first i = 0 := by
  constructor
  · rintro ⟨i, inside, behind, isZero⟩
    exact ⟨by omega, i, inside, by rw [storeName_behind behind, isZero]⟩
  · rintro ⟨_, i, inside, isZero⟩
    have behind : first.length ≤ i := by
      by_contra before
      exact storeName_inside (Nat.not_le.mp before) noZero isZero
    exact ⟨i, inside, behind, (storeName_behind behind).symm.trans isZero⟩

theorem components_headD (pathname : List UInt8) :
    (components slash pathname).headD [] = (pathParse pathname).1 := by
  rw [← pathParse_names pathname, namesLeft]
  split
  · rename_i isNil
    rw [isNil]
    rfl
  · rfl

theorem components_tail (pathname : List UInt8) :
    components slash ((pathParse pathname).2.getD []) = (components slash pathname).tail := by
  by_cases isNil : components slash pathname = []
  · have noName : (pathParse pathname).1 = [] := by
      rw [← components_headD, isNil]
      rfl
    have noRest : pathname.dropWhile (· == slash) = [] := eq_nil_of_takeWhile noName
    rw [isNil]
    unfold pathParse
    rw [noRest]
    rfl
  · rw [← pathParse_names pathname] at isNil ⊢
    unfold namesLeft at isNil ⊢
    split
    · rename_i noName
      rw [if_pos noName] at isNil
      exact absurd rfl isNil
    · rfl

/-- Parsing a path leaves the buffer in order exactly when it holds the first name. -/
theorem parseInto_outcome (buf : Buf) (noZero : (0 : UInt8) ∉ pathname) :
    Outcome (Holds buf ((components slash pathname).headD []))
      (storeName buf ((components slash pathname).headD []), (pathParse pathname).2)
      (parseInto buf pathname) := by
  have noZeroFirst : (0 : UInt8) ∉ (pathParse pathname).1 := by
    intro isZero
    exact noZero (List.dropWhile_subset _ (List.takeWhile_subset _ isZero))
  rw [components_headD, holds_iff noZeroFirst]
  unfold parseInto
  constructor
  · rintro ⟨fits, isTerminated⟩
    rw [if_pos fits, if_pos isTerminated]
  · intro notBoth
    by_cases fits : (pathParse pathname).1.length ≤ maxFileNameLen
    · refine ⟨.unterminated, ?_, by decide⟩
      rw [if_pos fits, if_neg fun isTerminated => notBoth ⟨fits, isTerminated⟩]
    · refine ⟨.outside, ?_, by decide⟩
      rw [if_neg fits]

/-! ### The names that are left -/

/-- A loop over names, with the first of them in the buffer. -/
structure Pending (name : Buf) (subPath : Option (List UInt8)) (names : List (List UInt8)) : Prop where
  first : name 0 = 0 ↔ names = []
  rest : components slash (subPath.getD []) = names.tail
  noZero : (0 : UInt8) ∉ subPath.getD []

theorem Pending.parsed (noZero : (0 : UInt8) ∉ pathname)
    (clear : buf 0 = 0 ∨ components slash pathname ≠ []) :
    Pending (storeName buf ((components slash pathname).headD [])) (pathParse pathname).2
      (components slash pathname) where
  first := by
    cases isNames : components slash pathname with
    | nil =>
        have isClear : buf 0 = 0 := clear.resolve_right fun ne => ne isNames
        simpa [storeName] using isClear
    | cons first others =>
        have mem : first ∈ components slash pathname := by rw [isNames]; exact List.mem_cons_self
        have isChar := @storeName_inside buf _ _ (List.length_pos_iff.mpr (of_mem_components mem).1)
          fun isZero => noZero (subset_of_mem_components mem isZero)
        simpa using isChar
  rest := components_tail pathname
  noZero := by
    intro isZero
    apply noZero
    unfold pathParse at isZero
    dsimp only at isZero
    split at isZero
    · exact absurd isZero List.not_mem_nil
    · exact List.dropWhile_subset _ (List.dropWhile_subset _ isZero)

theorem memset_zero {i : Nat} (inside : i < maxFileNameLen) : memset name 0 0 maxFileNameLen i = 0 := by
  unfold memset memcpy
  rw [if_pos ⟨Nat.zero_le _, by omega⟩]

theorem holds_cleared {buf : Buf} (cleared : ∀ i < maxFileNameLen, buf i = 0) :
    Holds buf first ↔ first.length < maxFileNameLen := by
  constructor
  · rintro ⟨i, inside, behind, _⟩
    omega
  · exact fun short => ⟨first.length, short, Nat.le_refl _, cleared _ short⟩

theorem cString_storeName (cleared : ∀ i < maxFileNameLen, buf i = 0) (noZero : (0 : UInt8) ∉ first)
    (short : first.length < maxFileNameLen) : cString (storeName buf first) = first := by
  have bytes : (List.range maxFileNameLen).map (storeName buf first) =
      first ++ List.replicate (maxFileNameLen - first.length) 0 := by
    apply List.ext_getElem
    · simp only [List.length_map, List.length_range, List.length_append, List.length_replicate]
      omega
    · intro i inside inside'
      rw [List.getElem_map, List.getElem_range]
      by_cases before : i < first.length
      · rw [List.getElem_append_left before]
        simp [storeName, before]
      · rw [List.getElem_append_right (Nat.not_lt.mp before), List.getElem_replicate,
          storeName_behind (Nat.not_lt.mp before)]
        exact cleared i (by simpa using inside)
  have isText : ∀ char ∈ first, decide (char ≠ 0) = true := fun char mem =>
    decide_eq_true fun isZero => noZero (isZero ▸ mem)
  obtain ⟨left, isLeft⟩ : ∃ left, maxFileNameLen - first.length = left + 1 :=
    ⟨maxFileNameLen - first.length - 1, by omega⟩
  unfold cString
  rw [bytes, List.takeWhile_append_of_pos isText, isLeft, List.replicate_succ]
  simp

/-- The next name is stored in a cleared buffer. -/
theorem Pending.next (pending : Pending name subPath names) :
    ∃ next rest, Outcome ((names.tail.headD []).length < maxFileNameLen) (next, rest) (parseNext name subPath) ∧
      Pending next rest names.tail ∧
      ((names.tail.headD []).length < maxFileNameLen → cString next = names.tail.headD []) := by
  have cleared : ∀ i < maxFileNameLen, memset name 0 0 maxFileNameLen i = 0 := fun i => memset_zero
  have atStart : memset name 0 0 maxFileNameLen 0 = 0 := memset_zero (by decide)
  have isRest := pending.rest
  have noZero := pending.noZero
  cases subPath with
  | none =>
      rw [Option.getD_none, components_nil] at isRest
      rw [← isRest]
      refine ⟨memset name 0 0 maxFileNameLen, none, (Outcome.pure _).congr ?_, ⟨?_, rfl, noZero⟩, fun _ => ?_⟩
      · exact ⟨fun _ => by decide, fun _ => trivial⟩
      · exact ⟨fun _ => rfl, fun _ => atStart⟩
      · exact @cString_storeName _ [] cleared List.not_mem_nil (by decide)
  | some path =>
      rw [Option.getD_some] at isRest noZero
      rw [← isRest]
      refine ⟨_, _, (parseInto_outcome (memset name 0 0 maxFileNameLen) noZero).congr
        (holds_cleared cleared), Pending.parsed noZero (.inl atStart), fun short => ?_⟩
      apply cString_storeName cleared _ short
      rw [components_headD]
      intro isZero
      exact noZero (List.dropWhile_subset _ (List.takeWhile_subset _ isZero))

/-! ### The loops -/

theorem depthLoop_outcome {fuel : Nat} : ∀ {name subPath names depth},
    Pending name subPath names → names.length < fuel →
      Outcome (∀ other ∈ names.tail, other.length < maxFileNameLen) (depth + names.length)
        (depthLoop fuel name subPath depth) := by
  induction fuel with
  | zero => exact fun _ enough => absurd enough (Nat.not_lt_zero _)
  | succ fuel inductionHypothesis =>
      intro name subPath names depth pending enough
      unfold depthLoop
      cases names with
      | nil =>
          rw [if_pos (pending.first.mpr rfl)]
          exact (Outcome.pure depth).congr (by simp)
      | cons first others =>
          rw [if_neg fun isZero => List.cons_ne_nil _ _ (pending.first.mp isZero)]
          obtain ⟨next, rest, parsed, nextPending, _⟩ := pending.next
          have looped := @inductionHypothesis _ _ _ (depth + 1) nextPending
            (Nat.lt_of_succ_lt_succ enough)
          have count : depth + (first :: others).length = depth + 1 + others.length := by
            rw [List.length_cons]
            omega
          rw [count]
          refine (parsed.bind fun _ => looped).congr ?_
          cases others with
          | nil => simp [maxFileNameLen]
          | cons second others => simp

/-- `path_depth_cnt` keeps its buffer in order when the stack has a zero behind the first
name, and the others leave room for one. -/
theorem pathDepthCnt_outcome (buf : Buf) (noZero : (0 : UInt8) ∉ pathname) :
    Outcome (Holds buf ((components slash pathname).headD []) ∧
        ∀ other ∈ (components slash pathname).tail, other.length < maxFileNameLen)
      (if components slash pathname = [] ∧ buf 0 ≠ 0 then 1 else (components slash pathname).length)
      (pathDepthCnt buf pathname) := by
  have few : (components slash pathname).length ≤ pathname.length := length_components_le pathname
  refine (parseInto_outcome buf noZero).bind fun _ => ?_
  by_cases clear : buf 0 = 0 ∨ components slash pathname ≠ []
  · have counted := @depthLoop_outcome (pathname.length + 2) _ _ _ 0
      (Pending.parsed noZero clear) (by omega)
    rw [Nat.zero_add] at counted
    rw [if_neg (by tauto)]
    exact counted
  · obtain ⟨notZero, noName⟩ := not_or.mp clear
    have isNil : components slash pathname = [] := not_not.mp noName
    have isSet : ¬ storeName buf [] 0 = 0 := by simpa [storeName] using notZero
    have isClear : memset (storeName buf []) 0 0 maxFileNameLen 0 = 0 := memset_zero (by decide)
    rw [if_pos ⟨isNil, notZero⟩, isNil, Calls.pathParse_of_no_components isNil]
    -- what the stack holds passes for a name
    have counted : depthLoop (pathname.length + 2) (storeName buf []) none 0 = .ok 1 := by
      rw [depthLoop, if_neg isSet]
      show depthLoop (pathname.length + 1) (memset (storeName buf []) 0 0 maxFileNameLen) none 1 = _
      rw [depthLoop, if_pos isClear]
    exact ⟨fun _ => counted, fun isFalse => absurd (by simp) isFalse⟩

/-! ### The search -/

/-- What a search with room for every name comes to: the names it parses and those it
enters in `searched_path`. -/
structure Walk where
  parsed : List (List UInt8)
  searched : List (List UInt8)
  inodeNo : Option Nat
  fileType : FileTypes

def Walk.after (name : List UInt8) (walk : Walk) : Walk :=
  { walk with parsed := name :: walk.parsed, searched := name :: walk.searched }

/-- The names are looked up one after the other, and each is parsed before the type of
the entry in front of it is known. -/
def follow (lookup : Lookup) : (dir dirE : Nat) → List (List UInt8) → Walk
  | _, dirE, [] => ⟨[], [], Calls.asInodeNo dirE, .directory⟩
  | dir, _, name :: rest =>
      match lookup dir name with
      | none => ⟨[name], [name], none, .unknown⟩
      | some (iNo, .regular) => ⟨name :: rest.take 1, [name], Calls.asInodeNo iNo, .regular⟩
      | some (iNo, .directory) => (follow lookup iNo iNo rest).after name
      | some (iNo, .unknown) => (follow lookup dir iNo rest).after name

variable {lookup : Lookup}

/-- The first name is always parsed and entered. -/
theorem follow_first (lookup : Lookup) (dir dirE : Nat) (first : List UInt8) (others : List (List UInt8)) :
    (∃ parsed, (follow lookup dir dirE (first :: others)).parsed = first :: parsed) ∧
      ∃ searched, (follow lookup dir dirE (first :: others)).searched = first :: searched := by
  unfold follow
  split
  · exact ⟨⟨_, rfl⟩, _, rfl⟩
  · exact ⟨⟨_, rfl⟩, _, rfl⟩
  · exact ⟨⟨_, rfl⟩, _, rfl⟩
  · exact ⟨⟨_, rfl⟩, _, rfl⟩

theorem follow_short_iff (dir dirE : Nat) (names : List (List UInt8)) :
    ((names.headD []).length < maxFileNameLen ∧
        ∀ other ∈ (follow lookup dir dirE names).parsed.tail, other.length < maxFileNameLen) ↔
      ∀ other ∈ (follow lookup dir dirE names).parsed, other.length < maxFileNameLen := by
  cases names with
  | nil => simp [follow, maxFileNameLen]
  | cons first others =>
      obtain ⟨parsed, isParsed⟩ := (follow_first lookup dir dirE first others).1
      rw [isParsed]
      simp

theorem searchLoop_outcome {fuel : Nat} : ∀ {dir dirE name subPath names searchedPath},
    Pending name subPath names → cString name = names.headD [] → names.length < fuel →
      searchedPath.length + (pathOf names).length < maxPathLen →
      Outcome (∀ other ∈ (follow lookup dir dirE names).parsed.tail, other.length < maxFileNameLen)
        ⟨(follow lookup dir dirE names).inodeNo,
          searchedPath ++ pathOf (follow lookup dir dirE names).searched,
          (follow lookup dir dirE names).fileType⟩
        (searchLoop lookup fuel dir dirE name subPath searchedPath) := by
  induction fuel with
  | zero => exact fun _ _ enough => absurd enough (Nat.not_lt_zero _)
  | succ fuel inductionHypothesis =>
      intro dir dirE name subPath names searchedPath pending isFirst enough room
      unfold searchLoop
      cases names with
      | nil =>
          rw [if_pos (pending.first.mpr rfl)]
          simp only [follow, pathOf, List.flatMap_nil, List.append_nil]
          exact (Outcome.pure _).congr (by simp)
      | cons first others =>
          rw [List.headD_cons] at isFirst
          have isLength : (pathOf (first :: others)).length = first.length + 1 + (pathOf others).length := by
            simp only [pathOf, List.flatMap_cons, List.length_append, List.length_cons]
          rw [if_neg fun isZero => List.cons_ne_nil _ _ (pending.first.mp isZero), if_pos (by omega), isFirst]
          have roomNext : (searchedPath ++ slash :: first).length + (pathOf others).length < maxPathLen := by
            simp only [List.length_append, List.length_cons]
            omega
          cases found : lookup dir first with
          | none =>
              simp only [follow, found, pathOf, List.flatMap_cons, List.flatMap_nil, List.append_nil]
              exact (Outcome.pure _).congr (by simp)
          | some entry =>
              obtain ⟨iNo, fType⟩ := entry
              obtain ⟨next, rest, parsed, nextPending, isNext⟩ := pending.next
              have enoughNext : others.length < fuel := Nat.lt_of_succ_lt_succ enough
              -- the two types with which the loop goes on
              have descend : ∀ next, follow lookup dir dirE (first :: others) =
                  (follow lookup next iNo others).after first →
                  Outcome (∀ other ∈ (follow lookup dir dirE (first :: others)).parsed.tail,
                    other.length < maxFileNameLen)
                  ⟨(follow lookup dir dirE (first :: others)).inodeNo,
                    searchedPath ++ pathOf (follow lookup dir dirE (first :: others)).searched,
                    (follow lookup dir dirE (first :: others)).fileType⟩
                  ((parseNext name subPath).bind fun parsed =>
                    searchLoop lookup fuel next iNo parsed.1 parsed.2 (searchedPath ++ slash :: first)) := by
                intro next isWalk
                rw [isWalk]
                refine (parsed.bind fun short => ?_).congr (follow_short_iff next iNo others)
                have looped := @inductionHypothesis next iNo _ _ _ _ nextPending (isNext short)
                  enoughNext roomNext
                rw [List.append_assoc] at looped
                exact looped
              cases fType with
              | regular =>
                  have isWalk : follow lookup dir dirE (first :: others) =
                      ⟨first :: others.take 1, [first], Calls.asInodeNo iNo, .regular⟩ := by
                    rw [follow, found]
                  have isPath : pathOf [first] = slash :: first := by simp [pathOf]
                  rw [isWalk, isPath]
                  have stopped : Outcome (_ ∧ True)
                      (SearchedNames.mk (Calls.asInodeNo iNo) (searchedPath ++ slash :: first) .regular)
                      ((parseNext name subPath).bind fun _ =>
                        .ok ⟨Calls.asInodeNo iNo, searchedPath ++ slash :: first, .regular⟩) :=
                    parsed.bind fun _ => Outcome.pure _
                  refine stopped.congr ?_
                  cases others with
                  | nil => simp [maxFileNameLen]
                  | cons second others => simp
              | directory => exact descend iNo (by rw [follow, found])
              | unknown => exact descend dir (by rw [follow, found])

/-- What is parsed and what is entered are the first names of the path. -/
theorem follow_isPrefix (lookup : Lookup) (names : List (List UInt8)) : ∀ dir dirE,
    (follow lookup dir dirE names).parsed <+: names ∧ (follow lookup dir dirE names).searched <+: names := by
  induction names with
  | nil => exact fun _ _ => ⟨List.prefix_refl _, List.prefix_refl _⟩
  | cons first others inductionHypothesis =>
      intro dir dirE
      unfold follow
      split
      · exact ⟨List.cons_prefix_cons.mpr ⟨rfl, List.nil_prefix⟩,
          List.cons_prefix_cons.mpr ⟨rfl, List.nil_prefix⟩⟩
      · exact ⟨List.cons_prefix_cons.mpr ⟨rfl, List.take_prefix _ _⟩,
          List.cons_prefix_cons.mpr ⟨rfl, List.nil_prefix⟩⟩
      · rename_i iNo _
        obtain ⟨parsed, searched⟩ := inductionHypothesis iNo iNo
        exact ⟨List.cons_prefix_cons.mpr ⟨rfl, parsed⟩, List.cons_prefix_cons.mpr ⟨rfl, searched⟩⟩
      · rename_i iNo _
        obtain ⟨parsed, searched⟩ := inductionHypothesis dir iNo
        exact ⟨List.cons_prefix_cons.mpr ⟨rfl, parsed⟩, List.cons_prefix_cons.mpr ⟨rfl, searched⟩⟩

/-- A path that `search_file` parses. -/
def Searchable (pathname : List UInt8) : Prop :=
  ¬ IsRootName pathname ∧ pathname.head? = some slash ∧ 1 < pathname.length ∧ pathname.length < maxPathLen

instance (pathname : List UInt8) : Decidable (Searchable pathname) := by
  unfold Searchable
  infer_instance

/-- The search for a path, from the root. -/
def search (lookup : Lookup) (dirE : Nat) (pathname : List UInt8) : Walk :=
  follow lookup 0 dirE (components slash pathname)

theorem searchFile_root (isRoot : IsRootName pathname) (dirE : Nat) :
    searchFile lookup dirE pathname = .ok ⟨some 0, [], .directory⟩ := if_pos isRoot

theorem searchFile_panic (notRoot : ¬ IsRootName pathname) (notSearchable : ¬ Searchable pathname)
    (dirE : Nat) : searchFile lookup dirE pathname = .error .panic := by
  unfold searchFile
  rw [if_neg notRoot, if_neg fun isPath => notSearchable ⟨notRoot, isPath⟩]

theorem cString_parsed (noZero : (0 : UInt8) ∉ pathname)
    (short : ((components slash pathname).headD []).length < maxFileNameLen) :
    cString (storeName (fun _ => 0) ((components slash pathname).headD [])) =
      (components slash pathname).headD [] := by
  apply cString_storeName (fun _ _ => rfl) _ short
  rw [components_headD]
  intro isZero
  exact noZero (List.dropWhile_subset _ (List.takeWhile_subset _ isZero))

theorem searchFile_outcome (searchable : Searchable pathname) (noZero : (0 : UInt8) ∉ pathname)
    (dirE : Nat) :
    Outcome (∀ other ∈ (search lookup dirE pathname).parsed, other.length < maxFileNameLen)
      ⟨(search lookup dirE pathname).inodeNo, pathOf (search lookup dirE pathname).searched,
        (search lookup dirE pathname).fileType⟩
      (searchFile lookup dirE pathname) := by
  obtain ⟨notRoot, isPath⟩ := searchable
  have few : (components slash pathname).length ≤ pathname.length := length_components_le pathname
  have enough : (components slash pathname).length < pathname.length + 1 := by omega
  have room : ([] : List UInt8).length + (pathOf (components slash pathname)).length < maxPathLen := by
    have shorter := length_pathOf_components isPath.1
    have short := isPath.2.2
    rw [List.length_nil]
    omega
  have parsed := (parseInto_outcome (fun _ => 0) noZero).congr (holds_cleared fun _ _ => rfl)
  unfold searchFile
  rw [if_neg notRoot, if_pos isPath]
  refine (parsed.bind fun isShort => ?_).congr (follow_short_iff 0 dirE (components slash pathname))
  exact searchLoop_outcome (Pending.parsed noZero (.inl rfl)) (cString_parsed noZero isShort) enough room

/-! ### The shell -/

theorem washLoop_outcome {fuel : Nat} : ∀ {name subPath names newAbsPath},
    Pending name subPath names → cString name = names.headD [] → names.length < fuel →
      Outcome (∀ other ∈ names.tail, other.length < maxFileNameLen)
        (names.foldl Shell.washStep newAbsPath) (washLoop fuel name subPath newAbsPath) := by
  induction fuel with
  | zero => exact fun _ _ enough => absurd enough (Nat.not_lt_zero _)
  | succ fuel inductionHypothesis =>
      intro name subPath names newAbsPath pending isFirst enough
      unfold washLoop
      cases names with
      | nil =>
          rw [if_pos (pending.first.mpr rfl)]
          exact (Outcome.pure _).congr (by simp)
      | cons first others =>
          rw [List.headD_cons] at isFirst
          obtain ⟨next, rest, parsed, nextPending, isNext⟩ := pending.next
          rw [if_neg fun isZero => List.cons_ne_nil _ _ (pending.first.mp isZero), isFirst]
          refine (parsed.bind fun short => inductionHypothesis nextPending (isNext short)
            (Nat.lt_of_succ_lt_succ enough)).congr ?_
          cases others with
          | nil => simp [maxFileNameLen]
          | cons second others => simp

theorem washPath_outcome (absolute : pathname.head? = some slash) (noZero : (0 : UInt8) ∉ pathname) :
    Outcome (∀ other ∈ components slash pathname, other.length < maxFileNameLen)
      ((components slash pathname).foldl Shell.washStep [slash]) (washPath pathname) := by
  have few : (components slash pathname).length ≤ pathname.length := length_components_le pathname
  have parsed := (parseInto_outcome (fun _ => 0) noZero).congr (holds_cleared fun _ _ => rfl)
  unfold washPath
  rw [if_pos absolute]
  refine (parsed.bind fun isShort => washLoop_outcome (Pending.parsed noZero (.inl rfl))
    (cString_parsed noZero isShort) (by omega)).congr ?_
  cases components slash pathname with
  | nil => simp [maxFileNameLen]
  | cons first others => simp

/-! ### When the buffers of a call stay in order -/

/-- The first name lies in the buffer in front of a zero, and the others have room for one. -/
def AllHeld (buf : Buf) (pathname : List UInt8) : Prop :=
  Holds buf ((components slash pathname).headD []) ∧
    ∀ other ∈ (components slash pathname).tail, other.length < maxFileNameLen

/-- The names that a search parses have room for a zero. -/
def Short (lookup : Lookup) (stack : Stack) (pathname : List UInt8) : Prop :=
  ∀ other ∈ (search lookup stack.dirE pathname).parsed, other.length < maxFileNameLen

/-- The names that the call parses have room in their buffers. -/
def PathCall.Fits (lookup : Lookup) (stack : Stack) (path : CString) : PathCall → Prop
  | .sysOpen flags =>
      path.bytes.getLast? ≠ some slash → flags ≤ 7 → AllHeld stack.first path.bytes ∧
        (Searchable path.bytes → (search lookup stack.dirE path.bytes).fileType ≠ .directory →
          Holds stack.second ((components slash path.bytes).headD []))
  | .sysMkdir ioBuf =>
      ioBuf = true → Searchable path.bytes → Short lookup stack path.bytes ∧
        ((search lookup stack.dirE path.bytes).inodeNo = none → AllHeld stack.first path.bytes ∧
          Holds stack.second ((components slash path.bytes).headD []))
  | .sysUnlink => Searchable path.bytes → Short lookup stack path.bytes
  | .sysStat => Searchable path.bytes → Short lookup stack path.bytes
  | .makeClearAbsPath cwd =>
      (absPath cwd path).head? = some slash →
        ∀ other ∈ components slash (absPath cwd path), other.length < maxFileNameLen

theorem safe_bind {α β : Type} {result : Except NameStop α} {next : α → Except NameStop β} :
    Safe (result.bind next) ↔ Safe result ∧ ∀ value, result = .ok value → Safe (next value) := by
  cases result with
  | ok value => simp [Except.bind, Safe]
  | error stop => simp [Except.bind, Safe]

theorem safe_ok {α : Type} (value : α) : Safe (.ok value : Except NameStop α) := by
  simp [Safe]

theorem safe_panic {α : Type} : Safe (.error .panic : Except NameStop α) := by
  simp [Safe]

variable {path : CString} {stack : Stack}

theorem pathDepthCnt_safe_iff {buf : Buf} (noZero : (0 : UInt8) ∉ pathname) :
    Safe (pathDepthCnt buf pathname) ↔ AllHeld buf pathname :=
  (pathDepthCnt_outcome buf noZero).safe_iff

theorem pathDepthCnt_ok {buf : Buf} (noZero : (0 : UInt8) ∉ pathname) (held : AllHeld buf pathname) :
    ∃ depth, pathDepthCnt buf pathname = .ok depth :=
  ⟨_, (pathDepthCnt_outcome buf noZero).ok held⟩

/-- The path of a search lists the names that were entered. -/
theorem search_names (lookup : Lookup) (dirE : Nat) (pathname : List UInt8) :
    components slash (pathOf (search lookup dirE pathname).searched) =
      (search lookup dirE pathname).searched := by
  have isPrefix := (follow_isPrefix lookup (components slash pathname) 0 dirE).2
  exact components_pathOf fun name mem => isName_of_mem (isPrefix.subset mem)

theorem search_headD (lookup : Lookup) (dirE : Nat) (pathname : List UInt8) :
    (search lookup dirE pathname).searched.headD [] = (components slash pathname).headD [] := by
  unfold search
  cases components slash pathname with
  | nil => rfl
  | cons first others =>
      obtain ⟨searched, isSearched⟩ := (follow_first lookup 0 dirE first others).2
      rw [isSearched]
      rfl

theorem search_noZero (noZero : (0 : UInt8) ∉ pathname) (dirE : Nat) :
    (0 : UInt8) ∉ pathOf (search lookup dirE pathname).searched := by
  have isPrefix := (follow_isPrefix lookup (components slash pathname) 0 dirE).2
  intro isZero
  obtain ⟨name, mem, isChar⟩ := List.mem_flatMap.mp isZero
  rcases List.mem_cons.mp isChar with isSlash | isChar
  · exact absurd isSlash (by decide)
  · exact noZero (subset_of_mem_components (isPrefix.subset mem) isChar)

/-- When the names of the path have room, those of the searched path do. -/
theorem searched_held_iff {buf : Buf} (dirE : Nat)
    (short : ∀ other ∈ (components slash pathname).tail, other.length < maxFileNameLen) :
    AllHeld buf (pathOf (search lookup dirE pathname).searched) ↔
      Holds buf ((components slash pathname).headD []) := by
  unfold AllHeld
  rw [search_names, search_headD]
  refine ⟨fun both => both.1, fun held => ⟨held, fun other mem => short other ?_⟩⟩
  have isPrefix := (follow_isPrefix lookup (components slash pathname) 0 dirE).2
  unfold search at mem
  cases isNames : components slash pathname with
  | nil =>
      rw [isNames] at mem
      exact absurd mem List.not_mem_nil
  | cons first others =>
      obtain ⟨searched, isSearched⟩ := (follow_first lookup 0 dirE first others).2
      rw [isNames, isSearched] at isPrefix mem
      exact (List.cons_prefix_cons.mp isPrefix).2.subset mem

theorem short_of_held {buf : Buf} (held : AllHeld buf path.bytes) : Short lookup stack path.bytes := by
  obtain ⟨⟨i, inside, behind, _⟩, others⟩ := held
  have isPrefix := (follow_isPrefix lookup (components slash path.bytes) 0 stack.dirE).1
  intro other mem
  have mem := isPrefix.subset mem
  cases isNames : components slash path.bytes with
  | nil =>
      rw [isNames] at mem
      exact absurd mem List.not_mem_nil
  | cons first rest =>
      rw [isNames] at mem behind others
      rcases List.mem_cons.mp mem with rfl | mem
      · exact Nat.lt_of_le_of_lt behind inside
      · exact others other mem

theorem safe_depth {α : Type} {buf : Buf} {next : Except NameStop α} (noZero : (0 : UInt8) ∉ pathname) :
    Safe ((pathDepthCnt buf pathname).bind fun _ => next) ↔ AllHeld buf pathname ∧ Safe next := by
  rw [safe_bind, pathDepthCnt_safe_iff noZero]
  refine and_congr_right fun held => ?_
  obtain ⟨depth, isDepth⟩ := pathDepthCnt_ok noZero held
  rw [isDepth]
  exact ⟨fun safe => safe depth rfl, fun safe _ _ => safe⟩

/-- What follows a search for a path that it parses. -/
theorem safe_search {α : Type} {next : SearchedNames → Except NameStop α}
    (searchable : Searchable path.bytes) :
    Safe ((searchFile lookup stack.dirE path.bytes).bind next) ↔ Short lookup stack path.bytes ∧
      Safe (next ⟨(search lookup stack.dirE path.bytes).inodeNo,
        pathOf (search lookup stack.dirE path.bytes).searched,
        (search lookup stack.dirE path.bytes).fileType⟩) := by
  have outcome := @searchFile_outcome _ lookup searchable path.noZero stack.dirE
  rw [safe_bind, outcome.safe_iff]
  refine and_congr_right fun short => ?_
  rw [outcome.ok short]
  exact ⟨fun safe => safe _ rfl, fun safe _ isValue => Except.ok.inj isValue ▸ safe⟩

/-- Other paths are the root, or fail an `ASSERT`. -/
theorem safe_no_search {α : Type} {next : SearchedNames → Except NameStop α}
    (notSearchable : ¬ Searchable path.bytes) (safeRoot : Safe (next ⟨some 0, [], .directory⟩)) :
    Safe ((searchFile lookup stack.dirE path.bytes).bind next) := by
  by_cases isRoot : IsRootName path.bytes
  · rw [searchFile_root isRoot]
    exact safeRoot
  · rw [searchFile_panic isRoot notSearchable]
    exact safe_panic

theorem sysOpen_safe_iff (flags : Nat) :
    Safe ((PathCall.sysOpen flags).run lookup stack path) ↔
      (PathCall.sysOpen flags).Fits lookup stack path := by
  unfold PathCall.run PathCall.Fits
  by_cases trailing : path.bytes.getLast? = some slash
  · simp only [ne_eq, trailing, not_true_eq_false, false_implies, iff_true]
    exact safe_ok ()
  by_cases valid : flags ≤ 7
  · simp only [ne_eq, trailing, not_false_eq_true, true_implies, valid]
    refine (safe_depth path.noZero).trans (and_congr_right fun held => ?_)
    by_cases searchable : Searchable path.bytes
    · refine (safe_search searchable).trans ?_
      have short : Short lookup stack path.bytes := short_of_held held
      by_cases isDirectory : (search lookup stack.dirE path.bytes).fileType = .directory
      · simp only [isDirectory, not_true_eq_false, false_implies,
          implies_true, iff_true]
        exact ⟨short, safe_ok ()⟩
      · simp only [isDirectory, not_false_eq_true, true_implies, searchable]
        have counted := (@safe_depth _ _ stack.second (.ok ())
          (@search_noZero _ lookup path.noZero stack.dirE)).trans
            (and_congr_left fun _ => searched_held_iff stack.dirE held.2)
        exact ⟨fun both => (counted.mp both.2).1, fun holds => ⟨short, counted.mpr ⟨holds, safe_ok ()⟩⟩⟩
    · exact ⟨fun _ isSearchable => absurd isSearchable searchable,
        fun _ => safe_no_search searchable (safe_ok ())⟩
  · simp only [ne_eq, trailing, not_false_eq_true, true_implies, valid,
      false_implies, iff_true]
    exact safe_panic

theorem sysMkdir_safe_iff (ioBuf : Bool) :
    Safe ((PathCall.sysMkdir ioBuf).run lookup stack path) ↔
      (PathCall.sysMkdir ioBuf).Fits lookup stack path := by
  unfold PathCall.run PathCall.Fits
  cases ioBuf with
  | false => exact ⟨fun _ isTrue => absurd isTrue (by decide), fun _ => safe_ok ()⟩
  | true =>
      simp only [if_true, true_implies]
      by_cases searchable : Searchable path.bytes
      · simp only [searchable, true_implies]
        refine (safe_search searchable).trans (and_congr_right fun _ => ?_)
        cases isFound : (search lookup stack.dirE path.bytes).inodeNo with
        | some iNo => exact ⟨fun _ isNone => (by cases isNone), fun _ => safe_ok ()⟩
        | none =>
            simp only [true_implies]
            refine (safe_depth path.noZero).trans (and_congr_right fun held => ?_)
            have counted := (@safe_depth _ _ stack.second (.ok ())
              (@search_noZero _ lookup path.noZero stack.dirE)).trans
                (and_congr_left fun _ => searched_held_iff stack.dirE held.2)
            exact ⟨fun safe => (counted.mp safe).1, fun holds => counted.mpr ⟨holds, safe_ok ()⟩⟩
      · exact ⟨fun _ isSearchable => absurd isSearchable searchable,
          fun _ => safe_no_search searchable (safe_ok ())⟩

/-- A call that only searches. -/
theorem search_safe_iff :
    Safe ((searchFile lookup stack.dirE path.bytes).bind fun _ => .ok ()) ↔
      (Searchable path.bytes → Short lookup stack path.bytes) := by
  by_cases searchable : Searchable path.bytes
  · refine (safe_search searchable).trans ?_
    exact ⟨fun both _ => both.1, fun short => ⟨short searchable, safe_ok ()⟩⟩
  · exact ⟨fun _ isSearchable => absurd isSearchable searchable,
      fun _ => safe_no_search searchable (safe_ok ())⟩

theorem zero_notMem_absPath (cwd : Option CString) (path : CString) : (0 : UInt8) ∉ absPath cwd path := by
  unfold absPath
  split
  · cases cwd with
    | none => exact path.noZero
    | some dir =>
        dsimp only
        intro isZero
        rcases List.mem_append.mp isZero with isZero | isZero
        · split at isZero
          · exact dir.noZero isZero
          · rcases List.mem_append.mp isZero with isZero | isZero
            · exact dir.noZero isZero
            · exact absurd (List.mem_singleton.mp isZero) (by decide)
        · exact path.noZero isZero
  · exact path.noZero

/-- A call stores every name in its buffer, and leaves a zero there, exactly when each name
that it parses has 15 characters at most, and the stack of `path_depth_cnt` has a zero behind
the first. -/
theorem pathCall_safe_iff (lookup : Lookup) (stack : Stack) (path : CString) (call : PathCall) :
    Safe (call.run lookup stack path) ↔ call.Fits lookup stack path := by
  cases call with
  | sysOpen flags => exact sysOpen_safe_iff flags
  | sysMkdir ioBuf => exact sysMkdir_safe_iff ioBuf
  | sysUnlink =>
      unfold PathCall.run PathCall.Fits
      by_cases short : path.bytes.length < maxPathLen
      · rw [if_pos short]
        exact search_safe_iff
      · rw [if_neg short]
        exact ⟨fun _ searchable => absurd searchable.2.2.2 short, fun _ => safe_panic⟩
  | sysStat =>
      unfold PathCall.run PathCall.Fits
      by_cases isRoot : IsRootName path.bytes
      · rw [if_pos isRoot]
        exact ⟨fun _ searchable => absurd isRoot searchable.1, fun _ => safe_ok ()⟩
      · rw [if_neg isRoot]
        exact search_safe_iff
  | makeClearAbsPath cwd =>
      have noZero := zero_notMem_absPath cwd path
      unfold PathCall.run PathCall.Fits
      refine safe_bind.trans ?_
      by_cases absolute : (absPath cwd path).head? = some slash
      · rw [(washPath_outcome absolute noZero).safe_iff]
        exact ⟨fun both _ => both.1, fun short => ⟨short absolute, fun _ _ => safe_ok ()⟩⟩
      · have isPanic : washPath (absPath cwd path) = .error .panic := if_neg absolute
        rw [isPanic]
        exact ⟨fun _ isAbsolute => absurd isAbsolute absolute, fun _ => ⟨safe_panic, fun _ _ => safe_ok ()⟩⟩

/-- Seventeen letters below the root. -/
def longName : CString := ⟨slash :: List.replicate 17 97, by decide⟩

/-- The last letter is stored behind the buffer of `search_file`. -/
theorem long_name_outside :
    PathCall.sysUnlink.run (fun _ _ => none) ⟨fun _ => 0, fun _ => 0, 0⟩ longName = .error .outside ∧
      ¬ Safe (PathCall.sysUnlink.run (fun _ _ => none) ⟨fun _ => 0, fun _ => 0, 0⟩ longName) := by
  have isOutside : PathCall.sysUnlink.run (fun _ _ => none) ⟨fun _ => 0, fun _ => 0, 0⟩ longName =
      .error .outside := by decide +kernel
  exact ⟨isOutside, fun safe => safe.1 isOutside⟩

end ZyOs.Fs.Names
