import ZyOs.Kernel.Strings
import ZyOs.Fs.NameBuffers

/-!
Contract: `wash_path` over the bytes of its two buffers: `name`, which is cleared
before the next component, and the caller's `new_abs_path`, whose string is the
stack of names.

Owns:
- the string that is left, against the names folded over a stack;
- which bytes of the caller's buffer are written;
- that a washed path is washed to itself.
-/

namespace ZyOs.Shell

open ZyOs.Fs ZyOs.Lib ZyOs.Kernel
open ZyOs.Fs.Names (NameStop CString parseInto parseNext cString Pending)

/-! ### The functions -/

/-- A byte or a string that finds no room ends the model. -/
def orOutside {α : Type} : Option α → Except NameStop α
  | none => .error .outside
  | some value => .ok value

/-- One byte of a buffer is set. -/
def setChar (buf : List UInt8) (idx : Nat) (char : UInt8) : Option (List UInt8) :=
  if idx < buf.length then some (buf.set idx char) else none

/-- The body of the loop of `wash_path`, but for `path_parse`. -/
def washInto (newAbsPath name : List UInt8) : Except NameStop (List UInt8) :=
  if name = [dot, dot] then
    match strrchr (stringOf newAbsPath) slash with
    | none => .error .outside
    | some slashPtr =>
        if slashPtr ≠ 0 then orOutside (setChar newAbsPath slashPtr 0)
        else orOutside (setChar newAbsPath (slashPtr + 1) 0)
  else if name ≠ [dot] then do
    let newAbsPath ←
      if stringOf newAbsPath ≠ [slash] then orOutside (strcat newAbsPath [slash]) else .ok newAbsPath
    orOutside (strcat newAbsPath name)
  else
    .ok newAbsPath

/-- The loop of `wash_path`, over `fuel` names at most. -/
def washIntoLoop : Nat → (name : Buf) → (subPath : Option (List UInt8)) → (newAbsPath : List UInt8) →
    Except NameStop (List UInt8)
  | 0, _, _, _ => .error .panic
  | fuel + 1, name, subPath, newAbsPath =>
      if name 0 = 0 then
        .ok newAbsPath
      else do
        let newAbsPath ← washInto newAbsPath (cString name)
        let (name, subPath) ← parseNext name subPath
        washIntoLoop fuel name subPath newAbsPath

/-- `wash_path`; the result is the buffer of `new_abs_path`. -/
def washPathInto (oldAbsPath newAbsPath : List UInt8) : Except NameStop (List UInt8) :=
  if oldAbsPath.head? = some slash then do
    let (name, subPath) ← parseInto (fun _ => 0) oldAbsPath
    if name 0 = 0 then
      let newAbsPath ← orOutside (setChar newAbsPath 0 slash)
      orOutside (setChar newAbsPath 1 0)
    else
      let newAbsPath ← orOutside (setChar newAbsPath 0 0)
      let newAbsPath ← orOutside (strcat newAbsPath [slash])
      washIntoLoop (oldAbsPath.length + 1) name subPath newAbsPath
  else
    .error .panic

/-! ### One name -/

variable {before buf text name : List UInt8} {names : List (List UInt8)} {reach : Nat}

/-- The buffer holds this path, and nothing of it has been written from `reach` on. -/
structure Washed (before : List UInt8) (reach : Nat) (buf text : List UInt8) : Prop where
  holds : HoldsText buf text
  length : buf.length = before.length
  behind : buf.drop reach = before.drop reach

theorem Washed.cut (washed : Washed before reach buf text) {idx : Nat} (inside : idx ≤ text.length)
    (low : idx < reach) : ∃ buf', orOutside (setChar buf idx 0) = .ok buf' ∧
      Washed before reach buf' (text.take idx) := by
  have fits := washed.holds.length_lt
  refine ⟨buf.set idx 0, ?_, washed.holds.cut inside, ?_, ?_⟩
  · rw [setChar, if_pos (by omega)]
    rfl
  · rw [List.length_set, washed.length]
  · rw [List.drop_set_of_lt low, washed.behind]

theorem Washed.append (washed : Washed before reach buf text) (more : List UInt8)
    (low : text.length + more.length < reach) (room : reach ≤ before.length)
    (noZero : (0 : UInt8) ∉ more) : ∃ buf', orOutside (strcat buf more) = .ok buf' ∧
      Washed before reach buf' (text ++ more) := by
  have length := washed.length
  obtain ⟨buf', isStored, holds, sameLength, sameBehind⟩ :=
    washed.holds.append more (by omega) noZero
  refine ⟨buf', ?_, holds, sameLength.trans length, ?_⟩
  · rw [strcat_eq washed.holds, isStored]
    rfl
  · have further := congrArg (List.drop (reach - (text.length + more.length + 1))) sameBehind
    rw [List.drop_drop, List.drop_drop, Nat.add_sub_cancel' low] at further
    rw [further, washed.behind]

/-- A string that has a slash, with what is behind its last one. -/
def IsAbsolute (text : List UInt8) : Prop :=
  ∃ init last, slash ∉ last ∧ text = init ++ slash :: last

theorem canonicalPath_isAbsolute (isNames : ∀ name ∈ names, IsName name) :
    IsAbsolute (canonicalPath names) := by
  rcases List.eq_nil_or_concat names with rfl | ⟨init, last, rfl⟩
  · exact ⟨[], [], List.not_mem_nil, rfl⟩
  · rw [List.concat_eq_append, canonicalPath_concat]
    exact ⟨pathOf init, last, (isNames last (by simp)).notMem, rfl⟩

/-- In its buffer, a name does to the string what `washStep` says. -/
theorem Washed.step (washed : Washed before reach buf text) (absolute : IsAbsolute text)
    (low : text.length < reach) (fits : (washStep text name).length < reach)
    (room : reach ≤ before.length) (noZero : (0 : UInt8) ∉ name) :
    ∃ buf', washInto buf name = .ok buf' ∧ Washed before reach buf' (washStep text name) := by
  have isString := washed.holds.stringOf_eq
  unfold washStep at fits ⊢
  unfold washInto
  rw [isString]
  by_cases isDotDot : name = [dot, dot]
  · obtain ⟨init, last, notMem, rfl⟩ := absolute
    rw [if_pos isDotDot, if_pos isDotDot, strrchr_append notMem]
    rw [List.length_append, List.length_cons] at low
    dsimp only
    by_cases isTop : init.length ≠ 0
    · rw [if_pos isTop, if_pos isTop]
      exact washed.cut (by rw [List.length_append]; omega) (by omega)
    · rw [if_neg isTop, if_neg isTop]
      exact washed.cut (by rw [List.length_append, List.length_cons]; omega) (by omega)
  · rw [if_neg isDotDot] at fits ⊢
    rw [if_neg isDotDot]
    by_cases isDot : name = [dot]
    · rw [if_neg (not_not.mpr isDot), if_neg (not_not.mpr isDot)]
      exact ⟨buf, rfl, washed⟩
    · rw [if_pos isDot] at fits ⊢
      rw [if_pos isDot]
      by_cases isRoot : text = [slash]
      · rw [if_neg (not_not.mpr isRoot)] at fits ⊢
        rw [if_neg (not_not.mpr isRoot)]
        rw [List.length_append] at fits
        exact washed.append name fits room noZero
      · rw [if_pos isRoot] at fits ⊢
        rw [if_pos isRoot]
        rw [List.length_append, List.length_append] at fits
        obtain ⟨buf', isSlash, washed'⟩ := washed.append [slash] (by omega) room (by decide)
        rw [isSlash]
        exact washed'.append name (by rw [List.length_append]; exact fits) room noZero

/-! ### The loop -/

theorem length_canonicalPath_le (names : List (List UInt8)) :
    (canonicalPath names).length ≤ max 1 (pathOf names).length := by
  unfold canonicalPath
  split
  · exact Nat.le_max_left _ _
  · exact Nat.le_max_right _ _

theorem length_pathOf_cons (name : List UInt8) (rest : List (List UInt8)) :
    (pathOf (name :: rest)).length = name.length + 1 + (pathOf rest).length := by
  simp only [pathOf, List.flatMap_cons, List.length_append, List.length_cons]

theorem washIntoLoop_eq {fuel : Nat} : ∀ {buffer subPath left names buf},
    Pending buffer subPath left → cString buffer = left.headD [] → left.length < fuel →
      (∀ other ∈ left, other.length < maxFileNameLen) →
      (∀ other ∈ left, IsName other ∧ (0 : UInt8) ∉ other) → (∀ other ∈ names, IsName other) →
      1 < reach → (pathOf names).length + (pathOf left).length < reach → reach ≤ before.length →
      Washed before reach buf (canonicalPath names) →
      ∃ buf', washIntoLoop fuel buffer subPath buf = .ok buf' ∧
        Washed before reach buf' (canonicalPath (wash names left)) := by
  induction fuel with
  | zero => exact fun _ _ enough => absurd enough (Nat.not_lt_zero _)
  | succ fuel inductionHypothesis =>
      intro buffer subPath left names buf pending isFirst enough short isLeft isNames two below room washed
      unfold washIntoLoop
      cases left with
      | nil =>
          rw [if_pos (pending.first.mpr rfl)]
          exact ⟨buf, rfl, washed⟩
      | cons first others =>
          rw [List.headD_cons] at isFirst
          obtain ⟨next, rest, parsed, nextPending, isNext⟩ := pending.next
          rw [List.tail_cons] at parsed nextPending isNext
          have nextShort : (others.headD []).length < maxFileNameLen := by
            cases others with
            | nil => decide
            | cons second others => exact short second (by simp)
          rw [length_pathOf_cons] at below
          have grown := length_pathOf_washName names first
          have small := length_canonicalPath_le names
          have small' := length_canonicalPath_le (washName names first)
          have isStep : washStep (canonicalPath names) first = canonicalPath (washName names first) :=
            washStep_eq isNames
          obtain ⟨buf', isWashed, washed'⟩ := washed.step (canonicalPath_isAbsolute isNames)
            (by omega) (by rw [isStep]; omega) room (isLeft first List.mem_cons_self).2
          rw [isStep] at washed'
          have isNames' : ∀ other ∈ washName names first, IsName other := by
            intro other mem
            rcases mem_washName mem with mem | rfl
            · exact isNames other mem
            · exact (isLeft other List.mem_cons_self).1
          rw [if_neg fun isZero => List.cons_ne_nil _ _ (pending.first.mp isZero), isFirst, isWashed]
          show ∃ buf'', (parseNext buffer subPath).bind _ = _ ∧
            Washed before reach buf'' (canonicalPath (wash (washName names first) others))
          rw [parsed.ok nextShort]
          exact inductionHypothesis nextPending (isNext nextShort) (Nat.lt_of_succ_lt_succ enough)
            (fun other mem => short other (List.mem_cons_of_mem _ mem))
            (fun other mem => isLeft other (List.mem_cons_of_mem _ mem)) isNames' two (by omega) room
            washed'

/-! ### The washed path -/

/-- A canonical path: it starts with a slash, no component is empty, `.` or `..`, and no
slash is at its end. -/
structure IsCanonical (text : List UInt8) : Prop where
  absolute : text.head? = some slash
  noEmpty : ¬ [slash, slash] <:+: text
  noTrailing : text ≠ [slash] → text.getLast? ≠ some slash
  proper : ∀ name ∈ components slash text, IsProper name

theorem washName_proper {name : List UInt8} (proper : ∀ other ∈ names, IsProper other) :
    ∀ other ∈ washName names name, IsProper other := by
  intro other mem
  unfold washName at mem
  split at mem
  · exact proper other ((List.dropLast_sublist names).mem mem)
  · rename_i notDotDot
    split at mem
    · exact proper other mem
    · rename_i notDot
      rcases List.mem_append.mp mem with mem | mem
      · exact proper other mem
      · rw [List.mem_singleton.mp mem]
        exact ⟨notDot, notDotDot⟩

/-- No `.` and no `..` is left. -/
theorem wash_proper {rest : List (List UInt8)} (proper : ∀ other ∈ names, IsProper other) :
    ∀ other ∈ wash names rest, IsProper other := by
  induction rest generalizing names with
  | nil => exact proper
  | cons name rest inductionHypothesis => exact inductionHypothesis (washName_proper proper)

/-- Names without `.` and `..` are all pushed. -/
theorem wash_of_proper {rest : List (List UInt8)} (proper : ∀ other ∈ rest, IsProper other) :
    wash names rest = names ++ rest := by
  induction rest generalizing names with
  | nil => exact (List.append_nil names).symm
  | cons name rest inductionHypothesis =>
      have isProper := proper name List.mem_cons_self
      have isPushed : washName names name = names ++ [name] := by
        rw [washName, if_neg isProper.2, if_neg isProper.1]
      show wash (washName names name) rest = _
      rw [isPushed, inductionHypothesis fun other mem => proper other (List.mem_cons_of_mem _ mem),
        List.append_assoc, List.singleton_append]

/-- A slash in a path of names, and one put behind the path, follow a name. -/
theorem pathOf_slashes (isNames : ∀ name ∈ names, IsName name) (init last : List UInt8) :
    pathOf names ++ [slash] ≠ init ++ slash :: slash :: last := by
  induction names generalizing init with
  | nil =>
      intro same
      have length := congrArg List.length same
      simp only [pathOf, List.flatMap_nil, List.nil_append, List.length_append, List.length_cons,
        List.length_nil] at length
      omega
  | cons name rest inductionHypothesis =>
      have isName := isNames name List.mem_cons_self
      have isRest := inductionHypothesis fun other mem => isNames other (List.mem_cons_of_mem _ mem)
      have isCons : pathOf (name :: rest) ++ [slash] = slash :: (name ++ (pathOf rest ++ [slash])) := by
        simp [pathOf]
      intro same
      rw [isCons] at same
      cases init with
      | nil =>
          -- the second slash would be the first character of the name
          obtain ⟨char, name, rfl⟩ := List.exists_cons_of_ne_nil isName.ne
          obtain ⟨-, isChar⟩ := List.cons.inj same
          exact isName.notMem ((List.cons.inj isChar).1 ▸ List.mem_cons_self)
      | cons char init =>
          obtain ⟨-, inside⟩ := List.cons.inj same
          rcases List.append_eq_append_iff.mp inside with ⟨more, -, behind⟩ | ⟨more, isMore, behind⟩
          · exact isRest more behind
          · cases more with
            | nil => exact isRest [] behind.symm
            | cons char' more =>
                obtain ⟨isSlash, -⟩ := List.cons.inj behind
                apply isName.notMem
                rw [isMore, isSlash]
                exact List.mem_append_right _ List.mem_cons_self

theorem canonicalPath_isCanonical (isNames : ∀ name ∈ names, IsName name)
    (proper : ∀ name ∈ names, IsProper name) : IsCanonical (canonicalPath names) where
  absolute := canonicalPath_absolute names
  noEmpty isInfix := by
    obtain ⟨init, last, same⟩ := isInfix
    by_cases isNil : names = []
    · rw [isNil] at same
      have length := congrArg List.length same
      simp only [canonicalPath, List.length_append, List.length_cons, List.length_nil, if_true] at length
      omega
    · rw [canonicalPath, if_neg isNil] at same
      apply pathOf_slashes isNames init (last ++ [slash])
      rw [← same]
      simp
  noTrailing notRoot isSlash := by
    have isNil : names ≠ [] := fun isNil => notRoot (by rw [isNil]; rfl)
    obtain ⟨init, same⟩ := List.getLast?_eq_some_iff.mp isSlash
    rw [canonicalPath, if_neg isNil] at same
    apply pathOf_slashes isNames init []
    rw [same, List.append_assoc]
    rfl
  proper := by
    rw [components_canonicalPath isNames]
    exact proper

/-- `/` alone is stored as it is. -/
theorem setRoot (two : 2 ≤ reach) (room : reach ≤ before.length) :
    ∃ buf buf', orOutside (setChar before 0 slash) = .ok buf ∧ orOutside (setChar buf 1 0) = .ok buf' ∧
      Washed before reach buf' [slash] := by
  obtain ⟨first, second, rest, rfl⟩ : ∃ first second rest, before = first :: second :: rest := by
    match before, two.trans room with
    | first :: second :: rest, _ => exact ⟨first, second, rest, rfl⟩
  refine ⟨slash :: second :: rest, slash :: 0 :: rest, ?_, ?_, ⟨by decide, rest, rfl⟩, rfl, ?_⟩
  · rw [setChar, if_pos (by simp)]
    rfl
  · rw [setChar, if_pos (by simp)]
    rfl
  · obtain ⟨reach, rfl⟩ := Nat.exists_eq_add_of_le' two
    rfl

/-- Before the loop the string is `/`. -/
theorem startRoot (two : 2 ≤ reach) (room : reach ≤ before.length) :
    ∃ buf buf', orOutside (setChar before 0 0) = .ok buf ∧ orOutside (strcat buf [slash]) = .ok buf' ∧
      Washed before reach buf' (canonicalPath []) := by
  have cleared : Washed before reach (before.set 0 0) [] := by
    refine ⟨⟨List.not_mem_nil, before.tail, ?_⟩, List.length_set, List.drop_set_of_lt (by omega)⟩
    match before, two.trans room with
    | first :: rest, _ => rfl
  obtain ⟨buf', isStored, washed⟩ := cleared.append [slash] two room (by decide)
  refine ⟨before.set 0 0, buf', ?_, isStored, washed⟩
  rw [setChar, if_pos (by omega)]
  rfl

theorem washPathInto_eq {path : CString} (absolute : path.bytes.head? = some slash)
    (short : ∀ name ∈ components slash path.bytes, name.length < maxFileNameLen)
    (room : path.bytes.length < before.length) :
    ∃ buf, washPathInto path.bytes before = .ok buf ∧ Washed before (path.bytes.length + 1) buf
      (canonicalPath (wash [] (components slash path.bytes))) := by
  have few : (components slash path.bytes).length ≤ path.bytes.length := length_components_le _
  have notNil : path.bytes.length ≠ 0 := by
    intro isNil
    rw [List.eq_nil_of_length_eq_zero isNil] at absolute
    cases absolute
  have shortFirst : ((components slash path.bytes).headD []).length < maxFileNameLen := by
    cases isNames : components slash path.bytes with
    | nil => decide
    | cons first others => exact short first (isNames ▸ List.mem_cons_self)
  have parsed := (Names.parseInto_outcome (fun _ => 0) path.noZero).congr
    (Names.holds_cleared fun _ _ => rfl)
  have pending : Pending (Names.storeName (fun _ => 0) ((components slash path.bytes).headD []))
      (pathParse path.bytes).2 (components slash path.bytes) := Pending.parsed path.noZero (.inl rfl)
  have isLeft : ∀ other ∈ components slash path.bytes, IsName other ∧ (0 : UInt8) ∉ other :=
    fun other mem => ⟨isName_of_mem mem, fun isZero => path.noZero (subset_of_mem_components mem isZero)⟩
  unfold washPathInto
  rw [if_pos absolute]
  show ∃ buf, (parseInto (fun _ => 0) path.bytes).bind _ = _ ∧ _
  rw [parsed.ok shortFirst]
  by_cases isNil : components slash path.bytes = []
  · obtain ⟨buf, buf', isSlash, isZero, washed⟩ :=
      @setRoot before (path.bytes.length + 1) (by omega) (by omega)
    refine ⟨buf', ?_, ?_⟩
    · show (if Names.storeName (fun _ => 0) ((components slash path.bytes).headD []) 0 = 0 then _
        else _) = _
      rw [if_pos (pending.first.mpr isNil), isSlash]
      exact isZero
    · rw [isNil]
      exact washed
  · obtain ⟨buf, buf', isZero, isSlash, washed⟩ :=
      @startRoot before (path.bytes.length + 1) (by omega) (by omega)
    have below : (pathOf []).length + (pathOf (components slash path.bytes)).length <
        path.bytes.length + 1 := by
      have shorter := length_pathOf_components absolute
      simp only [pathOf, List.flatMap_nil, List.length_nil, Nat.zero_add] at shorter ⊢
      omega
    obtain ⟨washed', isWashed, isLast⟩ := washIntoLoop_eq pending (Names.cString_parsed path.noZero shortFirst)
      (Nat.lt_succ_of_le few) short isLeft (fun _ mem => absurd mem List.not_mem_nil) (by omega) below
      room washed
    refine ⟨washed', ?_, isLast⟩
    show (if Names.storeName (fun _ => 0) ((components slash path.bytes).headD []) 0 = 0 then _
      else _) = _
    rw [if_neg (fun isZero => isNil (pending.first.mp isZero)), isZero]
    show (orOutside (strcat buf [slash])).bind _ = _
    rw [isSlash]
    exact isWashed

/-- For a path whose names have at most 15 characters, the buffer of `new_abs_path` holds
the canonical path of the names that are left, and no byte behind the length of the path
is written; washed once more, the path stays what it is. -/
theorem wash_path_canonical (path : CString) (absolute : path.bytes.head? = some slash)
    (short : ∀ name ∈ components slash path.bytes, name.length ≤ 15) (newAbsPath : List UInt8)
    (room : path.bytes.length < newAbsPath.length) :
    ∃ washed, washPathInto path.bytes newAbsPath = .ok washed ∧
      Washed newAbsPath (path.bytes.length + 1) washed
        (canonicalPath (wash [] (components slash path.bytes))) ∧
      IsCanonical (stringOf washed) ∧
      ∀ again : List UInt8, (stringOf washed).length < again.length →
        ∃ buf, washPathInto (stringOf washed) again = .ok buf ∧ stringOf buf = stringOf washed := by
  have fewer : ∀ name ∈ components slash path.bytes, name.length < maxFileNameLen := fun name mem =>
    Nat.lt_succ_of_le (short name mem)
  obtain ⟨washed, isWashed, isLast⟩ := washPathInto_eq absolute fewer room
  have isLeft : ∀ name ∈ wash [] (components slash path.bytes), name ∈ components slash path.bytes :=
    fun name mem => (mem_wash mem).resolve_left List.not_mem_nil
  have isNames : ∀ name ∈ wash [] (components slash path.bytes), IsName name :=
    fun name mem => isName_of_mem (isLeft name mem)
  have proper : ∀ name ∈ wash [] (components slash path.bytes), IsProper name :=
    wash_proper fun _ mem => absurd mem List.not_mem_nil
  have isString := isLast.holds.stringOf_eq
  have isSame : components slash (stringOf washed) = wash [] (components slash path.bytes) := by
    rw [isString, components_canonicalPath isNames]
  refine ⟨washed, isWashed, isLast, isString ▸ canonicalPath_isCanonical isNames proper, ?_⟩
  have isAbsolute : (stringOf washed).head? = some slash := by
    rw [isString]
    exact canonicalPath_absolute _
  intro again room'
  obtain ⟨buf, isAgain, isLast'⟩ := @washPathInto_eq again ⟨stringOf washed, isString ▸ isLast.holds.noZero⟩
    isAbsolute (fun name mem => fewer name (isLeft name (isSame ▸ mem))) room'
  refine ⟨buf, isAgain, ?_⟩
  rw [isLast'.holds.stringOf_eq]
  show canonicalPath (wash [] (components slash (stringOf washed))) = _
  rw [isSame, wash_of_proper proper, List.nil_append, isString]

/-- `/../a/..//./a` is washed to `/a`, in the buffer of the shell. -/
theorem wash_path_canonical_climbing :
    ∃ washed, washPathInto climbingPath (List.replicate maxPathLen 7) = .ok washed ∧
      stringOf washed = [slash, 97] := by
  obtain ⟨washed, isWashed, isLast, -, -⟩ := wash_path_canonical ⟨climbingPath, by decide⟩ rfl
    (by decide) (List.replicate maxPathLen 7) (by rw [List.length_replicate]; decide)
  exact ⟨washed, isWashed, isLast.holds.stringOf_eq.trans (by decide)⟩

end ZyOs.Shell
