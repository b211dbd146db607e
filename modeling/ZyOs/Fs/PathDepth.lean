import ZyOs.Fs.HeapNeutral

/-!
Contract: the count that `path_depth_cnt` returns.

The loop is left by the first byte of `name`. A name that is parsed sets it, and
`memset` clears it before the next one. Before the first name nothing does, so a
path without a name is counted by what is on the stack.
-/

namespace ZyOs.Fs.Calls

open Lib

variable {s : State} {name pathname : List UInt8} {subPath : Option (List UInt8)}

theorem parseName_short (short : (pathParseRest subPath).1.length ≤ maxFileNameLen) :
    parseName maxFileNameLen subPath s = some (pathParseRest subPath, s) := by
  have passes : check ((pathParseRest subPath).1.length ≤ maxFileNameLen) s = some ((), s) := if_pos short
  unfold parseName
  rw [bind_returns passes]
  rfl

/-- With names that fit, the loop counts those that are left. -/
theorem depthLoop_eq {fuel : Nat} : ∀ {name subPath depth},
    (∀ other ∈ (namesLeft name subPath).tail, other.length ≤ maxFileNameLen) →
      (namesLeft name subPath).length < fuel →
      depthLoop fuel (name ≠ []) subPath depth s = some (depth + (namesLeft name subPath).length, s) := by
  induction fuel with
  | zero => exact fun _ enough => absurd enough (Nat.not_lt_zero _)
  | succ fuel inductionHypothesis =>
      intro name subPath depth short enough
      by_cases isNil : name = []
      · subst isNil
        rfl
      · rw [show decide (name ≠ []) = true from decide_eq_true isNil]
        rw [namesLeft_rest subPath isNil] at short enough ⊢
        rw [List.tail_cons] at short
        rw [List.length_cons] at enough ⊢
        have shortNext : (pathParseRest subPath).1.length ≤ maxFileNameLen := by
          by_cases isLast : (pathParseRest subPath).1 = []
          · rw [isLast]
            exact Nat.zero_le _
          · apply short
            rw [namesLeft, if_neg isLast]
            exact List.mem_cons_self
        have rest := @inductionHypothesis _ _ (depth + 1)
          (fun other mem => short other (List.mem_of_mem_tail mem)) (Nat.lt_of_succ_lt_succ enough)
        show (parseName maxFileNameLen subPath s).bind _ = _
        rw [parseName_short shortNext]
        show depthLoop fuel (decide ((pathParseRest subPath).1 ≠ [])) (pathParseRest subPath).2
          (depth + 1) s = _
        rw [rest, Nat.add_assoc, Nat.add_comm 1]

/-- A path without a name leaves nothing to parse. -/
theorem pathParse_of_no_components (isNil : components slash pathname = []) :
    pathParse pathname = ([], none) := by
  have noName : (pathParse pathname).1 = [] := by
    by_contra isName
    have left := pathParse_names pathname
    rw [namesLeft, if_neg isName, isNil] at left
    cases left
  have noRest : pathname.dropWhile (· == slash) = [] := eq_nil_of_takeWhile noName
  unfold pathParse
  rw [noRest]
  rfl

theorem pathDepthCnt_eq (junk : Junk)
    (short : ∀ name ∈ components slash pathname, name.length ≤ maxFileNameLen) :
    pathDepthCnt junk pathname s =
      some (if components slash pathname = [] then (if junk.name0 = 0 then 0 else 1)
        else (components slash pathname).length, s) := by
  by_cases isNil : components slash pathname = []
  · have isParsed := pathParse_of_no_components isNil
    have noLength : (pathParseRest (some pathname)).1.length ≤ maxFileNameLen := by
      rw [pathParseRest, isParsed]
      exact Nat.zero_le _
    rw [if_pos isNil]
    show (parseName maxFileNameLen (some pathname) s).bind _ = _
    rw [parseName_short noLength, pathParseRest, isParsed]
    show depthLoop _ (decide (([] : List UInt8) ≠ [] ∨ junk.name0 ≠ 0)) none 0 s = _
    by_cases isZero : junk.name0 = 0
    · rw [if_pos isZero, show decide (([] : List UInt8) ≠ [] ∨ junk.name0 ≠ 0) = false by simp [isZero]]
      rfl
    · rw [if_neg isZero, show decide (([] : List UInt8) ≠ [] ∨ junk.name0 ≠ 0) = true by simp [isZero]]
      rfl
  · have left := pathParse_names pathname
    have isName : (pathParse pathname).1 ≠ [] := by
      intro noName
      rw [namesLeft, if_pos noName] at left
      exact isNil left.symm
    have shortFirst : (pathParseRest (some pathname)).1.length ≤ maxFileNameLen := by
      apply short
      rw [← left, namesLeft, if_neg isName]
      exact List.mem_cons_self
    have enough : (components slash pathname).length < pathname.length + 2 := by
      have few : (components slash pathname).length ≤ pathname.length := length_components_le pathname
      omega
    rw [← left] at short enough
    have counted := @depthLoop_eq s _ _ _ 0
      (fun other mem => short other (List.mem_of_mem_tail mem)) enough
    rw [left, Nat.zero_add] at counted
    rw [if_neg isNil]
    show (parseName maxFileNameLen (some pathname) s).bind _ = _
    rw [parseName_short shortFirst, pathParseRest]
    show depthLoop _ (decide ((pathParse pathname).1 ≠ [] ∨ junk.name0 ≠ 0)) _ 0 s = _
    rw [decide_eq_true (Or.inl isName), ← decide_eq_true isName]
    exact counted

/-- `path_depth_cnt` counts the components exactly when there is one, or the stack holds
a zero where `name` lies. -/
theorem pathDepthCnt_iff (junk : Junk) (pathname : List UInt8) (s : State)
    (short : ∀ name ∈ components slash pathname, name.length ≤ 15) :
    pathDepthCnt junk pathname s = some ((components slash pathname).length, s) ↔
      components slash pathname ≠ [] ∨ junk.name0 = 0 := by
  rw [pathDepthCnt_eq junk fun name mem => (short name mem).trans (by decide)]
  by_cases isNil : components slash pathname = []
  · by_cases isZero : junk.name0 = 0
    · simp [isNil, isZero]
    · simp [isNil, isZero]
  · simp [isNil]

/-- A letter is left on the stack where `name` lies. -/
def letterOnStack : Junk := ⟨⟨[], 0, .unknown⟩, 97⟩

theorem two_components_counted :
    pathDepthCnt letterOnStack [slash, 98, slash, slash, 99, slash] = fun s => some (2, s) :=
  funext fun s => (pathDepthCnt_iff letterOnStack [slash, 98, slash, slash, 99, slash] s
    (by decide)).mpr (.inl (by decide))

/-- The empty path and one of slashes only are counted as one name. -/
theorem no_component_counted : components slash [] = [] ∧ components slash [slash, slash] = [] ∧
    (pathDepthCnt letterOnStack [] = fun s => some (1, s)) ∧
    pathDepthCnt letterOnStack [slash, slash] = fun s => some (1, s) :=
  ⟨by decide, by decide, rfl, rfl⟩

end ZyOs.Fs.Calls
