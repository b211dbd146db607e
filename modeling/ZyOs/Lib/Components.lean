import Mathlib.Data.List.TakeWhile

/-!
The components of a list: its nonempty pieces between separators.

Owns: `components`, how it goes over concatenation, and its first step: skip the
separators, take up to the next one.
-/

namespace ZyOs.Lib

universe u

variable {α : Type u} [DecidableEq α] (sep : α)

def components (xs : List α) : List (List α) := (xs.splitOn sep).filter (· ≠ [])

variable {sep}

@[simp] theorem components_nil : components sep [] = [] := rfl

theorem components_append_sep (xs ys : List α) :
    components sep (xs ++ sep :: ys) = components sep xs ++ components sep ys := by
  unfold components
  rw [List.splitOn_append_cons_self, List.filter_append]

@[simp] theorem components_sep_cons (xs : List α) :
    components sep (sep :: xs) = components sep xs :=
  components_append_sep [] xs

theorem components_of_notMem {xs : List α} (notMem : sep ∉ xs) (ne : xs ≠ []) :
    components sep xs = [xs] := by
  unfold components
  rw [List.splitOn_eq_singleton notMem]
  simp [ne]

theorem notMem_of_mem_splitOn {xs piece : List α} (mem : piece ∈ xs.splitOn sep) : sep ∉ piece := by
  induction xs generalizing piece with
  | nil =>
      obtain rfl : piece = [] := by simpa using mem
      exact List.not_mem_nil
  | cons x xs inductionHypothesis =>
      rw [List.splitOn_cons_eq_if_modifyHead] at mem
      split at mem
      · rcases List.mem_cons.mp mem with rfl | mem
        · exact List.not_mem_nil
        · exact inductionHypothesis mem
      · rename_i notSep
        obtain ⟨first, rest, isCons⟩ := List.exists_cons_of_ne_nil (List.splitOn_ne_nil sep xs)
        rw [isCons] at mem inductionHypothesis
        rcases List.mem_cons.mp mem with rfl | mem
        · intro isIn
          rcases List.mem_cons.mp isIn with rfl | isIn
          · simp at notSep
          · exact inductionHypothesis List.mem_cons_self isIn
        · exact inductionHypothesis (List.mem_cons_of_mem _ mem)

theorem subset_of_mem_splitOn {xs piece : List α} (mem : piece ∈ xs.splitOn sep) : piece ⊆ xs := by
  induction xs generalizing piece with
  | nil =>
      obtain rfl : piece = [] := by simpa using mem
      exact List.nil_subset _
  | cons x xs inductionHypothesis =>
      rw [List.splitOn_cons_eq_if_modifyHead] at mem
      split at mem
      · rcases List.mem_cons.mp mem with rfl | mem
        · exact List.nil_subset _
        · exact List.subset_cons_of_subset x (inductionHypothesis mem)
      · obtain ⟨first, rest, isCons⟩ := List.exists_cons_of_ne_nil (List.splitOn_ne_nil sep xs)
        rw [isCons] at mem inductionHypothesis
        rcases List.mem_cons.mp mem with rfl | mem
        · exact List.cons_subset_cons x (inductionHypothesis List.mem_cons_self)
        · exact List.subset_cons_of_subset x (inductionHypothesis (List.mem_cons_of_mem _ mem))

theorem subset_of_mem_components {xs piece : List α} (mem : piece ∈ components sep xs) :
    piece ⊆ xs :=
  subset_of_mem_splitOn (List.mem_filter.mp mem).1

theorem of_mem_components {xs piece : List α} (mem : piece ∈ components sep xs) :
    piece ≠ [] ∧ sep ∉ piece := by
  obtain ⟨mem, ne⟩ := List.mem_filter.mp mem
  exact ⟨by simpa using ne, notMem_of_mem_splitOn mem⟩

theorem components_dropWhile (xs : List α) :
    components sep (xs.dropWhile (· == sep)) = components sep xs := by
  induction xs with
  | nil => rfl
  | cons x xs inductionHypothesis =>
      rw [List.dropWhile_cons]
      split
      · rename_i isSep
        rw [inductionHypothesis, beq_iff_eq.mp isSep, components_sep_cons]
      · rfl

/-- What the takeWhile of a step leaves starts with a separator, or is empty. -/
theorem dropWhile_head {xs : List α} (ne : xs.dropWhile (· != sep) ≠ []) :
    ∃ ys, xs.dropWhile (· != sep) = sep :: ys := by
  obtain ⟨y, ys, isCons⟩ := List.exists_cons_of_ne_nil ne
  have stopped := List.head_dropWhile_not (· != sep) ne
  simp only [isCons, List.head_cons, bne_eq_false_iff_eq] at stopped
  rw [isCons, stopped]
  exact ⟨ys, rfl⟩

/-- The first component, and those of the rest. -/
theorem components_takeWhile {xs : List α} (ne : xs.takeWhile (· != sep) ≠ []) :
    components sep xs =
      xs.takeWhile (· != sep) :: components sep (xs.dropWhile (· != sep)) := by
  have notMem : sep ∉ xs.takeWhile (· != sep) := by
    intro mem
    have := List.mem_takeWhile_imp mem
    simp at this
  have single := components_of_notMem notMem ne
  have whole : xs.takeWhile (· != sep) ++ xs.dropWhile (· != sep) = xs :=
    List.takeWhile_append_dropWhile
  by_cases last : xs.dropWhile (· != sep) = []
  · rw [last, List.append_nil] at whole
    rw [last, components_nil, ← single, whole]
  · obtain ⟨ys, isCons⟩ := dropWhile_head last
    rw [isCons] at whole ⊢
    calc components sep xs
        = components sep (xs.takeWhile (· != sep) ++ sep :: ys) := by rw [whole]
      _ = [xs.takeWhile (· != sep)] ++ components sep ys := by
          rw [components_append_sep, single]
      _ = xs.takeWhile (· != sep) :: components sep (sep :: ys) := by
          rw [components_sep_cons, List.singleton_append]

/-- Without a first component there is none. -/
theorem eq_nil_of_takeWhile {xs : List α}
    (isNil : (xs.dropWhile (· == sep)).takeWhile (· != sep) = []) :
    xs.dropWhile (· == sep) = [] := by
  by_contra ne
  obtain ⟨y, ys, isCons⟩ := List.exists_cons_of_ne_nil ne
  have stopped := List.head_dropWhile_not (· == sep) ne
  simp only [isCons, List.head_cons] at stopped
  rw [isCons, List.takeWhile_cons] at isNil
  simp only [bne, stopped, Bool.not_false, if_true] at isNil
  cases isNil

/-- Each component takes an element at least. -/
theorem length_components_le (xs : List α) : (components sep xs).length ≤ xs.length := by
  induction length : xs.length using Nat.strong_induction_on generalizing xs with
  | _ n inductionHypothesis =>
      subst length
      rw [← components_dropWhile]
      have shorter : (xs.dropWhile (· == sep)).length ≤ xs.length := List.length_dropWhile_le _ xs
      by_cases isNil : (xs.dropWhile (· == sep)).takeWhile (· != sep) = []
      · rw [eq_nil_of_takeWhile isNil]
        exact Nat.zero_le _
      · have whole := congrArg List.length (List.takeWhile_append_dropWhile
          (p := (· != sep)) (l := xs.dropWhile (· == sep)))
        have positive := List.length_pos_iff.mpr isNil
        rw [List.length_append] at whole
        have rest := inductionHypothesis _ (by omega)
          ((xs.dropWhile (· == sep)).dropWhile (· != sep)) rfl
        rw [components_takeWhile isNil, List.length_cons]
        omega

theorem components_eq_nil_iff {xs : List α} : components sep xs = [] ↔ ∀ x ∈ xs, x = sep := by
  rw [← components_dropWhile]
  constructor
  · intro isNil x mem
    have none : xs.dropWhile (· == sep) = [] := by
      by_contra ne
      have first : (xs.dropWhile (· == sep)).takeWhile (· != sep) ≠ [] :=
        fun isNil => ne (eq_nil_of_takeWhile isNil)
      rw [components_takeWhile first] at isNil
      cases isNil
    rw [List.dropWhile_eq_nil_iff] at none
    exact beq_iff_eq.mp (none x mem)
  · intro all
    have none : xs.dropWhile (· == sep) = [] :=
      List.dropWhile_eq_nil_iff.mpr fun x mem => beq_iff_eq.mpr (all x mem)
    rw [none, components_nil]

end ZyOs.Lib
