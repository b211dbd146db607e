import Mathlib.Data.List.Perm.Basic
import Mathlib.Data.List.Flatten
import Mathlib.Data.List.Nodup

/-!
Lists in which one place changes: what a filter or a concatenation over the
places gains by it, in its order or up to order.

Owns: the rules for a place that starts to pass a filter, a place that counts
otherwise than before, a place whose piece of a concatenation gains an element, and
a place that is set to a value that passes; what one element more does to the first
element with a property.
-/

namespace ZyOs.Lib

universe u v

variable {α : Type u} {β : Type v}

/-- A list without repetition, taken apart at one of its elements. -/
theorem exists_split_of_nodup {places : List α} (nodup : places.Nodup) {place : α}
    (mem : place ∈ places) :
    ∃ before after, places = before ++ place :: after ∧ place ∉ before ∧ place ∉ after := by
  obtain ⟨before, after, rfl⟩ := List.append_of_mem mem
  have apart := List.nodup_middle.mp nodup
  rw [List.nodup_cons, List.mem_append, not_or] at apart
  exact ⟨before, after, rfl, apart.1.1, apart.1.2⟩

/-- The second list is the first one with `x` somewhere in it. -/
def OneMore (x : α) (xs ys : List α) : Prop :=
  ∃ before after, xs = before ++ after ∧ ys = before ++ x :: after

namespace OneMore

variable {x : α} {xs ys : List α}

theorem single (x : α) : OneMore x [] [x] := ⟨[], [], rfl, rfl⟩

theorem append_left (oneMore : OneMore x xs ys) (zs : List α) : OneMore x (zs ++ xs) (zs ++ ys) := by
  obtain ⟨before, after, rfl, rfl⟩ := oneMore
  exact ⟨zs ++ before, after, (List.append_assoc ..).symm, (List.append_assoc ..).symm⟩

theorem append_right (oneMore : OneMore x xs ys) (zs : List α) : OneMore x (xs ++ zs) (ys ++ zs) := by
  obtain ⟨before, after, rfl, rfl⟩ := oneMore
  exact ⟨before, after ++ zs, List.append_assoc .., List.append_assoc ..⟩

theorem perm (oneMore : OneMore x xs ys) : ys.Perm (x :: xs) := by
  obtain ⟨before, after, rfl, rfl⟩ := oneMore
  exact List.perm_middle

/-- The first element with a property that the new one does not have. -/
theorem find?_of_neg (oneMore : OneMore x xs ys) {p : α → Bool} (notX : ¬ p x) :
    ys.find? p = xs.find? p := by
  obtain ⟨before, after, rfl, rfl⟩ := oneMore
  rw [List.find?_append, List.find?_append, List.find?_cons_of_neg notX]

/-- The new element is the only one with the property. -/
theorem find?_of_pos (oneMore : OneMore x xs ys) {p : α → Bool} (isX : p x)
    (isNone : xs.find? p = none) : ys.find? p = some x := by
  obtain ⟨before, after, rfl, rfl⟩ := oneMore
  rw [List.find?_append, Option.or_eq_none_iff] at isNone
  rw [List.find?_append, isNone.1, List.find?_cons_of_pos isX]
  rfl

end OneMore

/-- The piece of one place has one element more. -/
theorem flatMap_oneMore {places : List α} (nodup : places.Nodup) {place : α} (mem : place ∈ places)
    {f f' : α → List β} {x : β} (oneMore : OneMore x (f place) (f' place))
    (same : ∀ other ∈ places, other ≠ place → f' other = f other) :
    OneMore x (places.flatMap f) (places.flatMap f') := by
  obtain ⟨before, after, rfl, notBefore, notAfter⟩ := exists_split_of_nodup nodup mem
  have sameBefore : before.flatMap f' = before.flatMap f := by
    apply List.flatMap_congr
    intro other isIn
    exact same other (by simp [isIn]) fun isPlace => notBefore (isPlace ▸ isIn)
  have sameAfter : after.flatMap f' = after.flatMap f := by
    apply List.flatMap_congr
    intro other isIn
    exact same other (by simp [isIn]) fun isPlace => notAfter (isPlace ▸ isIn)
  rw [List.flatMap_append, List.flatMap_append, List.flatMap_cons, List.flatMap_cons, sameBefore,
    sameAfter]
  exact (oneMore.append_right _).append_left _

/-- One place more, whose piece is a single element. -/
theorem flatMap_newPlace {places places' : List α} {place : α} (oneMore : OneMore place places places')
    {f f' : α → List β} {x : β} (isNew : f' place = [x]) (same : ∀ other ∈ places, f' other = f other) :
    OneMore x (places.flatMap f) (places'.flatMap f') := by
  obtain ⟨before, after, rfl, rfl⟩ := oneMore
  have sameBefore : before.flatMap f' = before.flatMap f :=
    List.flatMap_congr fun other mem => same other (List.mem_append_left _ mem)
  have sameAfter : after.flatMap f' = after.flatMap f :=
    List.flatMap_congr fun other mem => same other (List.mem_append_right _ mem)
  rw [List.flatMap_append, List.flatMap_append, List.flatMap_cons, sameBefore, sameAfter, isNew]
  exact ⟨_, _, rfl, rfl⟩

/-- One place starts to pass the filter. -/
theorem filter_oneMore {places : List α} (nodup : places.Nodup) {place : α}
    (mem : place ∈ places) {p p' : α → Bool} (old : p place = false) (new : p' place = true)
    (same : ∀ other ∈ places, other ≠ place → p' other = p other) :
    OneMore place (places.filter p) (places.filter p') := by
  obtain ⟨before, after, rfl, notBefore, notAfter⟩ := exists_split_of_nodup nodup mem
  have sameBefore : before.filter p' = before.filter p := by
    apply List.filter_congr
    intro other isIn
    exact same other (by simp [isIn]) fun isPlace => notBefore (isPlace ▸ isIn)
  have sameAfter : after.filter p' = after.filter p := by
    apply List.filter_congr
    intro other isIn
    exact same other (by simp [isIn]) fun isPlace => notAfter (isPlace ▸ isIn)
  rw [List.filter_append, List.filter_append, List.filter_cons_of_pos new,
    List.filter_cons_of_neg (by simp [old]), sameBefore, sameAfter]
  exact ⟨_, _, rfl, rfl⟩

theorem filter_perm_cons {places : List α} (nodup : places.Nodup) {place : α}
    (mem : place ∈ places) {p p' : α → Bool} (old : p place = false) (new : p' place = true)
    (same : ∀ other ∈ places, other ≠ place → p' other = p other) :
    (places.filter p').Perm (place :: places.filter p) :=
  (filter_oneMore nodup mem old new same).perm

/-- Only one place may count otherwise than before. -/
theorem countP_one_place {places : List α} (nodup : places.Nodup) {place : α}
    (mem : place ∈ places) {p p' : α → Bool}
    (same : ∀ other ∈ places, other ≠ place → p' other = p other) :
    places.countP p' + (if p place then 1 else 0) = places.countP p + if p' place then 1 else 0 := by
  obtain ⟨before, after, rfl, notBefore, notAfter⟩ := exists_split_of_nodup nodup mem
  have sameBefore : before.countP p' = before.countP p := by
    apply List.countP_congr
    intro other isIn
    rw [same other (by simp [isIn]) fun isPlace => notBefore (isPlace ▸ isIn)]
  have sameAfter : after.countP p' = after.countP p := by
    apply List.countP_congr
    intro other isIn
    rw [same other (by simp [isIn]) fun isPlace => notAfter (isPlace ▸ isIn)]
  rw [List.countP_append, List.countP_append, List.countP_cons, List.countP_cons, sameBefore, sameAfter]
  omega

/-- The piece of one place gains an element. -/
theorem flatMap_perm_cons {places : List α} (nodup : places.Nodup) {place : α}
    (mem : place ∈ places) {f f' : α → List β} {x : β} (gains : (f' place).Perm (x :: f place))
    (same : ∀ other ∈ places, other ≠ place → f' other = f other) :
    (places.flatMap f').Perm (x :: places.flatMap f) := by
  obtain ⟨before, after, rfl, notBefore, notAfter⟩ := exists_split_of_nodup nodup mem
  have sameBefore : before.flatMap f' = before.flatMap f := by
    apply List.flatMap_congr
    intro other isIn
    exact same other (by simp [isIn]) fun isPlace => notBefore (isPlace ▸ isIn)
  have sameAfter : after.flatMap f' = after.flatMap f := by
    apply List.flatMap_congr
    intro other isIn
    exact same other (by simp [isIn]) fun isPlace => notAfter (isPlace ▸ isIn)
  rw [List.flatMap_append, List.flatMap_append, List.flatMap_cons, List.flatMap_cons, sameBefore,
    sameAfter]
  have step := (gains.append_right (after.flatMap f)).append_left (before.flatMap f)
  exact step.trans List.perm_middle

/-- One place is set from a value that does not pass to one that does. -/
theorem set_filter_oneMore {values : List α} {idx : Nat} {old new : α} {p : α → Bool}
    (isOld : values[idx]? = some old) (notPasses : p old = false) (passes : p new = true) :
    OneMore new (values.filter p) ((values.set idx new).filter p) := by
  induction values generalizing idx with
  | nil => cases isOld
  | cons value values inductionHypothesis =>
      cases idx with
      | zero =>
          cases isOld
          rw [List.set_cons_zero, List.filter_cons_of_pos passes,
            List.filter_cons_of_neg (by simp [notPasses])]
          exact ⟨[], _, rfl, rfl⟩
      | succ idx =>
          have step := (inductionHypothesis isOld).append_left ([value].filter p)
          rw [← List.filter_append, ← List.filter_append] at step
          exact step

theorem set_filter_perm_cons {values : List α} {idx : Nat} {old new : α} {p : α → Bool}
    (isOld : values[idx]? = some old) (notPasses : p old = false) (passes : p new = true) :
    ((values.set idx new).filter p).Perm (new :: values.filter p) :=
  (set_filter_oneMore isOld notPasses passes).perm

end ZyOs.Lib
