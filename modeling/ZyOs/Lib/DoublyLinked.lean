import Mathlib.Tactic.IntervalCases
import Mathlib.Tactic.Ring
import Mathlib.Data.List.Chain
import Mathlib.Data.List.Nodup
import Mathlib.Logic.Function.Basic

/-!
Contract: doubly linked chains of two-word nodes in a word-addressed memory.

A node at address `x` keeps its predecessor in the word at `x` and its
successor in the word at `x + 4`. `Linked m nodes` says that consecutive nodes
point at each other; `Apart nodes` that no two nodes share a word. Splicing a
node in or out touches four or two words, and the lemmas here say what that
does to the chain it is done to and to every other one.
-/

namespace ZyOs.Lib

/-- Words of memory, by address. -/
abbrev Words := Nat → Nat

/-- Consecutive nodes point at each other. -/
def Linked (m : Words) (nodes : List Nat) : Prop :=
  nodes.IsChain fun x y => m (x + 4) = y ∧ m y = x

/-- No two nodes share a word. -/
structure Apart (nodes : List Nat) : Prop where
  nodup : nodes.Nodup
  words : ∀ x ∈ nodes, ∀ y ∈ nodes, x + 4 ≠ y

theorem Apart.sublist {nodes rest : List Nat} (apart : Apart nodes) (sub : rest.Sublist nodes) :
    Apart rest where
  nodup := apart.nodup.sublist sub
  words x memX y memY := apart.words x (sub.subset memX) y (sub.subset memY)

/-- Chains read only the words of their nodes. -/
theorem Linked.congr {m m' : Words} {nodes : List Nat} (linked : Linked m nodes)
    (next : ∀ x ∈ nodes, m' (x + 4) = m (x + 4)) (prev : ∀ x ∈ nodes, m' x = m x) :
    Linked m' nodes := by
  refine List.IsChain.imp_of_mem_imp ?_ linked
  intro x y memX memY link
  rw [next x memX, prev y memY]
  exact link

theorem linked_append_cons {m : Words} {before after : List Nat} {x y : Nat} :
    Linked m (before ++ x :: y :: after) ↔
      Linked m (before ++ [x]) ∧ (m (x + 4) = y ∧ m y = x) ∧ Linked m (y :: after) :=
  List.isChain_append_cons_cons

/-- The chain left of a node is unchanged when the words of its nodes are,
except for the successor of the last one. -/
theorem Linked.congr_left {m m' : Words} {before : List Nat} {x : Nat}
    (linked : Linked m (before ++ [x])) (next : ∀ z ∈ before, m' (z + 4) = m (z + 4))
    (prev : ∀ z ∈ before ++ [x], m' z = m z) : Linked m' (before ++ [x]) := by
  induction before with
  | nil => exact List.isChain_singleton _
  | cons z rest inductionHypothesis =>
      obtain ⟨first, chain⟩ := List.isChain_cons.mp linked
      refine List.isChain_cons.mpr ⟨?_, inductionHypothesis chain ?_ ?_⟩
      · intro w head
        obtain ⟨forward, backward⟩ := first w head
        rw [next z (by simp), prev w (List.mem_cons_of_mem _ (List.mem_of_mem_head? head))]
        exact ⟨forward, backward⟩
      · exact fun w mem => next w (by simp [mem])
      · exact fun w mem => prev w (List.mem_cons_of_mem _ mem)

/-- The chain right of a node is unchanged when the words of its nodes are,
except for the predecessor of the first one. -/
theorem Linked.congr_right {m m' : Words} {after : List Nat} {y : Nat}
    (linked : Linked m (y :: after)) (next : ∀ z ∈ y :: after, m' (z + 4) = m (z + 4))
    (prev : ∀ z ∈ after, m' z = m z) : Linked m' (y :: after) := by
  refine List.IsChain.imp_of_mem_tail_imp ?_ linked
  intro z w memZ memW link
  rw [next z memZ, prev w memW]
  exact link

/-- The four writes that put `node` between the neighbours `x` and `y`. -/
def spliceIn (m : Words) (x node y : Nat) : Words :=
  Function.update (Function.update (Function.update (Function.update m (x + 4) node) node x)
    (node + 4) y) y node

/-- The two writes that make the neighbours `x` and `y` of a node meet. -/
def spliceOut (m : Words) (x y : Nat) : Words :=
  Function.update (Function.update m (x + 4) y) y x

section

variable {nodes : List Nat} {m : Words} {x node y z : Nat}

theorem Apart.spliceIn_next (apart : Apart nodes) (memZ : z ∈ nodes) (memNode : node ∈ nodes)
    (memY : y ∈ nodes) (notX : z ≠ x) (notNode : z ≠ node) :
    spliceIn m x node y (z + 4) = m (z + 4) := by
  have := apart.words z memZ node memNode
  have := apart.words z memZ y memY
  simp [spliceIn, *]

theorem Apart.spliceIn_prev (apart : Apart nodes) (memZ : z ∈ nodes) (memX : x ∈ nodes)
    (memNode : node ∈ nodes) (notNode : z ≠ node) (notY : z ≠ y) :
    spliceIn m x node y z = m z := by
  have := (apart.words x memX z memZ).symm
  have := (apart.words node memNode z memZ).symm
  simp [spliceIn, *]

theorem Apart.spliceOut_next (apart : Apart nodes) (memZ : z ∈ nodes) (memY : y ∈ nodes)
    (notX : z ≠ x) : spliceOut m x y (z + 4) = m (z + 4) := by
  have := apart.words z memZ y memY
  simp [spliceOut, *]

theorem Apart.spliceOut_prev (apart : Apart nodes) (memZ : z ∈ nodes) (memX : x ∈ nodes)
    (notY : z ≠ y) : spliceOut m x y z = m z := by
  have := (apart.words x memX z memZ).symm
  simp [spliceOut, *]

end

theorem Linked.spliceIn {m : Words} {before after : List Nat} {x node y : Nat}
    (linked : Linked m (before ++ x :: y :: after))
    (apart : Apart (before ++ x :: node :: y :: after)) :
    Linked (spliceIn m x node y) (before ++ x :: node :: y :: after) := by
  obtain ⟨left, _, right⟩ := linked_append_cons.mp linked
  have distinct := apart.nodup
  simp only [List.nodup_append, List.nodup_cons, List.mem_cons, not_or] at distinct
  obtain ⟨_, ⟨⟨xNode, xY, xAfter⟩, ⟨nodeY, nodeAfter⟩, yAfter, _⟩, beforeNe⟩ := distinct
  rw [linked_append_cons, show node :: y :: after = [] ++ node :: y :: after from rfl,
    linked_append_cons]
  refine ⟨left.congr_left ?_ ?_, ⟨?_, ?_⟩, List.isChain_singleton _, ⟨?_, ?_⟩,
    right.congr_right ?_ ?_⟩
  · intro z mem
    exact apart.spliceIn_next (by simp [mem]) (by simp) (by simp) (beforeNe z mem x (by simp))
      (beforeNe z mem node (by simp))
  · intro z mem
    refine apart.spliceIn_prev (by grind) (by simp) (by simp) ?_ ?_ <;> grind
  · have := apart.words x (by simp) y (by simp)
    have := apart.words x (by simp) node (by simp)
    simp [Lib.spliceIn, *]
  · have := apart.words node (by simp) node (by simp)
    simp [Lib.spliceIn, *]
  · have := apart.words node (by simp) y (by simp)
    simp [Lib.spliceIn, *]
  · simp [Lib.spliceIn]
  · intro z mem
    refine apart.spliceIn_next (by grind) (by simp) (by simp) ?_ ?_ <;> grind
  · intro z mem
    refine apart.spliceIn_prev (by grind) (by simp) (by simp) ?_ ?_ <;> grind

theorem Linked.spliceOut {m : Words} {before after : List Nat} {x node y : Nat}
    (linked : Linked m (before ++ x :: node :: y :: after))
    (apart : Apart (before ++ x :: node :: y :: after)) :
    Linked (spliceOut m x y) (before ++ x :: y :: after) := by
  obtain ⟨left, _, rest⟩ := linked_append_cons.mp linked
  rw [show node :: y :: after = [] ++ node :: y :: after from rfl, linked_append_cons] at rest
  obtain ⟨_, _, right⟩ := rest
  have distinct := apart.nodup
  simp only [List.nodup_append, List.nodup_cons, List.mem_cons, not_or] at distinct
  obtain ⟨_, ⟨⟨xNode, xY, xAfter⟩, ⟨nodeY, nodeAfter⟩, yAfter, _⟩, beforeNe⟩ := distinct
  rw [linked_append_cons]
  refine ⟨left.congr_left ?_ ?_, ⟨?_, ?_⟩, right.congr_right ?_ ?_⟩
  · intro z mem
    exact apart.spliceOut_next (by simp [mem]) (by simp) (beforeNe z mem x (by simp))
  · intro z mem
    refine apart.spliceOut_prev (by grind) (by simp) ?_
    grind
  · have := apart.words x (by simp) y (by simp)
    simp [Lib.spliceOut, *]
  · simp [Lib.spliceOut]
  · intro z mem
    refine apart.spliceOut_next (by grind) (by simp) ?_
    grind
  · intro z mem
    refine apart.spliceOut_prev (by grind) (by simp) ?_
    grind

/-! ### Other chains -/

section

variable {others nodes : List Nat} {m : Words} {x node y : Nat}

/-- A chain that shares no word with the nodes of a splice survives it. -/
theorem Linked.frame_spliceIn (linked : Linked m others) (apart : Apart (others ++ nodes))
    (memX : x ∈ nodes) (memNode : node ∈ nodes) (memY : y ∈ nodes) :
    Linked (Lib.spliceIn m x node y) others := by
  have distinct := (List.nodup_append.mp apart.nodup).2.2
  have inX := List.mem_append_right others memX
  have inNode := List.mem_append_right others memNode
  have inY := List.mem_append_right others memY
  refine linked.congr ?_ ?_
  · intro z mem
    exact apart.spliceIn_next (List.mem_append_left _ mem) inNode inY (distinct z mem x memX)
      (distinct z mem node memNode)
  · intro z mem
    exact apart.spliceIn_prev (List.mem_append_left _ mem) inX inNode (distinct z mem node memNode)
      (distinct z mem y memY)

theorem Linked.frame_spliceOut (linked : Linked m others) (apart : Apart (others ++ nodes))
    (memX : x ∈ nodes) (memY : y ∈ nodes) : Linked (Lib.spliceOut m x y) others := by
  have distinct := (List.nodup_append.mp apart.nodup).2.2
  have inX := List.mem_append_right others memX
  have inY := List.mem_append_right others memY
  refine linked.congr ?_ ?_
  · intro z mem
    exact apart.spliceOut_next (List.mem_append_left _ mem) inY (distinct z mem x memX)
  · intro z mem
    exact apart.spliceOut_prev (List.mem_append_left _ mem) inX (distinct z mem y memY)

/-- A splice writes words of its nodes only. -/
theorem spliceIn_other {cell : Nat} (memX : x ∈ nodes) (memNode : node ∈ nodes) (memY : y ∈ nodes)
    (off : ∀ z ∈ nodes, cell ≠ z ∧ cell ≠ z + 4) : spliceIn m x node y cell = m cell := by
  have offX := off x memX
  have offNode := off node memNode
  have offY := off y memY
  simp [spliceIn, offX, offNode, offY]

theorem spliceOut_other {cell : Nat} (memX : x ∈ nodes) (memY : y ∈ nodes)
    (off : ∀ z ∈ nodes, cell ≠ z ∧ cell ≠ z + 4) : spliceOut m x y cell = m cell := by
  have offX := off x memX
  have offY := off y memY
  simp [spliceOut, offX, offY]

end

end ZyOs.Lib
