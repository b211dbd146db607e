import Mathlib.Data.List.Basic

/-!
Contract: labelled transition systems and forward simulation.

Owns:
- `Machine` and its runs, each with the trace of its labels;
- the rule for what the steps of a run cost, with an invariant beside it;
- `Simulation`: a relation that each step of one machine keeps for some step of the
  other with the same label, and that runs are simulated as well.

Does not own: what the states and the labels are.
-/

namespace ZyOs.Lib

universe u v w

/-- A step relation with labels. -/
structure Machine (σ : Type u) (ι : Type v) where
  Step : σ → ι → σ → Prop

variable {σ : Type u} {ι : Type v} {τ : Type w}

/-- A run with the labels of its steps, the first one in front. -/
inductive Machine.Run (machine : Machine σ ι) (start : σ) : List ι → σ → Prop where
  | nil : machine.Run start [] start
  | snoc {trace : List ι} {s s' : σ} {label : ι} (before : machine.Run start trace s)
      (step : machine.Step s label s') : machine.Run start (trace ++ [label]) s'

namespace Machine.Run

variable {machine : Machine σ ι} {start s s' : σ} {trace trace' : List ι}

theorem append (first : machine.Run start trace s) (second : machine.Run s trace' s') :
    machine.Run start (trace ++ trace') s' := by
  induction second with
  | nil =>
      rw [List.append_nil]
      exact first
  | snoc _ step inductionHypothesis =>
      rw [← List.append_assoc]
      exact .snoc inductionHypothesis step

/-- Steps that cost something are paid from a measure that no step raises. -/
theorem countP_le {inv : σ → Prop} {measure : σ → Nat} {costs : ι → Bool} (run : machine.Run start trace s)
    (isStart : inv start)
    (keeps : ∀ {s s' label}, inv s → machine.Step s label s' →
      inv s' ∧ measure s' + (if costs label then 1 else 0) ≤ measure s) :
    inv s ∧ measure s + trace.countP costs ≤ measure start := by
  induction run with
  | nil => exact ⟨isStart, Nat.le_refl _⟩
  | snoc _ step inductionHypothesis =>
      obtain ⟨isInv, paid⟩ := inductionHypothesis
      obtain ⟨isInv', pays⟩ := keeps isInv step
      refine ⟨isInv', ?_⟩
      rw [List.countP_append, List.countP_singleton]
      omega

end Machine.Run

/-- Each step of `conc` from a state that is related to one of `abst` is a step of `abst`
with the same label, to a related state. -/
structure Simulation (conc : Machine σ ι) (abst : Machine τ ι) (related : σ → τ → Prop) : Prop where
  step : ∀ {s s' t label}, related s t → conc.Step s label s' →
    ∃ t', abst.Step t label t' ∧ related s' t'

/-- A run is a run of the machine that simulates, with the same trace. -/
theorem Simulation.run {conc : Machine σ ι} {abst : Machine τ ι} {related : σ → τ → Prop}
    (simulation : Simulation conc abst related) {start s : σ} {t : τ} {trace : List ι}
    (isStart : related start t) (run : conc.Run start trace s) :
    ∃ t', abst.Run t trace t' ∧ related s t' := by
  induction run with
  | nil => exact ⟨t, .nil, isStart⟩
  | snoc _ step inductionHypothesis =>
      obtain ⟨t₁, before, isRelated⟩ := inductionHypothesis
      obtain ⟨t', isStep, isRelated'⟩ := simulation.step isRelated step
      exact ⟨t', .snoc before isStep, isRelated'⟩

end ZyOs.Lib
