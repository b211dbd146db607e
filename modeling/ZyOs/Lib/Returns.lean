import Mathlib.Logic.Basic

/-!
Partial correctness of computations with a state that may not return.

Owns: `Ensures`, what holds of the result and the state after a computation that
returns, and the rule for each way to put computations together.
-/

namespace ZyOs.Lib

universe u

variable {σ : Type u} {α β : Type u} {pre pre' : σ → Prop} {call : StateT σ Option α}
  {post post' : α → σ → Prop}

/-- From every state with `pre`, when the computation returns, `post` holds. -/
structure Ensures (pre : σ → Prop) (call : StateT σ Option α) (post : α → σ → Prop) : Prop where
  returns : ∀ {s a s'}, pre s → call s = some (a, s') → post a s'

/-- One computation after the other returns: both do. -/
theorem bind_eq_some {next : α → StateT σ Option β} {s s' : σ} {b : β}
    (isRun : (call >>= next) s = some (b, s')) :
    ∃ a s₁, call s = some (a, s₁) ∧ next a s₁ = some (b, s') := by
  have isBind : (call s).bind (fun result => next result.1 result.2) = some (b, s') := isRun
  obtain ⟨⟨a, s₁⟩, isFirst, isNext⟩ := Option.bind_eq_some_iff.mp isBind
  exact ⟨a, s₁, isFirst, isNext⟩

/-- After a computation that returns comes the next one. -/
theorem bind_returns {next : α → StateT σ Option β} {s s₁ : σ} {a : α} (isFirst : call s = some (a, s₁)) :
    (call >>= next) s = next a s₁ := by
  show (call s).bind (fun result => next result.1 result.2) = next a s₁
  rw [isFirst]
  rfl

namespace Ensures

theorem bind {next : α → StateT σ Option β} {last : β → σ → Prop} (first : Ensures pre call post)
    (rest : ∀ a, Ensures (post a) (next a) last) : Ensures pre (call >>= next) last := by
  constructor
  intro s b s' isPre isRun
  obtain ⟨a, s₁, isFirst, isNext⟩ := bind_eq_some isRun
  exact (rest a).returns (first.returns isPre isFirst) isNext

theorem pure {a : α} (holds : ∀ s, pre s → post a s) : Ensures pre (Pure.pure a) post := by
  constructor
  intro s b s' isPre isRun
  cases isRun
  exact holds s isPre

theorem get {pre : σ → Prop} : Ensures pre MonadState.get fun read s => pre s ∧ read = s := by
  constructor
  intro s b s' isPre isRun
  cases isRun
  exact ⟨isPre, rfl⟩

/-- A computation that does not change the state. -/
theorem unchanged (same : ∀ s a s', call s = some (a, s') → s' = s) : Ensures pre call fun _ => pre := by
  constructor
  intro s a s' holds isRun
  rw [same s a s' isRun]
  exact holds

theorem read {pre : σ → Prop} : Ensures pre MonadState.get fun _ => pre := by
  apply unchanged
  intro s a s' isRun
  cases isRun
  rfl

theorem failure : Ensures pre (Alternative.failure : StateT σ Option α) post := by
  constructor
  intro s b s' _ isRun
  cases isRun

theorem mono (ensures : Ensures pre call post) (weaker : ∀ s, pre' s → pre s)
    (stronger : ∀ a s, post a s → post' a s) : Ensures pre' call post' :=
  ⟨fun isPre isRun => stronger _ _ (ensures.returns (weaker _ isPre) isRun)⟩

theorem strengthen (ensures : Ensures pre call post) (weaker : ∀ s, pre' s → pre s) :
    Ensures pre' call post :=
  ensures.mono weaker fun _ _ holds => holds

/-- The state before the computation is fixed. -/
theorem of_state (each : ∀ s, pre s → Ensures (· = s) call post) : Ensures pre call post :=
  ⟨fun isPre isRun => (each _ isPre).returns rfl isRun⟩

end Ensures

end ZyOs.Lib
