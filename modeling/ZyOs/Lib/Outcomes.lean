import Mathlib.Order.Defs.Unbundled

/-!
Computations that return or stop: `Except`, and `EStateM`, which leaves a state on every
way out.

Owns:
- one computation after another, when the first returns and when both do;
- `Moves`, a relation from the state before to the state after, whether the computation
  returns or stops, and the rule for each way to put computations together.
-/

namespace ZyOs.Lib

section

variable {ε α β : Type} {call : Except ε α} {next : α → Except ε β}

/-- One computation after the other returns exactly when both do. -/
theorem ok_bind_iff {b : β} : (call >>= next) = .ok b ↔ ∃ a, call = .ok a ∧ next a = .ok b := by
  cases call with
  | ok a =>
      constructor
      · exact fun isRun => ⟨a, rfl, isRun⟩
      · rintro ⟨a', isFirst, isNext⟩
        cases isFirst
        exact isNext
  | error e =>
      constructor
      · intro isRun
        cases isRun
      · rintro ⟨a, isFirst, -⟩
        cases isFirst

end

/-- The state that a computation leaves. -/
def stateAfter {ε σ α : Type} : EStateM.Result ε σ α → σ
  | .ok _ s => s
  | .error _ s => s

section

variable {ε σ α β : Type} {rel : σ → σ → Prop} {call : EStateM ε σ α} {next : α → EStateM ε σ β}

/-- After a computation that returns comes the next one. -/
theorem bind_of_ok {s s₁ : σ} {a : α} (isFirst : call s = .ok a s₁) : (call >>= next) s = next a s₁ := by
  show (match call s with | .ok a s' => next a s' | .error e s' => EStateM.Result.error e s') = _
  rw [isFirst]

/-- One computation after the other returns: both do. -/
theorem bind_eq_ok {s s' : σ} {b : β} (isRun : (call >>= next) s = .ok b s') :
    ∃ a s₁, call s = .ok a s₁ ∧ next a s₁ = .ok b s' := by
  cases isFirst : call s with
  | ok a s₁ =>
      rw [bind_of_ok isFirst] at isRun
      exact ⟨a, s₁, rfl, isRun⟩
  | error e s₁ =>
      change (match call s with | .ok a s' => next a s' | .error e s' => EStateM.Result.error e s') = _ at isRun
      rw [isFirst] at isRun
      cases isRun

/-- From every state, the state after a computation is related to it. -/
structure Moves (rel : σ → σ → Prop) (call : EStateM ε σ α) : Prop where
  after : ∀ s, rel s (stateAfter (call s))

namespace Moves

theorem of_ok (moves : Moves rel call) {s s' : σ} {a : α} (isRun : call s = .ok a s') : rel s s' := by
  have after := moves.after s
  rw [isRun] at after
  exact after

theorem pure [Std.Refl rel] (a : α) : Moves rel (Pure.pure a : EStateM ε σ α) := ⟨fun s => refl s⟩

theorem throw [Std.Refl rel] (e : ε) : Moves rel (MonadExcept.throw e : EStateM ε σ α) := ⟨fun s => refl s⟩

theorem get [Std.Refl rel] : Moves rel (MonadState.get : EStateM ε σ σ) := ⟨fun s => refl s⟩

theorem bind [IsTrans σ rel] (first : Moves rel call) (rest : ∀ a, Moves rel (next a)) :
    Moves rel (call >>= next) := by
  constructor
  intro s
  have moved := first.after s
  cases isFirst : call s with
  | ok a s₁ =>
      rw [isFirst] at moved
      rw [bind_of_ok isFirst]
      exact IsTrans.trans _ _ _ moved ((rest a).after s₁)
  | error e s₁ =>
      rw [isFirst] at moved
      have isRun : (call >>= next) s = .error e s₁ := by
        show (match call s with | .ok a s' => next a s' | .error e s' => EStateM.Result.error e s') = _
        rw [isFirst]
      rw [isRun]
      exact moved

theorem ite {cond : Prop} [Decidable cond] {other : EStateM ε σ α} (isThen : Moves rel call)
    (isElse : Moves rel other) : Moves rel (if cond then call else other) := by
  split
  · exact isThen
  · exact isElse

end Moves

end

end ZyOs.Lib
