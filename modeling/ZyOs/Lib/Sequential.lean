import ZyOs.Lib.Interleaving

/-!
Contract: code of one task that runs by itself.

Owns:
- `Code.alone`: the run without another task in between, and that it is a run of the
  system;
- `Simulates`: in what another state shows of the shared one, the code alone is a
  function; the rules for a sequence, for actions and for the end.

Does not own: what the actions do.
-/

namespace ZyOs.Lib

namespace Code

variable {σ ι α β μ : Type}

/-- The state and the result of code that runs by itself; `none` where it does not come
to an end. -/
def alone : Code σ ι α → σ → Option (σ × α)
  | .done result, s => some (s, result)
  | .halt, _ => none
  | .action _ enabled effect next, s => if enabled s = true then (next s).alone (effect s) else none

theorem alone_bind (code : Code σ ι α) (rest : α → Code σ ι β) (s : σ) :
    (code >>= rest).alone s = (code.alone s).bind fun after => (rest after.2).alone after.1 := by
  show (code.bind rest).alone s = _
  induction code generalizing s with
  | done result => rfl
  | halt => rfl
  | action label enabled effect next inductionHypothesis =>
      simp only [Code.bind, alone]
      split
      · exact inductionHypothesis s (effect s)
      · rfl

@[simp] theorem alone_read (label : ι) (value : σ → α) (s : σ) : (read label value).alone s = some (s, value s) :=
  rfl

@[simp] theorem alone_write (label : ι) (effect : σ → σ) (s : σ) :
    (write label effect).alone s = some (effect s, ()) := rfl

/-! ### Functions of what is shown -/

/-- In what `view` shows of the state, the code alone is the function. -/
def Simulates (view : σ → μ) (code : Code σ ι α) (f : μ → Option (μ × α)) : Prop :=
  ∀ s, (code.alone s).map (fun after => (view after.1, after.2)) = f (view s)

variable {view : σ → μ} {code : Code σ ι α} {f : μ → Option (μ × α)}

theorem Simulates.bind {rest : α → Code σ ι β} {g : α → μ → Option (μ × β)} (first : Simulates view code f)
    (second : ∀ result, Simulates view (rest result) (g result)) :
    Simulates view (code >>= rest) fun m => (f m).bind fun after => g after.2 after.1 := by
  intro s
  show _ = (f (view s)).bind fun after => g after.2 after.1
  rw [alone_bind, ← first s]
  cases code.alone s with
  | none => rfl
  | some after => exact second after.2 after.1

theorem Simulates.congr {f' : μ → Option (μ × α)} (simulates : Simulates view code f) (same : ∀ m, f m = f' m) :
    Simulates view code f' :=
  fun s => (simulates s).trans (same (view s))

theorem simulates_pure (result : α) :
    Simulates view (pure result : Code σ ι α) fun m => some (m, result) := fun _ => rfl

theorem simulates_write (label : ι) {effect : σ → σ} {shown : μ → μ} (same : ∀ s, view (effect s) = shown (view s)) :
    Simulates view (Code.write label effect) fun m => some (shown m, ()) := by
  intro s
  show some (view (effect s), ()) = some (shown (view s), ())
  rw [same]

end Code

/-! ### Runs of the system -/

section

variable {Task σ ι α : Type} [DecidableEq Task] {calls : Task → Code σ ι Unit → Prop}

/-- Code that comes to an end alone does so in a run of the system. -/
theorem System.run_alone {code : Code σ ι α} {rest : α → Code σ ι Unit} {c : System Task σ ι} {t : Task} {s' : σ}
    {result : α} (isCode : c.code t = code.bind rest) (isRun : code.alone c.shared = some (s', result)) :
    System.Run calls (fun _ _ _ => True) c ⟨s', Function.update c.code t (rest result)⟩ := by
  induction code generalizing c with
  | done last =>
      cases isRun
      have same : Function.update c.code t (rest result) = c.code := by
        rw [Function.update_eq_self_iff]
        exact isCode.symm
      rw [same]
      exact .refl
  | halt => cases isRun
  | action label enabled effect next inductionHypothesis =>
      unfold Code.alone at isRun
      split at isRun
      · rename_i isEnabled
        let c₁ : System Task σ ι := ⟨effect c.shared, Function.update c.code t ((next c.shared).bind rest)⟩
        have step : System.Step calls (fun _ _ _ => True) c c₁ := .act isCode trivial isEnabled
        have isNext : c₁.code t = (next c.shared).bind rest := Function.update_self ..
        have run := inductionHypothesis c.shared isNext isRun
        rw [show c₁.code = Function.update c.code t ((next c.shared).bind rest) from rfl,
          Function.update_idem] at run
        exact .head step run
      · cases isRun

end

end ZyOs.Lib
