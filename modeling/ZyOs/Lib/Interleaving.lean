import Mathlib.Logic.Relation
import Mathlib.Tactic.Ring

/-!
Contract: code of several tasks whose atomic actions interleave, and a
rely-guarantee rule for it.

Owns:
- `Code`: straight-line and branching code as a tree of labelled atomic
  actions; a bounded loop is a recursive definition of a tree;
- `System`: a shared state and what each task still has to do;
- `Protocol` and `Safe`: an invariant, what a task relies on while others run,
  and what has to be shown of its code; `Protocol.run` carries this to every
  run.

Does not own: what the actions do.
-/

namespace ZyOs.Lib

/-- Code of a task. An action waits until it is `enabled`, then changes the
shared state at once; how the code continues may depend on the state the action
has seen. `halt` is a failed assertion: nothing follows it. -/
inductive Code (σ ι α : Type) where
  | done (result : α)
  | halt
  | action (label : ι) (enabled : σ → Bool) (effect : σ → σ) (next : σ → Code σ ι α)

namespace Code

variable {σ ι α β : Type}

def bind : Code σ ι α → (α → Code σ ι β) → Code σ ι β
  | .done result, rest => rest result
  | .halt, _ => .halt
  | .action label enabled effect next, rest =>
      .action label enabled effect fun s => (next s).bind rest

instance : Monad (Code σ ι) where
  pure := .done
  bind := .bind

/-- An action that only reads. -/
def read (label : ι) (value : σ → α) : Code σ ι α :=
  .action label (fun _ => true) id fun s => .done (value s)

/-- An action that is always enabled. -/
def write (label : ι) (effect : σ → σ) : Code σ ι Unit :=
  .action label (fun _ => true) effect fun _ => .done ()

/-- An action that waits. -/
def await (label : ι) (enabled : σ → Bool) (effect : σ → σ) : Code σ ι Unit :=
  .action label enabled effect fun _ => .done ()

def isDone : Code σ ι α → Bool
  | .done _ => true
  | _ => false

theorem eq_done_of_isDone {code : Code σ ι Unit} (isDone : code.isDone = true) :
    code = .done () := by
  cases code with
  | done => rfl
  | halt => cases isDone
  | action => cases isDone

/-- The label of the next action. -/
def label : Code σ ι α → Option ι
  | .action label _ _ _ => some label
  | _ => none

end Code

/-- A shared state and the code each task still has to run; a task that is done
may start another call. -/
structure System (Task σ ι : Type) where
  shared : σ
  code : Task → Code σ ι Unit

section

variable {Task σ ι : Type}

/-- One step of one task. `calls` are the calls a task may start; `allowed` is a
condition on the actions of a run. -/
inductive System.Step [DecidableEq Task] (calls : Task → Code σ ι Unit → Prop) (allowed : Task → ι → σ → Prop) :
    System Task σ ι → System Task σ ι → Prop where
  | call {c : System Task σ ι} {t : Task} {body : Code σ ι Unit}
      (idle : c.code t = .done ()) (isCall : calls t body) :
      System.Step calls allowed c ⟨c.shared, Function.update c.code t body⟩
  | act {c : System Task σ ι} {t : Task} {label : ι} {enabled : σ → Bool} {effect : σ → σ}
      {next : σ → Code σ ι Unit} (code : c.code t = .action label enabled effect next)
      (isAllowed : allowed t label c.shared) (isEnabled : enabled c.shared = true) :
      System.Step calls allowed c
        ⟨effect c.shared, Function.update c.code t (next c.shared)⟩

def System.Run [DecidableEq Task] (calls : Task → Code σ ι Unit → Prop) (allowed : Task → ι → σ → Prop) :
    System Task σ ι → System Task σ ι → Prop :=
  Relation.ReflTransGen (System.Step calls allowed)

/-- The next action of a task, where it can be taken. -/
def System.act [DecidableEq Task] (allowed : Task → ι → σ → Prop)
    [∀ t label s, Decidable (allowed t label s)] (c : System Task σ ι) (t : Task) :
    Option (System Task σ ι) :=
  match c.code t with
  | .action label enabled effect next =>
      if allowed t label c.shared ∧ enabled c.shared = true then
        some ⟨effect c.shared, Function.update c.code t (next c.shared)⟩
      else
        none
  | _ => none

/-- The actions of the tasks in the order of a list. -/
def System.acts [DecidableEq Task] (allowed : Task → ι → σ → Prop)
    [∀ t label s, Decidable (allowed t label s)] :
    List Task → System Task σ ι → Option (System Task σ ι)
  | [], c => some c
  | t :: rest, c => (c.act allowed t).bind (System.acts allowed rest)

theorem System.acts_run [DecidableEq Task] {calls : Task → Code σ ι Unit → Prop}
    {allowed : Task → ι → σ → Prop} [∀ t label s, Decidable (allowed t label s)]
    {order : List Task} :
    ∀ {c c' : System Task σ ι}, System.acts allowed order c = some c' →
      System.Run calls allowed c c' := by
  induction order with
  | nil =>
      rintro c c' ⟨⟩
      exact .refl
  | cons t rest inductionHypothesis =>
      intro c c' acted
      obtain ⟨next, first, restActed⟩ := Option.bind_eq_some_iff.mp acted
      refine .head ?_ (inductionHypothesis restActed)
      unfold System.act at first
      split at first
      · rename_i code
        split at first
        · rename_i conditions
          cases first
          exact .act code conditions.1 conditions.2
        · cases first
      · cases first

/-- The rules the tasks keep to. `rely t` is what the steps of other tasks do
from the point of view of `t`; `good t label` holds whenever `t` is about to do
an action with this label; `idle t` holds while `t` runs no call. -/
structure Protocol (Task σ ι : Type) where
  inv : σ → Prop
  rely : Task → σ → σ → Prop
  allowed : Task → ι → σ → Prop
  good : Task → ι → σ → Prop
  idle : Task → σ → Prop
  rely_refl : ∀ t s, rely t s s
  rely_trans : ∀ t {s u v}, rely t s u → rely t u v → rely t s v

namespace Protocol

variable (P : Protocol Task σ ι) {α β : Type}

/-- A step from `s` to `s'` that task `t` may take. -/
def Guarantee (t : Task) (s s' : σ) : Prop :=
  (P.inv s → P.inv s') ∧ ∀ other, other ≠ t → P.rely other s s'

/-- Task `t` may run the code from `s` on, whatever the other tasks do in
between, and `post` holds at its end. -/
def Safe (t : Task) (post : α → σ → Prop) : Code σ ι α → σ → Prop
  | .done result, s => ∀ s', P.rely t s s' → P.inv s' → post result s'
  | .halt, _ => True
  | .action label enabled effect next, s =>
      ∀ s', P.rely t s s' → P.inv s' → P.good t label s' ∧
        (P.allowed t label s' → enabled s' = true →
          P.Guarantee t s' (effect s') ∧ Safe t post (next s') (effect s'))

variable {P} {t : Task}

/-- Steps of other tasks keep code safe. -/
theorem Safe.of_rely {post : α → σ → Prop} {code : Code σ ι α} {s s' : σ}
    (safe : P.Safe t post code s) (rely : P.rely t s s') : P.Safe t post code s' := by
  cases code with
  | done result => exact fun u later => safe u (P.rely_trans t rely later)
  | halt => trivial
  | action label enabled effect next => exact fun u later => safe u (P.rely_trans t rely later)

theorem Safe.mono {post post' : α → σ → Prop} {code : Code σ ι α} {s : σ}
    (safe : P.Safe t post code s)
    (weaker : ∀ result s, P.inv s → post result s → post' result s) :
    P.Safe t post' code s := by
  induction code generalizing s with
  | done result => exact fun u later inv => weaker result u inv (safe u later inv)
  | halt => trivial
  | action label enabled effect next inductionHypothesis =>
      intro u later inv
      obtain ⟨good, acts⟩ := safe u later inv
      refine ⟨good, fun isAllowed isEnabled => ?_⟩
      obtain ⟨guarantee, rest⟩ := acts isAllowed isEnabled
      exact ⟨guarantee, inductionHypothesis u rest⟩

theorem Safe.bind {post : α → σ → Prop} {final : β → σ → Prop} {code : Code σ ι α}
    {rest : α → Code σ ι β} {s : σ} (safe : P.Safe t post code s) (inv : P.inv s)
    (after : ∀ result s, P.inv s → post result s → P.Safe t final (rest result) s) :
    P.Safe t final (code >>= rest) s := by
  induction code generalizing s with
  | done result => exact after result s inv (safe s (P.rely_refl t s) inv)
  | halt => trivial
  | action label enabled effect next inductionHypothesis =>
      intro u later invU
      obtain ⟨good, acts⟩ := safe u later invU
      refine ⟨good, fun isAllowed isEnabled => ?_⟩
      obtain ⟨guarantee, restSafe⟩ := acts isAllowed isEnabled
      exact ⟨guarantee, inductionHypothesis u restSafe (guarantee.1 invU)⟩

/-- An action that only reads, and the code after it. -/
theorem Safe.read_bind {post : β → σ → Prop} {label : ι} {value : σ → α} {rest : α → Code σ ι β}
    {s : σ}
    (safe : ∀ s', P.rely t s s' → P.inv s' → P.good t label s' ∧
      (P.allowed t label s' → P.Safe t post (rest (value s')) s')) :
    P.Safe t post (Code.read label value >>= rest) s := by
  intro s' rely inv
  obtain ⟨good, acts⟩ := safe s' rely inv
  exact ⟨good, fun isAllowed _ => ⟨⟨id, fun other _ => P.rely_refl other s'⟩, acts isAllowed⟩⟩

/-- An action that writes, and the code after it. -/
theorem Safe.write_bind {post : β → σ → Prop} {label : ι} {effect : σ → σ}
    {rest : Unit → Code σ ι β} {s : σ}
    (safe : ∀ s', P.rely t s s' → P.inv s' → P.good t label s' ∧
      P.Guarantee t s' (effect s') ∧ P.Safe t post (rest ()) (effect s')) :
    P.Safe t post (Code.write label effect >>= rest) s := by
  intro s' rely inv
  obtain ⟨good, guarantee, restSafe⟩ := safe s' rely inv
  exact ⟨good, fun _ _ => ⟨guarantee, restSafe⟩⟩

/-- An action that waits, and the code after it. -/
theorem Safe.await_bind {post : β → σ → Prop} {label : ι} {enabled : σ → Bool} {effect : σ → σ}
    {rest : Unit → Code σ ι β} {s : σ}
    (safe : ∀ s', P.rely t s s' → P.inv s' → P.good t label s' ∧
      (enabled s' = true → P.Guarantee t s' (effect s') ∧ P.Safe t post (rest ()) (effect s'))) :
    P.Safe t post (Code.await label enabled effect >>= rest) s := by
  intro s' rely inv
  obtain ⟨good, acts⟩ := safe s' rely inv
  exact ⟨good, fun _ isEnabled => acts isEnabled⟩

/-- Code that is done. -/
theorem Safe.pure {post : α → σ → Prop} {result : α} {s : σ}
    (holds : ∀ s', P.rely t s s' → P.inv s' → post result s') :
    P.Safe t post (pure result : Code σ ι α) s :=
  holds

/-- Every state of a run from idle tasks keeps the invariant, and what is left
of every task's code is safe there. -/
theorem run [DecidableEq Task] {calls : Task → Code σ ι Unit → Prop}
    (callsSafe : ∀ t body, calls t body → ∀ s, P.inv s → P.idle t s →
      P.Safe t (fun _ => P.idle t) body s)
    {start c : System Task σ ι} (inv : P.inv start.shared)
    (idle : ∀ t, start.code t = .done () ∧ ∀ s, P.rely t start.shared s → P.inv s → P.idle t s)
    (steps : System.Run calls P.allowed start c) :
    P.inv c.shared ∧ ∀ t, P.Safe t (fun _ => P.idle t) (c.code t) c.shared := by
  induction steps with
  | refl =>
      refine ⟨inv, fun t => ?_⟩
      rw [(idle t).1]
      exact (idle t).2
  | tail _ step inductionHypothesis =>
      obtain ⟨invBefore, safe⟩ := inductionHypothesis
      cases step with
      | call isIdle isCall =>
          rename_i c t body
          refine ⟨invBefore, fun other => ?_⟩
          by_cases same : other = t
          · subst same
            have idleNow := safe other
            rw [isIdle] at idleNow
            simp only [Function.update_self]
            exact callsSafe other body isCall _ invBefore
              (idleNow _ (P.rely_refl other _) invBefore)
          · simpa only [Function.update_of_ne same] using safe other
      | act code isAllowed isEnabled =>
          rename_i c t label enabled effect next
          have mine := safe t
          rw [code] at mine
          obtain ⟨_, acts⟩ := mine _ (P.rely_refl t _) invBefore
          obtain ⟨guarantee, rest⟩ := acts isAllowed isEnabled
          refine ⟨guarantee.1 invBefore, fun other => ?_⟩
          by_cases same : other = t
          · subst same
            simpa only [Function.update_self] using rest
          · simpa only [Function.update_of_ne same] using
              (safe other).of_rely (guarantee.2 other same)

/-- What safe code is about to do is good. -/
theorem Safe.good {post : α → σ → Prop} {code : Code σ ι α} {s : σ} (safe : P.Safe t post code s)
    (inv : P.inv s) {label : ι} (isNext : code.label = some label) : P.good t label s := by
  cases code with
  | done result => simp [Code.label] at isNext
  | halt => simp [Code.label] at isNext
  | action first enabled effect next =>
      simp only [Code.label, Option.some.injEq] at isNext
      subst isNext
      exact (safe s (P.rely_refl t s) inv).1

end Protocol

end

end ZyOs.Lib
