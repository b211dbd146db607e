import ZyOs.Lib.DoublyLinked
import Mathlib.Data.Set.Function

/-!
Contract: programs spelled out access by access, on a flat memory and on one behind
page tables and a TLB.

Owns:
- `Prog`, the accesses of a program and what it goes on with, and its two meanings: `run` on
  the words of a flat memory, `runPaged` on those of a physical one;
- translation: an access takes the TLB's entry for its page when there is one, else the frame
  that the page tables name, which then is the TLB's entry; a page that has neither faults;
- `Within`, that every access of a program lies on the pages of a set;
- the simulation between the two meanings, on pages for which the TLB says what the page
  tables say.

Does not own: what fills the page tables, and what takes entries out of the TLB.
-/

namespace ZyOs.Lib

/-- `count` bytes from `cell` on are cleared. -/
def clearWords (m : Words) (cell count : Nat) : Words :=
  fun x => if cell ≤ x ∧ x < cell + count then 0 else m x

/-- A program that stops with an `ε` or returns an `α`. -/
inductive Prog (ε α : Type) where
  | pure (value : α)
  | fail (stop : ε)
  | read (cell : Nat) (next : Nat → Prog ε α)
  | write (cell value : Nat) (next : Prog ε α)
  | clear (cell count : Nat) (next : Prog ε α)

namespace Prog

variable {ε α β : Type}

def bind : Prog ε α → (α → Prog ε β) → Prog ε β
  | .pure value, f => f value
  | .fail stop, _ => .fail stop
  | .read cell next, f => .read cell fun value => (next value).bind f
  | .write cell value next, f => .write cell value (next.bind f)
  | .clear cell count next, f => .clear cell count (next.bind f)

instance : Monad (Prog ε) where
  pure := .pure
  bind := .bind

def load (cell : Nat) : Prog ε Nat := .read cell .pure

def store (cell value : Nat) : Prog ε Unit := .write cell value (.pure ())

/-- The bytes from `low` up to `high`, page by page. -/
def zero (size : Nat) : Nat → Nat → Nat → Prog ε Unit
  | 0, _, _ => .pure ()
  | left + 1, low, high =>
      if low < high then
        .clear low (min high ((low / size + 1) * size) - low) (zero size left ((low / size + 1) * size) high)
      else
        .pure ()

@[simp] theorem pure_bind (value : α) (f : α → Prog ε β) : (Pure.pure value >>= f) = f value := rfl

@[simp] theorem load_bind (cell : Nat) (f : Nat → Prog ε β) : (load cell >>= f) = .read cell f := rfl

@[simp] theorem store_bind (cell value : Nat) (f : Unit → Prog ε β) :
    (store cell value >>= f) = .write cell value (f ()) := rfl

/-! ### On a flat memory -/

def run : Prog ε α → Words → Except ε (α × Words)
  | .pure value, m => .ok (value, m)
  | .fail stop, _ => .error stop
  | .read cell next, m => (next (m cell)).run m
  | .write cell value next, m => next.run (Function.update m cell value)
  | .clear cell count next, m => next.run (clearWords m cell count)

@[simp] theorem run_read (cell : Nat) (next : Nat → Prog ε α) (m : Words) :
    (read cell next).run m = (next (m cell)).run m := rfl

@[simp] theorem run_write (cell value : Nat) (next : Prog ε α) (m : Words) :
    (write cell value next).run m = next.run (Function.update m cell value) := rfl

@[simp] theorem run_load (cell : Nat) (m : Words) : (load cell : Prog ε Nat).run m = .ok (m cell, m) := rfl

@[simp] theorem run_store (cell value : Nat) (m : Words) :
    (store cell value : Prog ε Unit).run m = .ok ((), Function.update m cell value) := rfl

/-- A program that goes on after another one. -/
theorem run_bind (prog : Prog ε α) (f : α → Prog ε β) (m : Words) :
    (prog >>= f).run m = (prog.run m).bind fun result => (f result.1).run result.2 := by
  change (prog.bind f).run m = _
  induction prog generalizing m with
  | pure value => rfl
  | fail stop => rfl
  | read cell next inductionHypothesis => exact inductionHypothesis (m cell) m
  | write cell value next inductionHypothesis => exact inductionHypothesis _
  | clear cell count next inductionHypothesis => exact inductionHypothesis _

theorem run_bind_ok {prog : Prog ε α} {m m' : Words} {value : α} (f : α → Prog ε β)
    (isRun : prog.run m = .ok (value, m')) : (prog >>= f).run m = (f value).run m' := by
  rw [run_bind, isRun]
  rfl

/-- Clearing goes on where the last page ended. -/
theorem run_zero {size : Nat} (positive : 0 < size) (low high : Nat) {left : Nat} (m : Words)
    (enough : high ≤ low + left) :
    (zero size left low high : Prog ε Unit).run m = .ok ((), clearWords m low (high - low)) := by
  induction left generalizing low m with
  | zero =>
      have nothing : clearWords m low (high - low) = m := by
        funext x
        exact if_neg (by omega)
      rw [nothing]
      rfl
  | succ left inductionHypothesis =>
      unfold zero
      split
      · rename_i isLow
        have later : low < (low / size + 1) * size := Nat.lt_mul_of_div_lt (Nat.lt_succ_self _) positive
        have rest := inductionHypothesis ((low / size + 1) * size)
          (clearWords m low (min high ((low / size + 1) * size) - low)) (by omega)
        refine rest.trans (congrArg (fun m' => Except.ok ((), m')) (funext fun x => ?_))
        unfold clearWords
        split_ifs <;> first | rfl | omega
      · have nothing : clearWords m low (high - low) = m := by
          funext x
          exact if_neg (by omega)
        rw [nothing]
        rfl

end Prog

/-! ### Behind page tables and a TLB -/

/-- Words by physical address, the frame that the page tables name for a page, and the
TLB's entry for it. -/
structure Paged where
  words : Words
  table : Nat → Option Nat
  tlb : Nat → Option Nat

/-- How a program stops: by itself, or on a page that is not mapped. -/
inductive AccessStop (ε : Type) where
  | fail (stop : ε)
  | pageFault (cell : Nat)
deriving DecidableEq, Repr

namespace Paged

/-- The frame that an access to the page goes to. -/
def frameOf (m : Paged) (page : Nat) : Option Nat := (m.tlb page).or (m.table page)

def translate (size : Nat) (m : Paged) (cell : Nat) : Option Nat :=
  (m.frameOf (cell / size)).map fun frame => frame * size + cell % size

/-- An access leaves the entry it has used in the TLB. -/
def touch (m : Paged) (page : Nat) : Paged :=
  { m with tlb := Function.update m.tlb page (m.frameOf page) }

/-- The words that an access would find. -/
def view (size : Nat) (m : Paged) : Words :=
  fun cell => (m.translate size cell).elim 0 m.words

end Paged

def Prog.runPaged {ε α : Type} (size : Nat) : Prog ε α → Paged → Except (AccessStop ε) (α × Paged)
  | .pure value, m => .ok (value, m)
  | .fail stop, _ => .error (.fail stop)
  | .read cell next, m =>
      match m.translate size cell with
      | none => .error (.pageFault cell)
      | some a => (next (m.words a)).runPaged size (m.touch (cell / size))
  | .write cell value next, m =>
      match m.translate size cell with
      | none => .error (.pageFault cell)
      | some a =>
          next.runPaged size { m.touch (cell / size) with words := Function.update m.words a value }
  | .clear cell count next, m =>
      match m.translate size cell with
      | none => .error (.pageFault cell)
      | some a =>
          next.runPaged size { m.touch (cell / size) with words := clearWords m.words a count }

/-! ### Where the TLB says what the page tables say -/

/-- The addresses on the pages of a set. -/
def onPages (size : Nat) (pages : Set Nat) : Set Nat := { cell | cell / size ∈ pages }

/-- The pages are mapped to frames of their own, and the TLB has no other entry for them. -/
structure Paged.Coherent (m : Paged) (pages : Set Nat) : Prop where
  mapped : ∀ page ∈ pages, ∃ frame, m.table page = some frame
  entry : ∀ page ∈ pages, ∀ frame, m.tlb page = some frame → m.table page = some frame
  distinct : Set.InjOn m.table pages

namespace Paged.Coherent

variable {size : Nat} {m m' : Paged} {pages pages' : Set Nat}

theorem frameOf (coherent : m.Coherent pages) {page : Nat} (mem : page ∈ pages) :
    m.frameOf page = m.table page := by
  unfold Paged.frameOf
  cases isEntry : m.tlb page with
  | none => rfl
  | some frame => exact (coherent.entry page mem frame isEntry).symm

theorem translate (coherent : m.Coherent pages) {cell : Nat} (mem : cell / size ∈ pages) :
    ∃ frame, m.table (cell / size) = some frame ∧
      m.translate size cell = some (frame * size + cell % size) := by
  obtain ⟨frame, isFrame⟩ := coherent.mapped _ mem
  refine ⟨frame, isFrame, ?_⟩
  unfold Paged.translate
  rw [coherent.frameOf mem, isFrame]
  rfl

/-- Only the tables and the entries of the pages count. -/
theorem congr (coherent : m.Coherent pages) (sub : pages' ⊆ pages)
    (table : ∀ page ∈ pages', m'.table page = m.table page)
    (tlb : ∀ page ∈ pages', m'.tlb page = none ∨ m'.tlb page = m.tlb page ∨ m'.tlb page = m.table page) :
    m'.Coherent pages' where
  mapped page mem := by
    rw [table page mem]
    exact coherent.mapped page (sub mem)
  entry page mem frame isEntry := by
    rw [table page mem]
    rcases tlb page mem with none | same | walked
    · rw [none] at isEntry
      cases isEntry
    · exact coherent.entry page (sub mem) frame (same ▸ isEntry)
    · exact walked ▸ isEntry
  distinct page mem other memOther same := by
    rw [table page mem, table other memOther] at same
    exact coherent.distinct (sub mem) (sub memOther) same

theorem touch (coherent : m.Coherent pages) (page : Nat) : (m.touch page).Coherent pages := by
  refine coherent.congr (Set.Subset.refl _) (fun _ _ => rfl) fun other mem => ?_
  by_cases same : other = page
  · subst same
    refine .inr (.inr ?_)
    rw [← coherent.frameOf mem]
    exact Function.update_self _ _ _
  · exact .inr (.inl (Function.update_of_ne same _ _))

/-- Two addresses on the pages share a physical one only when they are one. -/
theorem translate_inj (positive : 0 < size) (coherent : m.Coherent pages) {cell other a : Nat}
    (mem : cell / size ∈ pages) (memOther : other / size ∈ pages)
    (isCell : m.translate size cell = some a) (isOther : m.translate size other = some a) :
    cell = other := by
  obtain ⟨frame, isFrame, goes⟩ := coherent.translate mem
  obtain ⟨frame', isFrame', goes'⟩ := coherent.translate memOther
  rw [isCell, Option.some.injEq] at goes
  rw [isOther, Option.some.injEq] at goes'
  have sameFrame : frame = frame' := by
    have div : ∀ f c, (f * size + c % size) / size = f := by
      intro f c
      rw [Nat.mul_comm, Nat.mul_add_div positive, Nat.div_eq_of_lt (Nat.mod_lt c positive), Nat.add_zero]
    rw [← div frame cell, ← goes, goes', div]
  have samePage := coherent.distinct mem memOther (by rw [isFrame, isFrame', sameFrame])
  have sameRest : cell % size = other % size := by
    rw [sameFrame] at goes
    omega
  rw [← Nat.div_add_mod cell size, ← Nat.div_add_mod other size, samePage, sameRest]

end Paged.Coherent

/-! ### The simulation -/

/-- Every access of the program, run on the flat memory, lies on the pages, and what it
clears at once lies on one page. -/
def Prog.Within {ε α : Type} (size : Nat) (pages : Set Nat) : Prog ε α → Words → Prop
  | .pure _, _ => True
  | .fail _, _ => True
  | .read cell next, m => cell / size ∈ pages ∧ (next (m cell)).Within size pages m
  | .write cell value next, m =>
      cell / size ∈ pages ∧ next.Within size pages (Function.update m cell value)
  | .clear cell count next, m =>
      cell / size ∈ pages ∧ cell % size + count ≤ size ∧ next.Within size pages (clearWords m cell count)

/-- What a run behind the TLB makes of a run on the flat memory. -/
inductive Follows {ε α : Type} (size : Nat) (pages : Set Nat) (m : Paged) :
    Except ε (α × Words) → Except (AccessStop ε) (α × Paged) → Prop where
  | stop (stop : ε) : Follows size pages m (.error stop) (.error (.fail stop))
  | ok {value : α} {w : Words} {m' : Paged} (table : m'.table = m.table) (coherent : m'.Coherent pages)
      (others : ∀ page ∉ pages, m'.tlb page = m.tlb page)
      (shown : Set.EqOn (m'.view size) w (onPages size pages)) :
      Follows size pages m (.ok (value, w)) (.ok (value, m'))

/-- After one access to one of the pages. -/
theorem Follows.of_touch {ε α : Type} {size : Nat} {pages : Set Nat} {m m₁ : Paged} {page : Nat}
    {flat : Except ε (α × Words)} {outcome : Except (AccessStop ε) (α × Paged)}
    (follows : Follows size pages m₁ flat outcome) (mem : page ∈ pages) (table : m₁.table = m.table)
    (tlb : m₁.tlb = (m.touch page).tlb) : Follows size pages m flat outcome := by
  cases follows with
  | stop stop => exact .stop stop
  | ok table' coherent others shown =>
      refine .ok (table'.trans table) coherent (fun other notMem => ?_) shown
      have ne : other ≠ page := by
        rintro rfl
        exact notMem mem
      rw [others other notMem, tlb]
      exact Function.update_of_ne ne _ _

section

variable {ε α β : Type} {size : Nat} {pages : Set Nat} {m m' : Paged} {w : Words}

theorem Paged.view_of_translate {cell a : Nat} (isTranslated : m.translate size cell = some a) :
    m.view size cell = m.words a := by
  unfold Paged.view
  rw [isTranslated]
  rfl

/-- After the same translations, the views differ where the words do. -/
theorem Paged.Coherent.view_congr (coherent : m.Coherent pages) (coherent' : m'.Coherent pages)
    (table : m'.table = m.table) {cell : Nat} (mem : cell / size ∈ pages) :
    ∃ a, m.translate size cell = some a ∧ m.view size cell = m.words a ∧ m'.view size cell = m'.words a := by
  obtain ⟨frame, isFrame, goes⟩ := coherent.translate mem
  obtain ⟨frame', isFrame', goes'⟩ := coherent'.translate mem
  rw [table, isFrame, Option.some.injEq] at isFrame'
  subst isFrame'
  exact ⟨_, goes, view_of_translate goes, view_of_translate goes'⟩

/-- A write to the physical word is one to the word that is shown. -/
theorem Paged.Coherent.view_update (positive : 0 < size) (coherent : m.Coherent pages) {cell a : Nat}
    (mem : cell / size ∈ pages) (isTranslated : m.translate size cell = some a) (value : Nat)
    (shown : Set.EqOn (m.view size) w (onPages size pages)) :
    Set.EqOn ((Paged.mk (Function.update m.words a value) m.table (m.touch (cell / size)).tlb).view size)
      (Function.update w cell value) (onPages size pages) := by
  intro other memOther
  have after : (Paged.mk (Function.update m.words a value) m.table (m.touch (cell / size)).tlb).Coherent pages :=
    (coherent.touch (cell / size)).congr (Set.Subset.refl _) (fun _ _ => rfl) fun _ _ => .inr (.inl rfl)
  obtain ⟨b, goes, before, now⟩ := coherent.view_congr after rfl memOther
  rw [now]
  change Function.update m.words a value b = _
  by_cases same : other = cell
  · subst same
    rw [isTranslated, Option.some.injEq] at goes
    rw [goes, Function.update_self, Function.update_self]
  · have apart : b ≠ a := by
      rintro rfl
      exact same (coherent.translate_inj positive memOther mem goes isTranslated)
    rw [Function.update_of_ne apart, Function.update_of_ne same, ← before]
    exact shown memOther

/-- Clearing inside one frame is clearing inside the page. -/
theorem Paged.Coherent.view_clear (positive : 0 < size) (coherent : m.Coherent pages) {cell count a : Nat}
    (mem : cell / size ∈ pages) (onePage : cell % size + count ≤ size)
    (isTranslated : m.translate size cell = some a)
    (shown : Set.EqOn (m.view size) w (onPages size pages)) :
    Set.EqOn ((Paged.mk (clearWords m.words a count) m.table (m.touch (cell / size)).tlb).view size)
      (clearWords w cell count) (onPages size pages) := by
  intro other memOther
  have after : (Paged.mk (clearWords m.words a count) m.table (m.touch (cell / size)).tlb).Coherent pages :=
    (coherent.touch (cell / size)).congr (Set.Subset.refl _) (fun _ _ => rfl) fun _ _ => .inr (.inl rfl)
  obtain ⟨b, goes, before, now⟩ := coherent.view_congr after rfl memOther
  have kept : m.words b = w other := by
    rw [← before]
    exact shown memOther
  have inRange : (a ≤ b ∧ b < a + count) ↔ cell ≤ other ∧ other < cell + count := by
    obtain ⟨frame, isFrame, toA⟩ := coherent.translate mem
    obtain ⟨frame', isFrame', toB⟩ := coherent.translate memOther
    rw [isTranslated, Option.some.injEq] at toA
    rw [goes, Option.some.injEq] at toB
    have splitCell := Nat.div_add_mod' cell size
    have splitOther := Nat.div_add_mod' other size
    have small := Nat.mod_lt other positive
    by_cases samePage : other / size = cell / size
    · rw [samePage] at isFrame' splitOther
      rw [isFrame, Option.some.injEq] at isFrame'
      subst isFrame'
      omega
    · have sameFrame : frame' ≠ frame := by
        rintro rfl
        exact samePage (coherent.distinct memOther mem (isFrame'.trans isFrame.symm))
      have apart : ∀ i j, i ≠ j → i * size + size ≤ j * size ∨ j * size + size ≤ i * size := by
        intro i j ne
        rw [← Nat.succ_mul, ← Nat.succ_mul]
        rcases Nat.lt_or_gt_of_ne ne with lt | lt
        · exact .inl (Nat.mul_le_mul_right size lt)
        · exact .inr (Nat.mul_le_mul_right size lt)
      have frames := apart _ _ sameFrame
      have pagesApart := apart _ _ samePage
      constructor
      · intro inside
        omega
      · intro inside
        omega
  rw [now]
  change clearWords m.words a count b = _
  unfold clearWords
  rw [kept]
  exact if_congr inRange rfl rfl

/-- A program that stays within pages for which the TLB says what the page tables say does what
it does on the memory that these pages show, and faults on none of them. -/
theorem Prog.Within.follows (positive : 0 < size) {prog : Prog ε α} (within : prog.Within size pages w)
    (coherent : m.Coherent pages) (shown : Set.EqOn (m.view size) w (onPages size pages)) :
    Follows size pages m (prog.run w) (prog.runPaged size m) := by
  induction prog generalizing m w with
  | pure value => exact .ok rfl coherent (fun _ _ => rfl) shown
  | fail stop => exact .stop stop
  | read cell next inductionHypothesis =>
      obtain ⟨mem, rest⟩ := within
      obtain ⟨frame, isFrame, goes⟩ := coherent.translate mem
      have value : m.words (frame * size + cell % size) = w cell := by
        rw [← Paged.view_of_translate goes]
        exact shown mem
      have after := coherent.touch (cell / size)
      unfold runPaged
      rw [goes]
      simp only [value]
      refine (inductionHypothesis (w cell) rest after fun other memOther => ?_).of_touch mem rfl rfl
      obtain ⟨a, _, before, now⟩ := coherent.view_congr after rfl memOther
      exact now.trans (before.symm.trans (shown memOther))
  | write cell value next inductionHypothesis =>
      obtain ⟨mem, rest⟩ := within
      obtain ⟨frame, isFrame, goes⟩ := coherent.translate mem
      unfold runPaged
      rw [goes]
      refine (inductionHypothesis rest ?_ (coherent.view_update positive mem goes value shown)).of_touch mem rfl rfl
      exact (coherent.touch (cell / size)).congr (Set.Subset.refl _) (fun _ _ => rfl) fun _ _ => .inr (.inl rfl)
  | clear cell count next inductionHypothesis =>
      obtain ⟨mem, onePage, rest⟩ := within
      obtain ⟨frame, isFrame, goes⟩ := coherent.translate mem
      unfold runPaged
      rw [goes]
      refine (inductionHypothesis rest ?_ (coherent.view_clear positive mem onePage goes shown)).of_touch mem rfl rfl
      exact (coherent.touch (cell / size)).congr (Set.Subset.refl _) (fun _ _ => rfl) fun _ _ => .inr (.inl rfl)

/-! ### Programs that stay within their pages -/

@[simp] theorem Prog.within_pure (value : α) : (Pure.pure value : Prog ε α).Within size pages w := trivial

@[simp] theorem Prog.within_read {cell : Nat} {next : Nat → Prog ε α} :
    (Prog.read cell next).Within size pages w ↔
      cell / size ∈ pages ∧ (next (w cell)).Within size pages w := Iff.rfl

@[simp] theorem Prog.within_write {cell value : Nat} {next : Prog ε α} :
    (Prog.write cell value next).Within size pages w ↔
      cell / size ∈ pages ∧ next.Within size pages (Function.update w cell value) := Iff.rfl

@[simp] theorem Prog.within_store {cell value : Nat} :
    (Prog.store cell value : Prog ε Unit).Within size pages w ↔ cell / size ∈ pages := by
  exact and_iff_left trivial

@[simp] theorem Prog.within_load {cell : Nat} :
    (Prog.load cell : Prog ε Nat).Within size pages w ↔ cell / size ∈ pages := by
  exact and_iff_left trivial

theorem Prog.Within.bind {prog : Prog ε α} {f : α → Prog ε β} (within : prog.Within size pages w)
    (rest : ∀ value w', prog.run w = .ok (value, w') → (f value).Within size pages w') :
    (prog >>= f).Within size pages w := by
  change (Prog.bind prog f).Within size pages w
  induction prog generalizing w with
  | pure value => exact rest value w rfl
  | fail stop => trivial
  | read cell next inductionHypothesis => exact ⟨within.1, inductionHypothesis _ within.2 rest⟩
  | write cell value next inductionHypothesis => exact ⟨within.1, inductionHypothesis within.2 rest⟩
  | clear cell count next inductionHypothesis =>
      exact ⟨within.1, within.2.1, inductionHypothesis within.2.2 rest⟩

/-- Clearing a range touches the pages of its bytes. -/
theorem Prog.within_zero (positive : 0 < size) {low high : Nat} {left : Nat}
    (inside : ∀ cell, low ≤ cell → cell < high → cell / size ∈ pages) :
    (Prog.zero size left low high : Prog ε Unit).Within size pages w := by
  induction left generalizing low w with
  | zero => trivial
  | succ left inductionHypothesis =>
      unfold Prog.zero
      split
      · rename_i isLow
        have later : low < (low / size + 1) * size := Nat.lt_mul_of_div_lt (Nat.lt_succ_self _) positive
        refine ⟨inside low (Nat.le_refl _) isLow, ?_, inductionHypothesis fun cell from_ below => ?_⟩
        · have split := Nat.div_add_mod' low size
          rw [Nat.succ_mul] at later ⊢
          omega
        · exact inside cell (by omega) below
      · trivial

end

end ZyOs.Lib
