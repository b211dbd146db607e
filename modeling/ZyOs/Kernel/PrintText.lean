import Mathlib.Data.List.Induction
import ZyOs.Kernel.Print

/-!
Contract: the text that `put_char` shows.

Owns:
- a screen of 2000 cells that scrolls by rows, and what each character does to it;
- that the display shows such a screen, after `cls_screen` and every character, unless a
  backspace comes at the top left corner;
- where a character is found after the ones behind it.
-/

namespace ZyOs.Kernel

/-! ### A screen of cells -/

/-- Characters by their place, the cursor, and how often the screen has scrolled. -/
structure Screen where
  cells : Nat → UInt8
  cursor : Nat
  rolls : Nat

/-- The characters that end a line. -/
def endsRow (char : UInt8) : Prop := char = 0x0d ∨ char = 0x0a

instance (char : UInt8) : Decidable (endsRow char) := inferInstanceAs (Decidable (_ ∨ _))

def isErase (char : UInt8) : Prop := char = 0x08

instance (char : UInt8) : Decidable (isErase char) := inferInstanceAs (Decidable (_ = _))

namespace Screen

def blank : Screen := ⟨fun _ => 0x20, 0, 0⟩

/-- Every row moves up. -/
def scroll (s : Screen) : Screen :=
  ⟨fun i => if i < 1920 then s.cells (i + 80) else 0x20, 1920, s.rolls + 1⟩

/-- The cursor goes to the next row. -/
def nextRow (s : Screen) : Screen :=
  if s.cursor < 1920 then { s with cursor := s.cursor / 80 * 80 + 80 } else s.scroll

def write (s : Screen) (i : Nat) (char : UInt8) : Screen :=
  { s with cells := Function.update s.cells i char }

def put (s : Screen) (char : UInt8) : Screen :=
  if endsRow char then s.nextRow
  else if isErase char then { s.write (s.cursor - 1) 0x20 with cursor := s.cursor - 1 }
  else if s.cursor < 1999 then { s.write s.cursor char with cursor := s.cursor + 1 }
  else (s.write s.cursor char).scroll

def putAll (s : Screen) (chars : List UInt8) : Screen := chars.foldl put s

/-- The cell that a character at the cursor changes. -/
def changes (cursor : Nat) (char : UInt8) (i : Nat) : Prop :=
  if endsRow char then False else if isErase char then i + 1 = cursor else i = cursor

variable {s : Screen} {char : UInt8} {i : Nat}

theorem rolls_le_put (s : Screen) (char : UInt8) : s.rolls ≤ (s.put char).rolls := by
  unfold put nextRow scroll write
  split
  · split <;> dsimp only <;> omega
  · split
    · exact Nat.le_refl _
    · split <;> dsimp only <;> omega

/-- A character that does not change a cell leaves it where it is, or takes it up a row. -/
theorem put_keeps (small : i < 2000) (apart : ¬ changes s.cursor char i)
    (notCorner : isErase char → s.cursor ≠ 0) :
    ((s.put char).rolls = s.rolls ∧ (s.put char).cells i = s.cells i) ∨
      (s.put char).rolls = s.rolls + 1 ∧ (80 ≤ i → (s.put char).cells (i - 80) = s.cells i) := by
  have scrolled : ∀ s : Screen, s.scroll.rolls = s.rolls + 1 ∧
      (80 ≤ i → s.scroll.cells (i - 80) = s.cells i) := by
    intro s
    refine ⟨rfl, fun notFirst => ?_⟩
    have isSource : i - 80 + 80 = i := by omega
    show (if i - 80 < 1920 then s.cells (i - 80 + 80) else 0x20) = s.cells i
    rw [if_pos (by omega), isSource]
  unfold changes at apart
  unfold put nextRow
  by_cases isBreak : endsRow char
  · rw [if_pos isBreak]
    by_cases last : s.cursor < 1920
    · rw [if_pos last]
      exact .inl ⟨rfl, rfl⟩
    · rw [if_neg last]
      exact .inr (scrolled s)
  · rw [if_neg isBreak] at apart ⊢
    by_cases erases : isErase char
    · have isOther : i ≠ s.cursor - 1 := by
        rw [if_pos erases] at apart
        have := notCorner erases
        omega
      rw [if_pos erases]
      exact .inl ⟨rfl, Function.update_of_ne isOther _ _⟩
    · rw [if_neg erases] at apart ⊢
      have isKept : (s.write s.cursor char).cells i = s.cells i := Function.update_of_ne apart _ _
      by_cases last : s.cursor < 1999
      · rw [if_pos last]
        exact .inl ⟨rfl, isKept⟩
      · rw [if_neg last]
        obtain ⟨rolls, moved⟩ := scrolled (s.write s.cursor char)
        exact .inr ⟨rolls, fun notFirst => (moved notFirst).trans isKept⟩

/-- Another character is in its cell, or a row further up. -/
theorem put_shows (inside : s.cursor < 2000) (notBreak : ¬ endsRow char) (notErase : ¬ isErase char) :
    ((s.put char).rolls = s.rolls ∧ (s.put char).cells s.cursor = char) ∨
      (s.put char).rolls = s.rolls + 1 ∧ (s.put char).cells (s.cursor - 80) = char := by
  have isWritten : (s.write s.cursor char).cells s.cursor = char := Function.update_self _ _ _
  unfold put
  rw [if_neg notBreak, if_neg notErase]
  by_cases last : s.cursor < 1999
  · rw [if_pos last]
    exact .inl ⟨rfl, isWritten⟩
  · have isSource : s.cursor - 80 + 80 = s.cursor := by omega
    rw [if_neg last]
    refine .inr ⟨rfl, ?_⟩
    show (if s.cursor - 80 < 1920 then (s.write s.cursor char).cells (s.cursor - 80 + 80) else 0x20) = char
    rw [if_pos (by omega), isSource, isWritten]

/-- A character stays in its cell, a row further up for each time the screen scrolls,
while none of those behind it changes that cell. -/
theorem putAll_shows (inside : s.cursor < 2000) (notBreak : ¬ endsRow char) (notErase : ¬ isErase char)
    (after : List UInt8)
    (kept : ∀ left other right, after = left ++ other :: right →
      (isErase other → ((s.put char).putAll left).cursor ≠ 0) ∧
      ∀ i, i + 80 * (((s.put char).putAll left).rolls - s.rolls) = s.cursor →
        ¬ changes ((s.put char).putAll left).cursor other i) :
    s.rolls ≤ ((s.put char).putAll after).rolls ∧
      ∀ i, i + 80 * (((s.put char).putAll after).rolls - s.rolls) = s.cursor →
        ((s.put char).putAll after).cells i = char := by
  induction after using List.reverseRecOn with
  | nil =>
      show s.rolls ≤ (s.put char).rolls ∧ ∀ i, i + 80 * ((s.put char).rolls - s.rolls) = s.cursor →
        (s.put char).cells i = char
      rcases put_shows inside notBreak notErase with ⟨rolls, isChar⟩ | ⟨rolls, isChar⟩
      · refine ⟨by omega, fun i isPlace => ?_⟩
        have isCursor : i = s.cursor := by omega
        rw [isCursor, isChar]
      · refine ⟨by omega, fun i isPlace => ?_⟩
        have isAbove : i = s.cursor - 80 := by omega
        rw [isAbove, isChar]
  | append_singleton left other inductionHypothesis =>
      obtain ⟨notCorner, apart⟩ := kept left other [] rfl
      obtain ⟨upward, isChar⟩ := inductionHypothesis fun left' other' right isLeft =>
        kept left' other' (right ++ [other]) (by rw [isLeft, List.append_assoc, List.cons_append])
      have isPut : (s.put char).putAll (left ++ [other]) = ((s.put char).putAll left).put other :=
        List.foldl_append
      rw [isPut]
      generalize (s.put char).putAll left = mid at *
      have upward' := rolls_le_put mid other
      refine ⟨by omega, fun i isPlace => ?_⟩
      -- where the character is before `other` comes
      obtain ⟨j, wasPlace⟩ : ∃ j, j + 80 * (mid.rolls - s.rolls) = s.cursor :=
        ⟨s.cursor - 80 * (mid.rolls - s.rolls), by omega⟩
      rcases put_keeps (by omega) (apart j wasPlace) notCorner with ⟨rolls, isKept⟩ | ⟨rolls, moved⟩
      · have same : i = j := by omega
        rw [same, isKept]
        exact isChar j wasPlace
      · have isAbove : i = j - 80 := by omega
        rw [isAbove, moved (by omega)]
        exact isChar j wasPlace

end Screen

/-! ### The display shows the screen -/

open Display

/-- An address on the screen. -/
def OnScreen (place : Nat) : Prop := videoBase ≤ place ∧ place < videoBase + 4000

/-- The display shows the screen, and every store so far went to it. -/
structure Shows (d : Display) (s : Screen) : Prop where
  cursor : d.cursor = s.cursor
  inside : s.cursor < 2000
  cells : ∀ i < 2000, d.mem (videoBase + 2 * i) = s.cells i
  colors : ∀ i < 2000, d.mem (videoBase + (2 * i + 1)) = 0x07
  stores : ∀ place ∈ d.stores, OnScreen place
  rolls : d.rolls = s.rolls

namespace Shows

variable {d d' : Display} {s : Screen} {char : UInt8} {bx : BitVec 16} {i cursor : Nat}

/-- The stores into a cell. -/
theorem putCell (shows : Shows d s) (small : i < 2000) (char : UInt8) :
    Shows (d.putCell i char) (s.write i char) := by
  refine ⟨shows.cursor, shows.inside, fun j inside => ?_, fun j inside => ?_, fun place mem => ?_,
    shows.rolls⟩
  · simp only [Display.putCell, putByte, Screen.write, Function.update_apply]
    rw [if_neg (by omega)]
    by_cases same : j = i
    · rw [if_pos same, if_pos (by rw [same])]
    · rw [if_neg same, if_neg (by omega), shows.cells j inside]
  · simp only [Display.putCell, putByte, Function.update_apply]
    by_cases same : j = i
    · rw [if_pos (by rw [same])]
    · rw [if_neg (by omega), if_neg (by omega), shows.colors j inside]
  · have inCell : OnScreen (videoBase + 2 * i) ∧ OnScreen (videoBase + (2 * i + 1)) := by
      unfold OnScreen
      omega
    rcases List.mem_cons.mp mem with rfl | mem
    · exact inCell.2
    · rcases List.mem_cons.mp mem with rfl | mem
      · exact inCell.1
      · exact shows.stores place mem

/-- The cursor is set to where it is to be. -/
theorem setCursor (shows : Shows d s) (isNew : bx.toNat = cursor) (inside : cursor < 2000) :
    Shows (d.setCursor bx) { s with cursor := cursor } :=
  ⟨(cursor_setCursor d bx).trans isNew, inside, shows.cells, shows.colors, shows.stores, shows.rolls⟩

/-- The scrolled screen, before the cursor is set. -/
theorem rollScreen (shows : Shows d s) :
    ∃ d', d.rollScreen = some (d', 1920) ∧ Shows d' { s.scroll with cursor := s.cursor } := by
  obtain ⟨d', isRolled, crt, rolls, stores, isMem⟩ := rollScreen_eq d
  refine ⟨d', isRolled, ?_, shows.inside, fun i inside => ?_, fun i inside => ?_, fun place mem => ?_,
    rolls.trans (congrArg (· + 1) shows.rolls)⟩
  · rw [Display.cursor, crt]
    exact shows.cursor
  · rw [isMem _ (by omega)]
    show _ = if i < 1920 then s.cells (i + 80) else 0x20
    by_cases last : i < 1920
    · have isSource : 2 * i + 160 = 2 * (i + 80) := by omega
      rw [if_pos (by omega), if_pos last, isSource, shows.cells _ (by omega)]
    · rw [if_neg (by omega), if_pos (by omega), if_neg last]
  · rw [isMem _ (by omega)]
    by_cases last : i < 1920
    · have isSource : 2 * i + 1 + 160 = 2 * (i + 80) + 1 := by omega
      rw [if_pos (by omega), isSource, shows.colors _ (by omega)]
    · rw [if_neg (by omega), if_neg (by omega)]
  · rcases stores place mem with mem | inside
    · exact shows.stores place mem
    · exact inside

/-- The end of a row; the cursor is in `bx`, the one of the screen is not set yet. -/
theorem isLineFeed (shows : Shows d s) (isC : bx.toNat = cursor) (small : cursor ≤ 2000)
    (isLast : s.cursor < 1920 ↔ cursor < 1920) (isRow : cursor < 1920 → s.cursor = cursor) :
    ∃ d' bx', d.isLineFeed bx = some (d', bx') ∧ Shows (d'.setCursor bx') s.nextRow := by
  unfold Screen.nextRow
  rcases isLineFeed_eq (d := d) isC small with ⟨last, isRun⟩ | ⟨inside, bx', isRun, isNext⟩
  · obtain ⟨d', isRolled, shown⟩ := shows.rollScreen
    rw [if_neg (by omega)]
    exact ⟨d', 1920, isRun.trans isRolled, shown.setCursor rfl (by decide)⟩
  · rw [if_pos (by omega), isRow inside]
    exact ⟨d, bx', isRun, shows.setCursor isNext (by omega)⟩

/-- The display with another register selected. -/
theorem select (shows : Shows d s) (index : UInt8) : Shows (d.select index) s :=
  ⟨shows.cursor, shows.inside, shows.cells, shows.colors, shows.stores, shows.rolls⟩

/-- One character, with the cursor in `bx`. -/
theorem putAt (shows : Shows d s) (isC : bx.toNat = s.cursor) (notCorner : isErase char → s.cursor ≠ 0) :
    ∃ d' bx', d.putAt bx char = some (d', bx') ∧ Shows (d'.setCursor bx') (s.put char) := by
  have inside := shows.inside
  have isRow := shows.isLineFeed isC (by omega) Iff.rfl fun _ => rfl
  unfold Display.putAt Screen.put
  by_cases isReturn : char = 0x0d
  · have isBreak : endsRow char := .inl isReturn
    rw [if_pos isReturn, if_pos isBreak]
    exact isRow
  by_cases isFeed : char = 0x0a
  · have isBreak : endsRow char := .inr isFeed
    rw [if_neg isReturn, if_pos isFeed, if_pos isBreak]
    exact isRow
  have notBreak : ¬ endsRow char := not_or.mpr ⟨isReturn, isFeed⟩
  rw [if_neg isReturn, if_neg isFeed, if_neg notBreak]
  by_cases isChar : char = 0x08
  · have erases : isErase char := isChar
    obtain ⟨c, isNext⟩ := Nat.exists_eq_succ_of_ne_zero (notCorner erases)
    obtain ⟨bx', isRun, isNew⟩ := isBackspace_eq (d := d) (isC.trans isNext) (by omega)
    have isBefore : s.cursor - 1 = c := by omega
    rw [if_pos isChar, if_pos erases, isBefore]
    exact ⟨_, _, isRun, (shows.putCell (by omega) _).setCursor isNew (by omega)⟩
  have notErase : ¬ isErase char := isChar
  rw [if_neg isChar, if_neg notErase]
  obtain ⟨bx', isNew, isRun⟩ := putOther_eq (d := d) isC inside char
  have written := shows.putCell inside char
  rw [isRun]
  by_cases last : s.cursor < 1999
  · rw [if_pos last, if_pos last]
    exact ⟨_, _, rfl, written.setCursor isNew (by omega)⟩
  · have atEnd : ¬ (s.write s.cursor char).cursor < 1920 := by
      show ¬ s.cursor < 1920
      omega
    have shown := written.isLineFeed isNew (by omega) (iff_of_false atEnd (by omega)) fun small =>
      absurd small (by omega)
    rw [Screen.nextRow, if_neg atEnd] at shown
    rw [if_neg last, if_neg last]
    exact shown

theorem putChar (shows : Shows d s) (notCorner : isErase char → s.cursor ≠ 0) :
    ∃ d', d.putChar char = some d' ∧ Shows d' (s.put char) := by
  obtain ⟨d', bx', isRun, shown⟩ := (shows.select 0x0f).putAt shows.cursor notCorner
  rw [putChar_eq, isRun]
  exact ⟨_, rfl, shown⟩

end Shows

/-- A backspace at the top left corner faults. -/
theorem putChar_corner {d : Display} {char : UInt8} (erases : isErase char) (corner : d.cursor = 0) :
    d.putChar char = none := by
  have isChar : char = 0x08 := erases
  rw [putChar_eq, putAt, isChar, if_neg (by decide), if_neg (by decide), if_pos rfl,
    isBackspace_corner corner]
  rfl

/-- `cls_screen` on any display to which nothing has been stored yet. -/
theorem clsScreen_shows (crt : Crt) (mem : Nat → UInt8) :
    ∃ d, clsScreen ⟨crt, mem, [], 0⟩ = some d ∧ Shows d .blank := by
  obtain ⟨d, isCleared, same, isMem⟩ :=
    cls_eq ⟨crt, mem, [], 0⟩ (80 * 25) 0 (by decide)
  refine ⟨d.setCursor 0, ?_, cursor_setCursor d 0, by decide, fun i inside => ?_, fun i inside => ?_,
    fun place mem => ?_, same.rolls⟩
  · rw [clsScreen, isCleared]
    rfl
  · exact (isMem (2 * i)).trans (by rw [if_pos (by omega), if_pos (by omega)]; rfl)
  · exact (isMem (2 * i + 1)).trans (by rw [if_pos (by omega), if_neg (by omega)])
  · rcases same.stores place mem with mem | inside
    · cases mem
    · exact inside

/-! ### Characters, one after the other -/

/-- No backspace comes while the cursor is at the top left corner. -/
def NeverAtCorner (start : Display) (chars : List UInt8) : Prop :=
  ∀ before char after, chars = before ++ char :: after → isErase char →
    ∀ mid, start.putChars before = some mid → mid.cursor ≠ 0

/-- Every character that is put at a cursor `c` is in the end in cell `c`, one row further
up for each time the screen has scrolled since; unless that leads off the screen, or one of
the characters behind it has changed the cell where it was then. -/
def TextAppears (start final : Display) (chars : List UInt8) : Prop :=
  ∀ before char after, chars = before ++ char :: after → ¬ endsRow char → ¬ isErase char →
    ∀ first, start.putChars before = some first →
    (∀ left other right mid, after = left ++ other :: right →
      start.putChars (before ++ char :: left) = some mid →
      ∀ i, i + 80 * (mid.rolls - first.rolls) = first.cursor → ¬ Screen.changes mid.cursor other i) →
    ∀ i, i + 80 * (final.rolls - first.rolls) = first.cursor → final.mem (videoBase + 2 * i) = char

/-- The cursor stays on the screen, so do the stores, and the text appears. -/
structure Displayed (start final : Display) (chars : List UInt8) : Prop where
  cursor : ∀ before after, chars = before ++ after →
    ∀ mid, start.putChars before = some mid → mid.cursor < 2000
  stores : ∀ place ∈ final.stores, OnScreen place
  text : TextAppears start final chars

variable {d start final : Display} {s : Screen} {chars before after : List UInt8} {char : UInt8}

theorem putChars_cons (d : Display) (char : UInt8) (chars : List UInt8) :
    d.putChars (char :: chars) = (d.putChar char).bind fun d => d.putChars chars := List.foldlM_cons ..

theorem putChars_append (d : Display) (before after : List UInt8) :
    d.putChars (before ++ after) = (d.putChars before).bind fun d => d.putChars after :=
  List.foldlM_append ..

theorem NeverAtCorner.of_append (never : NeverAtCorner d (before ++ after)) : NeverAtCorner d before := by
  intro before' char after' isChars erases mid isMid
  refine never before' char (after' ++ after) ?_ erases mid isMid
  rw [isChars, List.append_assoc, List.cons_append]

/-- The display shows the screen that the characters make. -/
theorem Shows.putChars (shows : Shows d s) (never : NeverAtCorner d chars) :
    ∃ final, d.putChars chars = some final ∧ Shows final (s.putAll chars) := by
  induction chars generalizing d s with
  | nil => exact ⟨d, rfl, shows⟩
  | cons char chars inductionHypothesis =>
      have notCorner : isErase char → s.cursor ≠ 0 := fun erases => by
        rw [← shows.cursor]
        exact never [] char chars rfl erases d rfl
      obtain ⟨d₁, isPut, shows₁⟩ := shows.putChar notCorner
      have never₁ : NeverAtCorner d₁ chars := by
        intro before other after isChars erases mid isMid
        refine never (char :: before) other after (by rw [isChars]; rfl) erases mid ?_
        rw [putChars_cons, isPut]
        exact isMid
      obtain ⟨final, isRun, shown⟩ := inductionHypothesis shows₁ never₁
      refine ⟨final, ?_, shown⟩
      rw [putChars_cons, isPut]
      exact isRun

/-- A prefix of the characters. -/
theorem Shows.between (shows : Shows d s) (never : NeverAtCorner d (before ++ after)) {mid : Display}
    (isMid : d.putChars before = some mid) : Shows mid (s.putAll before) := by
  obtain ⟨mid', isRun, shown⟩ := shows.putChars never.of_append
  rw [isMid] at isRun
  exact Option.some.inj isRun ▸ shown

theorem TextAppears.of_shows (shows : Shows start s) (never : NeverAtCorner start chars)
    (isRun : start.putChars chars = some final) : TextAppears start final chars := by
  rintro before char after rfl notBreak notErase first isFirst apart i isPlace
  have atFirst := shows.between never isFirst
  obtain ⟨final', isRun', atFinal⟩ := shows.putChars never
  rw [isRun] at isRun'
  cases isRun'
  have isAll : ∀ left, s.putAll (before ++ char :: left) = ((s.putAll before).put char).putAll left :=
    fun left => List.foldl_append
  rw [isAll] at atFinal
  have small : i < 2000 := by
    have inside := atFirst.inside
    rw [← atFirst.cursor] at inside
    omega
  rw [atFinal.cells i small]
  refine (Screen.putAll_shows atFirst.inside notBreak notErase after ?_).2 i ?_
  · rintro left other right rfl
    have isSplit : before ++ char :: (left ++ other :: right) = (before ++ char :: left) ++ other :: right := by
      rw [List.append_assoc, List.cons_append]
    rw [isSplit] at never
    obtain ⟨mid, isMid, atMid⟩ := shows.putChars never.of_append
    rw [isAll] at atMid
    rw [← atMid.cursor, ← atMid.rolls, ← atFirst.cursor, ← atFirst.rolls]
    refine ⟨fun erases => ?_, apart left other right mid rfl isMid⟩
    exact never (before ++ char :: left) other right rfl erases mid isMid
  · rw [← atFinal.rolls, ← atFirst.rolls, ← atFirst.cursor]
    exact isPlace

theorem Displayed.of_shows (shows : Shows start s) (never : NeverAtCorner start chars) :
    ∃ final, start.putChars chars = some final ∧ Displayed start final chars := by
  obtain ⟨final, isRun, atFinal⟩ := shows.putChars never
  refine ⟨final, isRun, ?_, atFinal.stores, TextAppears.of_shows shows never isRun⟩
  rintro before after rfl mid isMid
  have atMid := shows.between never isMid
  rw [atMid.cursor]
  exact atMid.inside

/-- A run through a backspace at the corner does not end. -/
theorem NeverAtCorner.of_run (isRun : start.putChars chars = some final) : NeverAtCorner start chars := by
  rintro before char after rfl erases mid isMid corner
  rw [putChars_append, isMid, Option.bind_some, putChars_cons, putChar_corner erases corner] at isRun
  cases isRun

/-- After `cls_screen`, the cursor and all stores stay on the screen and the text appears,
exactly when no backspace comes at the top left corner. -/
theorem put_char_displays_iff (crt : Crt) (mem : Nat → UInt8) (chars : List UInt8) :
    (∃ start final, clsScreen ⟨crt, mem, [], 0⟩ = some start ∧ start.putChars chars = some final ∧
      Displayed start final chars) ↔
    ∀ start, clsScreen ⟨crt, mem, [], 0⟩ = some start → NeverAtCorner start chars := by
  obtain ⟨start, isCleared, shows⟩ := clsScreen_shows crt mem
  rw [isCleared]
  constructor
  · rintro ⟨start', final, isStart, isRun, -⟩ start'' isStart''
    cases isStart
    cases isStart''
    exact NeverAtCorner.of_run isRun
  · intro never
    obtain ⟨final, isRun, displayed⟩ := Displayed.of_shows shows (never start rfl)
    exact ⟨start, final, rfl, isRun, displayed⟩

/-- A backspace on the cleared screen. -/
theorem put_char_corner_faults :
    ¬ ∀ (crt : Crt) (mem : Nat → UInt8) (chars : List UInt8),
      ∃ start final, clsScreen ⟨crt, mem, [], 0⟩ = some start ∧ start.putChars chars = some final ∧
        Displayed start final chars := by
  intro displays
  obtain ⟨start, final, isCleared, isRun, -⟩ := displays ⟨0, fun _ => 0⟩ (fun _ => 0) [0x08]
  obtain ⟨start', isCleared', shows⟩ := clsScreen_shows ⟨0, fun _ => 0⟩ (fun _ => 0)
  rw [isCleared'] at isCleared
  cases isCleared
  rw [putChars_cons, putChar_corner rfl shows.cursor] at isRun
  cases isRun

end ZyOs.Kernel
