import ZyOs.Fs.PathSearch

/-!
Contract: `readline`, which edits the command line in its buffer.

Owns: when the bytes in the buffer follow a line editor, and when a key is stored
behind the buffer.

The memory is indexed from the start of the buffer, on both sides of it, and every
store is recorded. Keys come one at a time: a list of keys leaves `readline` where it
waits for the next one.

Does not own: what is shown on the screen.
-/

namespace ZyOs.Shell

/-! ### The function -/

def newline : UInt8 := 10

def carriageReturn : UInt8 := 13

def backspace : UInt8 := 8

/-- `'l' - 'a'`. -/
def ctrlL : UInt8 := 108 - 97

/-- `'u' - 'a'`. -/
def ctrlU : UInt8 := 117 - 97

/-- The bytes by their distance from `buf`, `pos - buf`, and where bytes have been stored. -/
structure LineState where
  mem : Int → UInt8
  pos : Int
  stores : List Int

def LineState.store (s : LineState) (place : Int) (char : UInt8) : LineState :=
  { s with mem := Function.update s.mem place char, stores := place :: s.stores }

/-- The loop of `sys_read` for `stdin_no`, with the keys that it gets. -/
def readKeys : LineState → (buffer : Int) → List UInt8 → LineState
  | s, _, [] => s
  | s, buffer, key :: keys => readKeys (s.store buffer key) (buffer + 1) keys

/-- `sys_read(stdin_no, pos, ..)`. -/
def sysRead (s : LineState) (keys : List UInt8) : LineState × Int :=
  (readKeys s s.pos keys, if keys.length = 0 then -1 else keys.length)

/-- Where `readline` is: at its next `read`, behind the end of a line, or behind its loop. -/
inductive LineStatus where
  | editing (s : LineState)
  | entered (s : LineState)
  | tooLong (s : LineState)

/-- The loop for ctrl+u, over `fuel` bytes at most. -/
def clearLine : Nat → LineState → LineState
  | 0, s => s
  | fuel + 1, s =>
      if 0 ≠ s.pos then clearLine fuel { s.store s.pos 0 with pos := s.pos - 1 } else s

/-- One pass of the loop. -/
def readKey (count : Int) (s : LineState) (key : UInt8) : LineStatus :=
  let (s, ret) := sysRead s [key]
  if ret ≠ -1 ∧ s.pos < count then
    if s.mem s.pos = newline ∨ s.mem s.pos = carriageReturn then
      .entered (s.store s.pos 0)
    else if s.mem s.pos = backspace then
      if s.mem 0 ≠ backspace then .editing { s with pos := s.pos - 1 } else .editing s
    else if s.mem s.pos = ctrlL then
      .editing (s.store s.pos 0)
    else if s.mem s.pos = ctrlU then
      .editing (clearLine s.pos.toNat s)
    else
      .editing { s with pos := s.pos + 1 }
  else
    .tooLong s

/-- `readline`, with the keys that have come. -/
def readlineFrom (count : Int) : LineState → List UInt8 → LineStatus
  | s, [] => .editing s
  | s, key :: keys =>
      match readKey count s key with
      | .editing s => readlineFrom count s keys
      | status => status

def readline (count : Int) (mem : Int → UInt8) (keys : List UInt8) : LineStatus :=
  readlineFrom count ⟨mem, 0, []⟩ keys

/-! ### A line editor -/

def endsLine (key : UInt8) : Bool := key = newline ∨ key = carriageReturn

/-- What a key does to a line. -/
def edit (line : List UInt8) (key : UInt8) : List UInt8 :=
  if key = backspace then line.dropLast
  else if key = ctrlL then line
  else if key = ctrlU then []
  else line ++ [key]

/-- The line that has been typed. -/
def typedLine (keys : List UInt8) : List UInt8 := (keys.takeWhile (!endsLine ·)).foldl edit []

/-- The bytes of the line from `buf` on. -/
def HoldsLine (mem : Int → UInt8) (typed : List UInt8) : Prop :=
  ∀ (i : Nat) (inside : i < typed.length), mem i = typed[i]

/-- The position and every store lie in the buffer, and an ended line is there with a zero
behind it. -/
def InOrder (count : Nat) (keys : List UInt8) : LineStatus → Prop
  | .editing s => (0 ≤ s.pos ∧ s.pos < count) ∧ ∀ place ∈ s.stores, 0 ≤ place ∧ place < count
  | .entered s => (0 ≤ s.pos ∧ s.pos < count) ∧ (∀ place ∈ s.stores, 0 ≤ place ∧ place < count) ∧
      HoldsLine s.mem (typedLine keys) ∧ s.mem (typedLine keys).length = 0
  | .tooLong _ => False

/-! ### One key -/

variable {count : Nat} {s : LineState} {line keys : List UInt8} {key : UInt8}

/-- The buffer holds the line up to the position. -/
structure Edits (count : Nat) (s : LineState) (line : List UInt8) : Prop where
  pos : s.pos = line.length
  holds : HoldsLine s.mem line
  visible : backspace ∉ line
  stores : ∀ place ∈ s.stores, 0 ≤ place ∧ place < (count : Int)

theorem readKey_eq (edits : Edits count s line) (short : line.length < count) (key : UInt8) :
    readKey count s key =
      (let typed := s.store s.pos key
      if key = newline ∨ key = carriageReturn then .entered (typed.store typed.pos 0)
      else if key = backspace then
        if typed.mem 0 ≠ backspace then .editing { typed with pos := typed.pos - 1 } else .editing typed
      else if key = ctrlL then .editing (typed.store typed.pos 0)
      else if key = ctrlU then .editing (clearLine typed.pos.toNat typed)
      else .editing { typed with pos := typed.pos + 1 }) := by
  have inside : s.pos < count := by
    rw [edits.pos]
    exact Int.ofNat_lt.mpr short
  have isKey : (s.store s.pos key).mem s.pos = key := Function.update_self _ _ _
  show (if (1 : Int) ≠ -1 ∧ (s.store s.pos key).pos < count then _ else _) = _
  rw [if_pos ⟨by decide, inside⟩]
  show (if (s.store s.pos key).mem s.pos = newline ∨ (s.store s.pos key).mem s.pos = carriageReturn
    then _ else if (s.store s.pos key).mem s.pos = backspace then _
    else if (s.store s.pos key).mem s.pos = ctrlL then _
    else if (s.store s.pos key).mem s.pos = ctrlU then _ else _) = _
  rw [isKey]
  rfl

/-- A store at the position leaves the line as it is. -/
theorem Edits.store (edits : Edits count s line) (short : line.length < count) (char : UInt8) :
    Edits count (s.store s.pos char) line where
  pos := edits.pos
  holds i inside := by
    have other : (i : Int) ≠ s.pos := by
      rw [edits.pos]
      omega
    exact (Function.update_of_ne other _ _).trans (edits.holds i inside)
  visible := edits.visible
  stores place mem := by
    rcases List.mem_cons.mp mem with rfl | mem
    · rw [edits.pos]
      omega
    · exact edits.stores place mem

theorem clearLine_eq {fuel : Nat} : ∀ {s : LineState}, s.pos = fuel →
    ∃ mem stores, clearLine fuel s = ⟨mem, 0, stores⟩ ∧
      ∀ place ∈ stores, place ∈ s.stores ∨ 0 ≤ place ∧ place ≤ fuel := by
  induction fuel with
  | zero =>
      intro s isPos
      have isStart : s.pos = 0 := isPos
      refine ⟨s.mem, s.stores, ?_, fun place mem => .inl mem⟩
      rw [← isStart]
      rfl
  | succ fuel inductionHypothesis =>
      intro s isPos
      have notStart : 0 ≠ s.pos := by omega
      obtain ⟨mem, stores, isCleared, inside⟩ :=
        @inductionHypothesis { s.store s.pos 0 with pos := s.pos - 1 } (by show s.pos - 1 = fuel; omega)
      refine ⟨mem, stores, ?_, ?_⟩
      · rw [clearLine, if_pos notStart, isCleared]
      · intro place isIn
        rcases inside place isIn with isIn | inside
        · rcases List.mem_cons.mp isIn with rfl | isIn
          · exact .inr (by omega)
          · exact .inl isIn
        · exact .inr (by omega)

/-- A key that does not end the line edits it. -/
theorem Edits.readKey (edits : Edits count s line) (short : line.length < count)
    (goesOn : endsLine key = false) :
    ∃ s', readKey count s key = .editing s' ∧ Edits count s' (edit line key) := by
  have typed := edits.store short key
  have notEnd : ¬ (key = newline ∨ key = carriageReturn) := of_decide_eq_false goesOn
  rw [readKey_eq edits short]
  dsimp only
  rw [if_neg notEnd]
  unfold edit
  by_cases isBackspace : key = backspace
  · rw [if_pos isBackspace, if_pos isBackspace]
    cases isLine : line with
    | nil =>
        -- the key lies at `buf` itself
        rw [isLine] at typed
        have atStart : (s.store s.pos key).mem 0 = backspace := by
          have isZero : s.pos = 0 := by rw [edits.pos, isLine]; rfl
          rw [← isBackspace, isZero]
          exact Function.update_self 0 key s.mem
        rw [if_neg (not_not.mpr atStart)]
        exact ⟨_, rfl, typed⟩
    | cons first rest =>
        rw [isLine] at typed
        have atStart : (s.store s.pos key).mem 0 = first := typed.holds 0 (by simp)
        have isVisible : first ≠ backspace := fun same =>
          typed.visible (same ▸ List.mem_cons_self)
        rw [if_pos (by rw [atStart]; exact isVisible)]
        refine ⟨_, rfl, ?_, ?_, fun mem => typed.visible (List.dropLast_subset _ mem), typed.stores⟩
        · show s.pos - 1 = _
          rw [edits.pos, isLine, List.length_dropLast, List.length_cons]
          omega
        · intro i inside
          rw [List.getElem_dropLast]
          exact typed.holds i (by rw [List.length_dropLast] at inside; omega)
  · rw [if_neg isBackspace, if_neg isBackspace]
    by_cases isCtrlL : key = ctrlL
    · rw [if_pos isCtrlL, if_pos isCtrlL]
      exact ⟨_, rfl, typed.store short 0⟩
    · rw [if_neg isCtrlL, if_neg isCtrlL]
      by_cases isCtrlU : key = ctrlU
      · rw [if_pos isCtrlU, if_pos isCtrlU]
        have isNat : (s.store s.pos key).pos = ((s.store s.pos key).pos.toNat : Nat) := by
          rw [typed.pos]
          rfl
        obtain ⟨mem, stores, isCleared, inside⟩ := clearLine_eq isNat
        refine ⟨_, congrArg _ isCleared, rfl, fun i inside => absurd inside (Nat.not_lt_zero i),
          List.not_mem_nil, ?_⟩
        intro place isIn
        rcases inside place isIn with isIn | ⟨low, high⟩
        · exact typed.stores place isIn
        · rw [typed.pos, Int.toNat_natCast] at high
          omega
      · rw [if_neg isCtrlU, if_neg isCtrlU]
        refine ⟨_, rfl, ?_, ?_, ?_, typed.stores⟩
        · show s.pos + 1 = _
          rw [edits.pos, List.length_append]
          rfl
        · intro i inside
          by_cases before : i < line.length
          · rw [List.getElem_append_left before]
            exact typed.holds i before
          · have isLast : i = line.length := by
              rw [List.length_append, List.length_singleton] at inside
              omega
            subst isLast
            rw [List.getElem_append_right (Nat.le_refl _)]
            simp only [Nat.sub_self, List.getElem_cons_zero]
            rw [← edits.pos]
            exact Function.update_self _ _ _
        · intro mem
          rcases List.mem_append.mp mem with mem | mem
          · exact edits.visible mem
          · exact isBackspace (List.mem_singleton.mp mem).symm

/-- A key that ends the line puts a zero behind it. -/
theorem Edits.enterKey (edits : Edits count s line) (short : line.length < count)
    (ends : endsLine key = true) :
    ∃ s', Shell.readKey count s key = .entered s' ∧ Edits count s' line ∧ s'.mem line.length = 0 := by
  rw [readKey_eq edits short]
  dsimp only
  rw [if_pos (of_decide_eq_true ends)]
  refine ⟨_, rfl, (edits.store short key).store short 0, ?_⟩
  rw [← edits.pos]
  exact Function.update_self _ _ _

/-- Behind the buffer the key is stored before the length is tested. -/
theorem readKey_tooLong (atEnd : s.pos = count) (key : UInt8) :
    readKey count s key = .tooLong (s.store s.pos key) := by
  have outside : ¬ ((1 : Int) ≠ -1 ∧ s.pos < count) := by
    rw [atEnd]
    exact fun inside => absurd inside.2 (Int.lt_irrefl _)
  exact if_neg outside

/-! ### A run -/

theorem start_edits (count : Nat) (mem : Int → UInt8) : Edits count ⟨mem, 0, []⟩ [] where
  pos := rfl
  holds i inside := absurd inside (Nat.not_lt_zero i)
  visible := List.not_mem_nil
  stores _ mem := absurd mem List.not_mem_nil

theorem readlineFrom_append {s' : LineState} (first : readlineFrom count s keys = .editing s')
    (more : List UInt8) : readlineFrom count s (keys ++ more) = readlineFrom count s' more := by
  induction keys generalizing s with
  | nil =>
      cases first
      rfl
  | cons key keys inductionHypothesis =>
      rw [readlineFrom] at first
      rw [List.cons_append, readlineFrom]
      cases isRead : readKey count s key with
      | editing next =>
          rw [isRead] at first
          exact inductionHypothesis first
      | entered next =>
          rw [isRead] at first
          cases first
      | tooLong next =>
          rw [isRead] at first
          cases first

/-- While every line on the way is shorter than the buffer, the buffer follows the line. -/
theorem Edits.run (edits : Edits count s line) (keys : List UInt8) (goesOn : ∀ key ∈ keys, endsLine key = false)
    (short : ∀ init key rest, keys = init ++ key :: rest → (init.foldl edit line).length < count) :
    ∃ s', readlineFrom count s keys = .editing s' ∧ Edits count s' (keys.foldl edit line) := by
  induction keys generalizing s line with
  | nil => exact ⟨s, rfl, edits⟩
  | cons key keys inductionHypothesis =>
      obtain ⟨next, isRead, nextEdits⟩ :=
        edits.readKey (short [] key keys rfl) (goesOn key List.mem_cons_self)
      rw [readlineFrom, isRead]
      exact inductionHypothesis nextEdits (fun other mem => goesOn other (List.mem_cons_of_mem _ mem))
        fun init other rest isKeys => short (key :: init) other rest (by rw [isKeys]; rfl)

/-- The keys of a line, and perhaps the one that ends it with those behind. -/
theorem split_line (keys : List UInt8) : ∃ init rest, keys = init ++ rest ∧
    keys.takeWhile (!endsLine ·) = init ∧ (∀ key ∈ init, endsLine key = false) ∧
    (rest = [] ∨ ∃ key more, rest = key :: more ∧ endsLine key = true) := by
  refine ⟨_, _, List.takeWhile_append_dropWhile.symm, rfl, ?_, ?_⟩
  · intro key mem
    simpa using List.mem_takeWhile_imp mem
  · cases isRest : keys.dropWhile (!endsLine ·) with
    | nil => exact .inl rfl
    | cons key more =>
        have stops := List.head_dropWhile_not (!endsLine ·) (by rw [isRest]; exact List.cons_ne_nil _ _)
        simp only [isRest, List.head_cons, Bool.not_eq_eq_eq_not, Bool.not_false] at stops
        exact .inr ⟨key, more, rfl, stops⟩

/-- `readline` stays in order while the keys come, exactly when no line on the way to the
first carriage return or newline fills the buffer. -/
theorem readline_inOrder_iff (count : Nat) (mem : Int → UInt8)
    (keys : List UInt8) :
    (∀ typed, typed <+: keys → InOrder count typed (readline count mem typed)) ↔
      ∀ typed, typed <+: keys.takeWhile (!endsLine ·) → (typed.foldl edit []).length < count := by
  constructor
  · intro inOrder typed isPrefix
    induction length : typed.length using Nat.strong_induction_on generalizing typed with
    | _ n inductionHypothesis =>
        subst length
        have goesOn : ∀ key ∈ typed, endsLine key = false := fun key isIn => by
          simpa using List.mem_takeWhile_imp (isPrefix.subset isIn)
        obtain ⟨s, isRun, edits⟩ := (start_edits count mem).run _ goesOn (by
          rintro init key rest rfl
          exact inductionHypothesis init.length (by simp) init
            ((List.prefix_append _ _).trans isPrefix) rfl)
        have here := inOrder typed (isPrefix.trans (List.takeWhile_prefix _))
        rw [readline, isRun] at here
        have inside := here.1.2
        rw [edits.pos] at inside
        exact Int.ofNat_lt.mp inside
  · intro short typed isPrefix
    obtain ⟨init, rest, rfl, isInit, goesOn, isRest⟩ := split_line typed
    have initPrefix : init <+: keys.takeWhile (!endsLine ·) := by
      obtain ⟨behind, rfl⟩ := isPrefix
      have passes : ∀ key ∈ init, (!endsLine key) = true := fun key mem => by rw [goesOn key mem]; rfl
      rw [List.append_assoc, List.takeWhile_append_of_pos passes]
      exact List.prefix_append _ _
    obtain ⟨s, isRun, edits⟩ := (start_edits count mem).run _ goesOn (by
      rintro first key rest rfl
      exact short first ((List.prefix_append _ _).trans initPrefix))
    have isShort := short init initPrefix
    rcases isRest with rfl | ⟨key, more, rfl, ends⟩
    · rw [List.append_nil, readline, isRun]
      refine ⟨?_, edits.stores⟩
      rw [edits.pos]
      omega
    · obtain ⟨last, isRead, lastEdits, isZero⟩ := edits.enterKey isShort ends
      rw [readline, readlineFrom_append isRun, readlineFrom, isRead]
      refine ⟨?_, lastEdits.stores, ?_, ?_⟩
      · rw [lastEdits.pos]
        omega
      · rw [typedLine, isInit]
        exact lastEdits.holds
      · rw [typedLine, isInit]
        exact isZero

/-- The letters of a line that just fits. -/
theorem foldl_edit_letters (n : Nat) (line : List UInt8) :
    (List.replicate n 97).foldl edit line = line ++ List.replicate n 97 := by
  induction n generalizing line with
  | zero => exact (List.append_nil line).symm
  | succ n inductionHypothesis =>
      have isEdit : edit line 97 = line ++ [97] := rfl
      rw [List.replicate_succ, List.foldl_cons, inductionHypothesis, isEdit, List.append_assoc]
      rfl

/-- The key behind 512 letters is stored behind the 512 bytes. -/
theorem readline_stores_outside :
    ∃ s, readline Fs.maxPathLen (fun _ => 0) (List.replicate 512 97 ++ [newline]) = .tooLong s ∧
      (Fs.maxPathLen : Int) ∈ s.stores ∧
      ¬ InOrder Fs.maxPathLen (List.replicate 512 97 ++ [newline])
        (readline Fs.maxPathLen (fun _ => 0) (List.replicate 512 97 ++ [newline])) := by
  obtain ⟨s, isRun, edits⟩ := (start_edits Fs.maxPathLen fun _ => 0).run (List.replicate 512 97)
    (fun key mem => by rw [List.eq_of_mem_replicate mem]; rfl) (by
      intro init key rest isKeys
      have isInit : init = List.replicate init.length 97 :=
        List.eq_replicate_of_mem fun other mem =>
          List.eq_of_mem_replicate (isKeys ▸ List.mem_append_left _ mem)
      have length := congrArg List.length isKeys
      rw [List.length_replicate, List.length_append, List.length_cons] at length
      rw [isInit, foldl_edit_letters, List.nil_append, List.length_replicate]
      unfold Fs.maxPathLen
      omega)
  rw [foldl_edit_letters, List.nil_append] at edits
  have isPos : s.pos = Fs.maxPathLen := by rw [edits.pos, List.length_replicate]; rfl
  have isLast : readline Fs.maxPathLen (fun _ => 0) (List.replicate 512 97 ++ [newline]) =
      .tooLong (s.store s.pos newline) := by
    rw [readline, readlineFrom_append isRun, readlineFrom, readKey_tooLong isPos newline]
  refine ⟨_, isLast, ?_, ?_⟩
  · rw [isPos]
    exact List.mem_cons_self
  · rw [isLast]
    exact id

end ZyOs.Shell
