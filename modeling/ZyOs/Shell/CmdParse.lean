import Mathlib.Data.List.Forall2
import ZyOs.Fs.NameBuffers
import ZyOs.Kernel.Strings

/-!
Contract: `cmd_parse`, which cuts a command line into words in place, and the part of
`my_shell` that calls it and compares `argv[0]`.

Owns: for which lines `argv` holds the words of the line, and nothing behind `argv` is
written; for which the shell compares a name.

A pointer into the command line is its index, and `NULL` is none. Every store into
`argv` is recorded. A result of `none` is a read or a store behind the command line, or
the failed `ASSERT` of `strcmp`.

Does not own: what the built-in commands do.
-/

namespace ZyOs.Shell

open Fs Lib Kernel
open Fs.Names (CString)

/-! ### The functions -/

def maxArgNr : Nat := 16

/-- The command line, `argv`, and the indexes of `argv` that have been stored. -/
structure ArgState where
  cmdStr : List UInt8
  argv : Nat → Option Nat
  stores : List Nat

def ArgState.storeArg (s : ArgState) (idx : Nat) (arg : Option Nat) : ArgState :=
  { s with argv := Function.update s.argv idx arg, stores := s.stores ++ [idx] }

/-- The loop that sets `argv` to `NULL`, with the steps that are left. -/
def clearArgs : Nat → ArgState → (argIdx : Nat) → ArgState
  | 0, s, _ => s
  | left + 1, s, argIdx => clearArgs left (s.storeArg argIdx none) (argIdx + 1)

/-- `while (*next == token)`, over the bytes from `next` on. -/
def skipTokens (token : UInt8) : (str : List UInt8) → (next : Nat) → Option Nat
  | [], _ => none
  | char :: str, next => if char = token then skipTokens token str (next + 1) else some next

/-- `while (*next && *next != token)`, over the bytes from `next` on. -/
def skipWord (token : UInt8) : (str : List UInt8) → (next : Nat) → Option Nat
  | [], _ => none
  | char :: str, next => if char ≠ 0 ∧ char ≠ token then skipWord token str (next + 1) else some next

/-- The loop over the words, over `fuel` of them at most. -/
def parseWords (token : UInt8) : Nat → ArgState → (next argc : Nat) → Option (ArgState × Int)
  | 0, _, _, _ => none
  | fuel + 1, s, next, argc => do
      let char ← s.cmdStr[next]?
      if char = 0 then
        return (s, argc)
      else
        let next ← skipTokens token (s.cmdStr.drop next) next
        let char ← s.cmdStr[next]?
        if char = 0 then
          return (s, argc)
        else
          let s := s.storeArg argc (some next)
          let next ← skipWord token (s.cmdStr.drop next) next
          let char ← s.cmdStr[next]?
          let (s, next) :=
            if char ≠ 0 then ({ s with cmdStr := s.cmdStr.set next 0 }, next + 1) else (s, next)
          if argc > maxArgNr then
            return (s, -1)
          else
            parseWords token fuel s next (argc + 1)

/-- `cmd_parse`. -/
def cmdParse (s : ArgState) (token : UInt8) : Option (ArgState × Int) :=
  parseWords token s.cmdStr.length (clearArgs maxArgNr s 0) 0 0

def space : UInt8 := 32

inductive Command where
  | ls
  | cd
  | pwd
  | ps
  | clear
  | mkdir
  | rmdir
  | rm
  | about
  | external
deriving DecidableEq

def bytesOf (str : String) : List UInt8 := str.toList.map fun char => char.toNat.toUInt8

/-- The comparisons of `my_shell`, in their order. -/
def commandOf (name : List UInt8) : Command :=
  if bytesOf "ls" = name then .ls
  else if bytesOf "cd" = name then .cd
  else if bytesOf "pwd" = name then .pwd
  else if bytesOf "ps" = name then .ps
  else if bytesOf "clear" = name then .clear
  else if bytesOf "mkdir" = name then .mkdir
  else if bytesOf "rmdir" = name then .rmdir
  else if bytesOf "rm" = name then .rm
  else if bytesOf "about" = name then .about
  else .external

/-- What `my_shell` does with a line. -/
inductive Turn where
  | noCommand
  | tooManyArguments
  | dispatched (argv0 : Option Nat)
deriving DecidableEq

/-- One turn of `my_shell` behind `readline`, up to the first comparison. -/
def myShellTurn (s : ArgState) : Option (ArgState × Turn) := do
  let char ← s.cmdStr[0]?
  if char = 0 then
    return (s, .noCommand)
  else
    let (s, argc) ← cmdParse s space
    if argc = -1 then
      return (s, .tooManyArguments)
    else
      return (s, .dispatched (s.argv 0))

/-- The command that is run; `strcmp` asserts that `argv[0]` is not `NULL`. -/
def runs (s : ArgState) (argv0 : Option Nat) : Option Command := do
  let name ← argv0
  return commandOf (stringOf (s.cmdStr.drop name))

/-! ### Storing the arguments -/

/-- `argv` after these pointers have been stored from `idx` on. -/
def storedArgs (argv : Nat → Option Nat) (idx : Nat) (ptrs : List Nat) : Nat → Option Nat := fun i =>
  if idx ≤ i ∧ i - idx < ptrs.length then ptrs[i - idx]? else argv i

variable {token : UInt8} {s : ArgState} {argv : Nat → Option Nat} {idx : Nat} {ptrs : List Nat}

theorem storedArgs_nil (argv : Nat → Option Nat) (idx : Nat) : storedArgs argv idx [] = argv := by
  funext i
  exact if_neg fun inside => absurd inside.2 (Nat.not_lt_zero _)

theorem storedArgs_cons (argv : Nat → Option Nat) (idx ptr : Nat) (ptrs : List Nat) :
    storedArgs (Function.update argv idx (some ptr)) (idx + 1) ptrs = storedArgs argv idx (ptr :: ptrs) := by
  funext i
  unfold storedArgs
  rcases Nat.lt_trichotomy i idx with before | rfl | behind
  · rw [if_neg (by omega), if_neg (by omega), Function.update_of_ne (by omega)]
  · rw [if_neg (by omega), if_pos (by simp), Function.update_self, Nat.sub_self]
    rfl
  · have shift : i - idx = (i - (idx + 1)) + 1 := by omega
    rw [shift, List.length_cons, List.getElem?_cons_succ, Function.update_of_ne (by omega)]
    by_cases inside : i - (idx + 1) < ptrs.length
    · rw [if_pos (by omega), if_pos (by omega)]
    · rw [if_neg (by omega), if_neg (by omega)]

theorem clearArgs_eq (left : Nat) (s : ArgState) (idx : Nat) :
    (clearArgs left s idx).cmdStr = s.cmdStr ∧
      (clearArgs left s idx).stores = s.stores ++ List.range' idx left ∧
      ∀ i, (clearArgs left s idx).argv i = if idx ≤ i ∧ i < idx + left then none else s.argv i := by
  induction left generalizing s idx with
  | zero => exact ⟨rfl, (List.append_nil _).symm, fun i => (if_neg (by omega)).symm⟩
  | succ left inductionHypothesis =>
      obtain ⟨sameStr, isStored, isArg⟩ := inductionHypothesis (s.storeArg idx none) (idx + 1)
      refine ⟨sameStr, ?_, fun i => ?_⟩
      · rw [clearArgs, isStored, List.range'_succ]
        exact List.append_assoc _ _ _
      · rw [clearArgs, isArg]
        show (if _ then _ else Function.update s.argv idx none i) = _
        rcases Nat.lt_trichotomy i idx with before | rfl | behind
        · rw [if_neg (by omega), if_neg (by omega), Function.update_of_ne (by omega)]
        · rw [if_neg (by omega), if_pos (by omega), Function.update_self]
        · rw [Function.update_of_ne (by omega)]
          by_cases inside : i < idx + (left + 1)
          · rw [if_pos (by omega), if_pos (by omega)]
          · rw [if_neg (by omega), if_neg (by omega)]

/-! ### One word -/

variable {line rest : List UInt8}

theorem skipTokens_eq (notZero : (0 : UInt8) ∉ line) (stops : token = 0 → line ≠ []) (rest : List UInt8)
    (next : Nat) :
    skipTokens token (line ++ 0 :: rest) next =
      some (next + (line.takeWhile (· == token)).length) := by
  induction line generalizing next with
  | nil => exact if_neg fun isZero => stops isZero.symm rfl
  | cons char line inductionHypothesis =>
      rw [List.mem_cons, not_or] at notZero
      rw [List.cons_append, skipTokens, List.takeWhile_cons]
      by_cases isToken : char = token
      · have other : token ≠ 0 := fun isZero => notZero.1 (isToken.trans isZero).symm
        rw [if_pos isToken, inductionHypothesis notZero.2 (fun isZero => absurd isZero other),
          if_pos (beq_iff_eq.mpr isToken), List.length_cons]
        congr 1
        omega
      · rw [if_neg isToken, if_neg (fun same => isToken (beq_iff_eq.mp same))]
        rfl

theorem skipWord_eq (notZero : (0 : UInt8) ∉ line) (rest : List UInt8) (next : Nat) :
    skipWord token (line ++ 0 :: rest) next =
      some (next + (line.takeWhile (· != token)).length) := by
  induction line generalizing next with
  | nil => exact if_neg fun both => both.1 rfl
  | cons char line inductionHypothesis =>
      rw [List.mem_cons, not_or] at notZero
      rw [List.cons_append, skipWord, List.takeWhile_cons]
      by_cases isToken : char = token
      · rw [if_neg fun both => both.2 isToken, if_neg (by simp [isToken])]
        rfl
      · rw [if_pos ⟨Ne.symm notZero.1, isToken⟩, inductionHypothesis notZero.2,
          if_pos (bne_iff_ne.mpr isToken), List.length_cons]
        congr 1
        omega

/-- What one word of the line does: where it is, and what is left behind it. -/
structure WordTaken (before line rest : List UInt8) (token : UInt8) (ptr : Nat) (word mid left : List UInt8) :
    Prop where
  words : components token line = word :: components token left
  noZero : (0 : UInt8) ∉ left
  length : mid.length + left.length = line.length
  low : before.length ≤ ptr
  high : ptr < before.length + mid.length
  starts : word <+: line.drop (ptr - before.length)
  behind : line.drop mid.length = left
  holds : ∀ later : List UInt8, later.length = left.length →
    HoldsText ((before ++ mid ++ later ++ 0 :: rest).drop ptr) word

theorem getElem?_append_length (before after : List UInt8) :
    (before ++ after)[before.length]? = after.head? := by
  rw [List.getElem?_append_right (Nat.le_refl _), Nat.sub_self, List.head?_eq_getElem?]

/-- One pass of the loop, by what it finds: a word, and what stops it. -/
theorem parseWords_step {before seps word tail : List UInt8} {first next stop : UInt8} {fuel argc : Nat}
    (isStr : s.cmdStr = before ++ seps ++ word ++ tail)
    (isFirst : (seps ++ word ++ tail).head? = some first) (notEnd : first ≠ 0)
    (skips : skipTokens token (seps ++ word ++ tail) before.length = some (before ++ seps).length)
    (isNext : (word ++ tail).head? = some next) (isChar : next ≠ 0)
    (isWord : skipWord token (word ++ tail) (before ++ seps).length = some (before ++ seps ++ word).length)
    (isStop : tail.head? = some stop) :
    parseWords token (fuel + 1) s before.length argc =
      (let s' := s.storeArg argc (some (before ++ seps).length)
      let (s', next) :=
        if stop ≠ 0 then ({ s' with cmdStr := s.cmdStr.set (before ++ seps ++ word).length 0 },
          (before ++ seps ++ word).length + 1) else (s', (before ++ seps ++ word).length)
      if argc > maxArgNr then some (s', -1) else parseWords token fuel s' next (argc + 1)) := by
  have atFirst : s.cmdStr[before.length]? = some first := by
    rw [isStr, List.append_assoc, List.append_assoc, getElem?_append_length, ← List.append_assoc, isFirst]
  have atNext : s.cmdStr[(before ++ seps).length]? = some next := by
    rw [isStr, List.append_assoc, getElem?_append_length, isNext]
  have atStop : s.cmdStr[(before ++ seps ++ word).length]? = some stop := by
    rw [isStr, getElem?_append_length, isStop]
  have fromFirst : s.cmdStr.drop before.length = seps ++ word ++ tail := by
    rw [isStr, List.append_assoc, List.append_assoc, List.drop_left, List.append_assoc]
  have fromNext : s.cmdStr.drop (before ++ seps).length = word ++ tail := by
    rw [isStr, List.append_assoc, List.drop_left]
  rw [parseWords, atFirst]
  show (if first = 0 then _ else _) = _
  rw [if_neg notEnd, fromFirst, skips]
  show (s.cmdStr[(before ++ seps).length]?).bind _ = _
  rw [atNext]
  show (if next = 0 then _ else _) = _
  rw [if_neg isChar]
  show (skipWord token (s.cmdStr.drop (before ++ seps).length) _).bind _ = _
  rw [fromNext, isWord]
  show (s.cmdStr[(before ++ seps ++ word).length]?).bind _ = _
  rw [atStop]
  rfl

/-- One pass of the loop with a word in front. -/
theorem parseWords_word {before : List UInt8} {fuel argc : Nat}
    (isStr : s.cmdStr = before ++ line ++ 0 :: rest) (noZero : (0 : UInt8) ∉ line)
    (isWord : line.dropWhile (· == token) ≠ []) :
    ∃ ptr word mid left, WordTaken before line rest token ptr word mid left ∧
      parseWords token (fuel + 1) s before.length argc =
        (let s' : ArgState := ⟨before ++ mid ++ left ++ 0 :: rest,
          Function.update s.argv argc (some ptr), s.stores ++ [argc]⟩
        if argc > maxArgNr then some (s', -1) else parseWords token fuel s' (before ++ mid).length (argc + 1)) := by
  obtain ⟨seps, isSeps⟩ : ∃ seps, line.takeWhile (· == token) = seps := ⟨_, rfl⟩
  obtain ⟨others, isOthers⟩ : ∃ others, line.dropWhile (· == token) = others := ⟨_, rfl⟩
  obtain ⟨word, isFirst⟩ : ∃ word, others.takeWhile (· != token) = word := ⟨_, rfl⟩
  obtain ⟨tail, isTail⟩ : ∃ tail, others.dropWhile (· != token) = tail := ⟨_, rfl⟩
  have isLine : line = seps ++ others := by rw [← isSeps, ← isOthers, List.takeWhile_append_dropWhile]
  have isCut : others = word ++ tail := by rw [← isFirst, ← isTail, List.takeWhile_append_dropWhile]
  have notNil : word ≠ [] := by
    intro isNil
    apply isWord
    apply eq_nil_of_takeWhile
    rw [isOthers, isFirst, isNil]
  have words : components token line = word :: components token tail := by
    rw [← components_dropWhile, isOthers, components_takeWhile (by rw [isFirst]; exact notNil), isFirst,
      isTail]
  obtain ⟨char, chars, isCons⟩ := List.exists_cons_of_ne_nil notNil
  have noZeroWord : (0 : UInt8) ∉ word := fun mem => noZero (by simp [isLine, isCut, mem])
  have noZeroTail : (0 : UInt8) ∉ tail := fun mem => noZero (by simp [isLine, isCut, mem])
  have noZeroOthers : (0 : UInt8) ∉ others := fun mem => noZero (by simp [isLine, mem])
  have isStr' : s.cmdStr = before ++ seps ++ word ++ (tail ++ 0 :: rest) := by
    rw [isStr, isLine, isCut]
    simp only [List.append_assoc]
  obtain ⟨first, firsts, isStart⟩ : ∃ first firsts, line = first :: firsts :=
    List.exists_cons_of_ne_nil (by rintro rfl; exact isWord rfl)
  have atFirst : (seps ++ word ++ (tail ++ 0 :: rest)).head? = some first := by
    have whole : seps ++ word ++ (tail ++ 0 :: rest) = line ++ 0 :: rest := by
      rw [isLine, isCut]
      simp only [List.append_assoc]
    rw [whole, isStart]
    rfl
  have skips : skipTokens token (seps ++ word ++ (tail ++ 0 :: rest)) before.length =
      some (before ++ seps).length := by
    have whole : seps ++ word ++ (tail ++ 0 :: rest) = line ++ 0 :: rest := by
      rw [isLine, isCut]
      simp only [List.append_assoc]
    rw [whole, skipTokens_eq noZero (fun _ => by rw [isStart]; exact List.cons_ne_nil _ _), isSeps,
      List.length_append]
  have takes : skipWord token (word ++ (tail ++ 0 :: rest)) (before ++ seps).length =
      some (before ++ seps ++ word).length := by
    rw [← List.append_assoc, ← isCut, skipWord_eq noZeroOthers, isFirst, @List.length_append _ (before ++ seps)]
  have isHeld : ∀ more : List UInt8, HoldsText ((before ++ (seps ++ word) ++ 0 :: more).drop (before ++ seps).length) word := by
    intro more
    refine ⟨noZeroWord, more, ?_⟩
    rw [← List.append_assoc, List.append_assoc (before ++ seps), List.drop_left]
  have starts : word <+: line.drop ((before ++ seps).length - before.length) := by
    rw [List.length_append, Nat.add_sub_cancel_left, isLine, List.drop_left, isCut]
    exact List.prefix_append _ _
  have wordPos : 0 < word.length := List.length_pos_iff.mpr notNil
  have isNext : (word ++ (tail ++ 0 :: rest)).head? = some char := by rw [isCons]; rfl
  have notEnd : first ≠ 0 := fun isZero => noZero (by simp [isStart, isZero])
  have isChar : char ≠ 0 := fun isZero => noZeroWord (by simp [isCons, isZero])
  by_cases isLast : tail = []
  · subst isLast
    rw [List.append_nil] at isCut
    refine ⟨(before ++ seps).length, word, seps ++ word, [], ⟨words, List.not_mem_nil, ?_, ?_, ?_, starts,
      ?_, ?_⟩, ?_⟩
    · rw [isLine, isCut, List.length_nil, Nat.add_zero]
    · rw [List.length_append]
      exact Nat.le_add_right _ _
    · rw [List.length_append, List.length_append]
      omega
    · rw [isLine, isCut, List.drop_length]
    · intro later length
      rw [List.eq_nil_of_length_eq_zero length, List.append_nil]
      exact isHeld rest
    · have isSame : s.cmdStr = before ++ (seps ++ word) ++ [] ++ 0 :: rest := by
        rw [isStr', List.append_assoc before seps word, List.append_nil, List.nil_append]
      rw [parseWords_step isStr' atFirst notEnd skips isNext isChar takes rfl, ← isSame,
        List.append_assoc before seps word]
      simp only [ne_eq, not_true_eq_false, if_false, ArgState.storeArg]
  · obtain ⟨left, isLeft⟩ := dropWhile_head (isTail ▸ isLast)
    rw [isTail] at isLeft
    have stops : token ≠ 0 := fun isZero => noZeroTail (by simp [isLeft, isZero])
    have behindWord : (before ++ seps ++ word).length + 1 = (before ++ (seps ++ word ++ [0])).length := by
      simp only [List.length_append, List.length_cons, List.length_nil]
      omega
    refine ⟨(before ++ seps).length, word, seps ++ word ++ [0], left, ⟨?_, ?_, ?_, ?_, ?_, starts, ?_, ?_⟩, ?_⟩
    · rw [words, isLeft, components_sep_cons]
    · intro mem
      exact noZeroTail (isLeft ▸ List.mem_cons_of_mem _ mem)
    · rw [isLine, isCut, isLeft]
      simp only [List.length_append, List.length_cons, List.length_nil]
      omega
    · rw [List.length_append]
      exact Nat.le_add_right _ _
    · simp only [List.length_append, List.length_cons]
      omega
    · have length : (seps ++ word ++ [0]).length = (seps ++ word ++ [token]).length := by
        simp only [List.length_append, List.length_cons]
      have regrouped : line = seps ++ word ++ [token] ++ left := by
        rw [isLine, isCut, isLeft]
        simp only [List.append_assoc, List.cons_append, List.nil_append]
      rw [regrouped, length, List.drop_left]
    · intro later _
      have regrouped : before ++ (seps ++ word ++ [0]) ++ later ++ 0 :: rest =
          before ++ (seps ++ word) ++ 0 :: (later ++ 0 :: rest) := by
        simp only [List.append_assoc, List.cons_append, List.nil_append]
      rw [regrouped]
      exact isHeld _
    · rw [parseWords_step isStr' atFirst notEnd skips isNext isChar takes (by rw [isLeft]; rfl), ← behindWord]
      have isSet : s.cmdStr.set (before ++ seps ++ word).length 0 =
          before ++ (seps ++ word ++ [0]) ++ left ++ 0 :: rest := by
        rw [isStr', isLeft, List.set_append_right _ _ (Nat.le_refl _), Nat.sub_self]
        simp only [List.append_assoc, List.cons_append, List.set_cons_zero, List.nil_append]
      simp only [ne_eq, stops, not_false_eq_true, if_true, isSet, ArgState.storeArg]

/-- Without a word the loop ends. -/
theorem parseWords_end {before : List UInt8} {fuel argc : Nat}
    (isStr : s.cmdStr = before ++ line ++ 0 :: rest) (noZero : (0 : UInt8) ∉ line)
    (noWord : line.dropWhile (· == token) = []) :
    parseWords token (fuel + 1) s before.length argc = some (s, (argc : Int)) := by
  have atStart : s.cmdStr[before.length]? = (line ++ 0 :: rest).head? := by
    rw [isStr, List.append_assoc, getElem?_append_length]
  rw [parseWords, atStart]
  cases isLine : line with
  | nil => rfl
  | cons first firsts =>
      rw [isLine] at noZero noWord isStr
      rw [List.mem_cons, not_or] at noZero
      have allTokens : (first :: firsts).takeWhile (· == token) = first :: firsts := by
        have whole := List.takeWhile_append_dropWhile (p := (· == token)) (l := first :: firsts)
        rw [noWord, List.append_nil] at whole
        exact whole
      have fromStart : s.cmdStr.drop before.length = first :: firsts ++ 0 :: rest := by
        rw [isStr, List.append_assoc, List.drop_left]
      have skips := @skipTokens_eq token (first :: firsts) (by simp [noZero])
        (fun _ => List.cons_ne_nil _ _) rest before.length
      have atEnd : s.cmdStr[before.length + (first :: firsts).length]? = some 0 := by
        rw [isStr, ← List.length_append, getElem?_append_length]
        rfl
      rw [allTokens] at skips
      show (if first = 0 then _ else _) = _
      rw [if_neg (Ne.symm noZero.1), fromStart, skips]
      show (s.cmdStr[before.length + (first :: firsts).length]?).bind _ = _
      rw [atEnd]
      rfl

/-! ### The words -/

/-- These pointers lead to these words: in the line, which begins at `start`, and in the
bytes that are left, where each has a zero behind it. -/
structure PointsTo (cmdStr line : List UInt8) (start : Nat) (ptrs : List Nat) (words : List (List UInt8)) :
    Prop where
  ordered : ptrs.Pairwise (· < ·)
  behind : ∀ ptr ∈ ptrs, start ≤ ptr
  words : List.Forall₂ (fun ptr word => HoldsText (cmdStr.drop ptr) word ∧ word <+: line.drop (ptr - start))
    ptrs words

theorem WordTaken.points {before : List UInt8} {ptr : Nat} {word mid left : List UInt8}
    (taken : WordTaken before line rest token ptr word mid left) {later : List UInt8}
    (length : later.length = left.length) {words : List (List UInt8)}
    (points : PointsTo (before ++ mid ++ later ++ 0 :: rest) left (before ++ mid).length ptrs words) :
    PointsTo (before ++ mid ++ later ++ 0 :: rest) line before.length (ptr :: ptrs) (word :: words) where
  ordered := by
    refine List.pairwise_cons.mpr ⟨fun other mem => ?_, points.ordered⟩
    have behind := points.behind other mem
    rw [List.length_append] at behind
    exact Nat.lt_of_lt_of_le taken.high behind
  behind other mem := by
    rcases List.mem_cons.mp mem with rfl | mem
    · exact taken.low
    · have behind := points.behind other mem
      rw [List.length_append] at behind
      omega
  words := by
    refine .cons ⟨taken.holds later length, taken.starts⟩ ?_
    refine List.Forall₂.imp ?_ ((List.forall₂_and_left _ _).mpr ⟨points.behind, points.words⟩)
    rintro other found ⟨behind, holds, starts⟩
    refine ⟨holds, ?_⟩
    rw [List.length_append] at behind starts
    have shift : other - before.length = mid.length + (other - (before.length + mid.length)) := by omega
    rw [shift, ← List.drop_drop, taken.behind]
    exact starts

/-- The loop, from a word boundary on: it stores a pointer for each word, up to the
eighteenth. -/
theorem parseWords_eq {fuel : Nat} : ∀ {before line : List UInt8} {s : ArgState} {argc : Nat},
    s.cmdStr = before ++ line ++ 0 :: rest → (0 : UInt8) ∉ line → argc ≤ maxArgNr + 1 → line.length < fuel →
      ∃ s' ptrs later, parseWords token fuel s before.length argc =
          some (s', if argc + (components token line).length ≤ maxArgNr + 1 then
            ((argc + (components token line).length : Nat) : Int) else -1) ∧
        s'.argv = storedArgs s.argv argc ptrs ∧ s'.stores = s.stores ++ List.range' argc ptrs.length ∧
        s'.cmdStr = before ++ later ++ 0 :: rest ∧ later.length = line.length ∧
        PointsTo s'.cmdStr line before.length ptrs ((components token line).take (maxArgNr + 2 - argc)) := by
  induction fuel with
  | zero => exact fun _ _ _ enough => absurd enough (Nat.not_lt_zero _)
  | succ fuel inductionHypothesis =>
      intro before line s argc isStr noZero few enough
      by_cases isWord : line.dropWhile (· == token) = []
      · have noWords : components token line = [] := by
          rw [← components_dropWhile, isWord]
          rfl
        have count : argc + (components token line).length = argc := by
          rw [noWords]
          rfl
        refine ⟨s, [], line, ?_, (storedArgs_nil _ _).symm, (List.append_nil _).symm, isStr, rfl, .nil,
          fun _ mem => absurd mem List.not_mem_nil, ?_⟩
        · rw [count, if_pos few]
          exact parseWords_end isStr noZero isWord
        · rw [noWords, List.take_nil]
          exact .nil
      · obtain ⟨ptr, word, mid, left, taken, isStep⟩ := 
          @parseWords_word _ _ _ _ _ fuel argc isStr noZero isWord
        have shorter := taken.length
        have midPos : 0 < mid.length := by
          have low := taken.low
          have high := taken.high
          omega
        have isTake : (components token line).take (maxArgNr + 2 - argc) =
            word :: (components token left).take (maxArgNr + 2 - (argc + 1)) := by
          have more : maxArgNr + 2 - argc = (maxArgNr + 2 - (argc + 1)) + 1 := by omega
          rw [taken.words, more, List.take_succ_cons]
        rw [isTake, isStep, taken.words, List.length_cons]
        dsimp only
        by_cases isFull : argc > maxArgNr
        · rw [if_pos isFull, if_neg (by omega)]
          refine ⟨_, [ptr], mid ++ left, rfl, ?_, rfl, ?_, ?_, ?_⟩
          · rw [← storedArgs_cons, storedArgs_nil]
          · simp only [List.append_assoc]
          · rw [List.length_append, shorter]
          · have none : maxArgNr + 2 - (argc + 1) = 0 := by omega
            rw [none, List.take_zero]
            exact taken.points rfl ⟨.nil, fun _ mem => absurd mem List.not_mem_nil, .nil⟩
        · rw [if_neg isFull]
          obtain ⟨s', ptrs, later, isRest, isArgv, isStored, isStr', length, points⟩ :=
            @inductionHypothesis (before ++ mid) left ⟨before ++ mid ++ left ++ 0 :: rest,
              Function.update s.argv argc (some ptr), s.stores ++ [argc]⟩ (argc + 1) rfl taken.noZero
              (by omega) (by omega)
          refine ⟨s', ptr :: ptrs, mid ++ later, ?_, ?_, ?_, ?_, ?_, ?_⟩
          · rw [isRest, Nat.add_assoc argc 1, Nat.add_comm 1]
          · rw [isArgv, storedArgs_cons]
          · rw [isStored, List.length_cons, List.range'_succ, List.append_assoc]
            rfl
          · rw [isStr']
            simp only [List.append_assoc]
          · rw [List.length_append, length, shorter]
          · rw [isStr'] at points ⊢
            exact taken.points length points

/-! ### A line -/

/-- The command line and `argv` when the shell has read a line. -/
def lineRead (line : CString) (rest : List UInt8) (argv : Nat → Option Nat) : ArgState :=
  ⟨line.bytes ++ 0 :: rest, argv, []⟩

/-- `cmd_parse` leaves the words of the line in `argv`, in their order and followed by
`NULL`, and returns their number, or -1 when there are too many; nothing behind `argv` is
stored. -/
def ParsesLine (token : UInt8) (line : CString) (rest : List UInt8) (argv : Nat → Option Nat) : Prop :=
  ∃ s ret, cmdParse (lineRead line rest argv) token = some (s, ret) ∧
    ((components token line.bytes).length ≤ maxArgNr →
      ret = (components token line.bytes).length ∧
        ∃ ptrs, PointsTo s.cmdStr line.bytes 0 ptrs (components token line.bytes) ∧
          ∀ i < maxArgNr, s.argv i = ptrs[i]?) ∧
    (maxArgNr < (components token line.bytes).length → ret = -1) ∧
    ∀ i ∈ s.stores, i < maxArgNr

/-- A name is there when `my_shell` compares it. -/
def DispatchesName (line : CString) (rest : List UInt8) (argv : Nat → Option Nat) : Prop :=
  ∀ s argv0, myShellTurn (lineRead line rest argv) = some (s, .dispatched argv0) → argv0 ≠ none

theorem cmdParse_eq (token : UInt8) (line : CString) (rest : List UInt8) (argv : Nat → Option Nat) :
    ∃ s ptrs, cmdParse (lineRead line rest argv) token =
        some (s, if (components token line.bytes).length ≤ maxArgNr + 1 then
          ((components token line.bytes).length : Int) else -1) ∧
      s.stores = List.range' 0 maxArgNr ++ List.range' 0 ptrs.length ∧
      (∀ i < maxArgNr, s.argv i = ptrs[i]?) ∧
      PointsTo s.cmdStr line.bytes 0 ptrs ((components token line.bytes).take (maxArgNr + 2)) := by
  obtain ⟨sameStr, isCleared, isNull⟩ := clearArgs_eq maxArgNr (lineRead line rest argv) 0
  have enough : line.bytes.length < (lineRead line rest argv).cmdStr.length := by
    rw [lineRead, List.length_append, List.length_cons]
    omega
  obtain ⟨s, ptrs, later, isParsed, isArgv, isStored, -, -, points⟩ :=
    @parseWords_eq token rest _ [] line.bytes _ 0 sameStr line.noZero (Nat.zero_le _) enough
  rw [Nat.zero_add] at isParsed
  refine ⟨s, ptrs, isParsed, ?_, fun i inside => ?_, points⟩
  · rw [isStored, isCleared]
    rfl
  · rw [isArgv, storedArgs]
    by_cases isPtr : i < ptrs.length
    · rw [if_pos ⟨Nat.zero_le _, isPtr⟩, Nat.sub_zero]
    · rw [if_neg (fun both => isPtr both.2), isNull, if_pos (by omega), List.getElem?_eq_none (by omega)]

theorem PointsTo.length {cmdStr line : List UInt8} {start : Nat} {ptrs : List Nat}
    {words : List (List UInt8)} (points : PointsTo cmdStr line start ptrs words) :
    ptrs.length = words.length :=
  points.words.length_eq

theorem parsesLine_iff (token : UInt8) (line : CString) (rest : List UInt8) (argv : Nat → Option Nat) :
    ParsesLine token line rest argv ↔ (components token line.bytes).length ≤ maxArgNr := by
  obtain ⟨s, ptrs, isParsed, isStored, isArgv, points⟩ := cmdParse_eq token line rest argv
  have length := points.length
  rw [List.length_take] at length
  constructor
  · rintro ⟨s', ret, isParsed', -, -, inside⟩
    obtain ⟨rfl, -⟩ : s = s' ∧ _ := Prod.mk.inj (Option.some.inj (isParsed.symm.trans isParsed'))
    by_contra many
    have isIn : maxArgNr ∈ s.stores := by
      rw [isStored]
      exact List.mem_append_right _ (List.mem_range'_1.mpr (by omega))
    exact Nat.lt_irrefl _ (inside maxArgNr isIn)
  · intro few
    rw [if_pos (by omega)] at isParsed
    rw [List.take_of_length_le (by omega)] at points
    refine ⟨s, _, isParsed, fun _ => ⟨rfl, ptrs, points, isArgv⟩, fun many => absurd many (by omega), ?_⟩
    intro i isIn
    rw [isStored] at isIn
    rcases List.mem_append.mp isIn with isIn | isIn
    · rw [List.mem_range'_1] at isIn
      omega
    · rw [List.mem_range'_1] at isIn
      omega

theorem dispatchesName_iff (line : CString) (rest : List UInt8) (argv : Nat → Option Nat) :
    DispatchesName line rest argv ↔ line.bytes = [] ∨ components space line.bytes ≠ [] := by
  obtain ⟨s, ptrs, isParsed, -, isArgv, points⟩ := cmdParse_eq space line rest argv
  have length := points.length
  rw [List.length_take] at length
  cases isLine : line.bytes with
  | nil =>
      refine iff_of_true (fun s' argv0 isTurn => ?_) (.inl rfl)
      rw [myShellTurn, lineRead, isLine] at isTurn
      cases isTurn
  | cons first firsts =>
      have notZero : first ≠ 0 := fun isZero => line.noZero (by rw [isLine, isZero]; exact List.mem_cons_self)
      have isFirst : (lineRead line rest argv).cmdStr[0]? = some first := by
        rw [lineRead, isLine]
        rfl
      have isTurn : myShellTurn (lineRead line rest argv) =
          (cmdParse (lineRead line rest argv) space).bind fun parsed =>
            if parsed.2 = -1 then some (parsed.1, .tooManyArguments)
            else some (parsed.1, .dispatched (parsed.1.argv 0)) := by
        rw [myShellTurn, isFirst]
        exact if_neg notZero
      obtain ⟨ret, isRet⟩ : ∃ ret, (if (components space line.bytes).length ≤ maxArgNr + 1 then
          ((components space line.bytes).length : Int) else -1) = ret := ⟨_, rfl⟩
      rw [isParsed, isRet] at isTurn
      have isArgv0 := isArgv 0 (by decide)
      rw [← isLine]
      constructor
      · intro dispatches
        refine .inr fun noWords => ?_
        rw [noWords] at isRet length
        have isZero : ret = 0 := isRet.symm
        have isLast : myShellTurn (lineRead line rest argv) = some (s, .dispatched (s.argv 0)) := by
          rw [isTurn, isZero]
          rfl
        have noPtr : ptrs = [] := List.eq_nil_of_length_eq_zero (by rw [length]; rfl)
        rw [noPtr] at isArgv0
        exact dispatches s _ isLast isArgv0
      · intro named s' argv0 isTurn'
        have words : 0 < (components space line.bytes).length :=
          List.length_pos_iff.mpr (named.resolve_left fun isNil => by rw [isLine] at isNil; cases isNil)
        have isPtr : s.argv 0 ≠ none := by
          rw [isArgv0, List.getElem?_eq_getElem (by omega)]
          exact Option.some_ne_none _
        rw [isTurn, Option.bind_some] at isTurn'
        by_cases tooMany : ret = -1
        · rw [if_pos tooMany] at isTurn'
          cases isTurn'
        · rw [if_neg tooMany] at isTurn'
          cases isTurn'
          exact isPtr

/-- The words of a line are stored as they should exactly when there are at most
`MAX_ARG_NR`, and a name is there to compare exactly when the line is not one of spaces
only. -/
theorem cmd_parse_iff (token : UInt8) (line : CString) (rest : List UInt8) (argv : Nat → Option Nat) :
    ParsesLine token line rest argv ∧ DispatchesName line rest argv ↔
      (components token line.bytes).length ≤ maxArgNr ∧
        (line.bytes = [] ∨ components space line.bytes ≠ []) :=
  and_congr (parsesLine_iff token line rest argv) (dispatchesName_iff line rest argv)

/-- Seventeen words of one letter. -/
def seventeenWords : CString := ⟨97 :: (List.replicate 16 [space, 97]).flatten, by decide⟩

/-- One space. -/
def oneSpace : CString := ⟨[space], by decide⟩

/-- The seventeenth word is stored behind `argv` and counted; after a space alone the
shell compares `NULL`. -/
theorem seventeen_words_outside :
    (cmdParse (lineRead seventeenWords [] fun _ => none) space).map (fun parsed =>
      (parsed.2, parsed.1.stores.getLast?)) = some (17, some 16) ∧
    (myShellTurn (lineRead oneSpace [] fun _ => none)).map Prod.snd = some (.dispatched none) ∧
    ¬ ParsesLine space seventeenWords [] (fun _ => none) ∧
    ¬ DispatchesName oneSpace [] (fun _ => none) := by
  refine ⟨by decide, by decide, ?_, ?_⟩
  · rw [parsesLine_iff]
    decide
  · rw [dispatchesName_iff]
    decide

end ZyOs.Shell
