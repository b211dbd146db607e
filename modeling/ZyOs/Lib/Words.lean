import Mathlib.Data.List.Basic
import Mathlib.Tactic.Ring

/-!
Contract: words in a memory of bytes with 32-bit addresses.

Owns:
- `load` and `store` of a word, low byte first;
- `WordsAt`: consecutive words from an address on;
- what a store outside leaves alone.

Does not own: what the words are for. Addresses wrap around.
-/

namespace ZyOs.Lib

abbrev Word := BitVec 32

abbrev Memory := Word → BitVec 8

/-- One of the `n` bytes from `a` on. -/
abbrev Inside (a : Word) (n : Nat) (x : Word) : Prop := (x - a).toNat < n

def load (m : Memory) (a : Word) : Word := m (a + 3) ++ m (a + 2) ++ m (a + 1) ++ m a

def store (m : Memory) (a w : Word) : Memory :=
  fun x => if Inside a 4 x then w.extractLsb' (8 * (x - a).toNat) 8 else m x

variable {m m' : Memory} {a b x w : Word} {ws ws' : List Word} {n k : Nat}

theorem load_congr (same : ∀ x, Inside a 4 x → m' x = m x) : load m' a = load m a := by
  unfold load
  unfold Inside at same
  rw [same a (by bv_omega), same (a + 1) (by bv_omega), same (a + 2) (by bv_omega), same (a + 3) (by bv_omega)]

theorem bytes_append (w : Word) :
    w.extractLsb' 24 8 ++ w.extractLsb' 16 8 ++ w.extractLsb' 8 8 ++ w.extractLsb' 0 8 = w := by
  apply BitVec.eq_of_toNat_eq
  simp only [BitVec.toNat_append, BitVec.extractLsb'_toNat, Nat.shiftRight_eq_div_pow]
  have small := w.isLt
  rw [← Nat.shiftLeft_add_eq_or_of_lt (by omega), ← Nat.shiftLeft_add_eq_or_of_lt (by omega),
    ← Nat.shiftLeft_add_eq_or_of_lt (by omega)]
  simp only [Nat.shiftLeft_eq]
  omega

theorem load_store (m : Memory) (a w : Word) : load (store m a w) a = w := by
  have byte : ∀ k < 4, store m a w (a + BitVec.ofNat 32 k) = w.extractLsb' (8 * k) 8 := by
    intro k small
    have isOffset : (a + BitVec.ofNat 32 k - a).toNat = k := by bv_omega
    unfold store
    rw [if_pos (by unfold Inside; omega), isOffset]
  have first : store m a w a = w.extractLsb' 0 8 := by simpa using byte 0 (by decide)
  have second : store m a w (a + 1) = w.extractLsb' 8 8 := byte 1 (by decide)
  have third : store m a w (a + 2) = w.extractLsb' 16 8 := byte 2 (by decide)
  have fourth : store m a w (a + 3) = w.extractLsb' 24 8 := byte 3 (by decide)
  unfold load
  rw [first, second, third, fourth]
  exact bytes_append w

theorem store_other (outside : ¬ Inside a 4 x) : store m a w x = m x := if_neg outside

theorem load_store_other (apart : ∀ x, Inside b 4 x → ¬ Inside a 4 x) : load (store m a w) b = load m b :=
  load_congr fun x inside => store_other (apart x inside)

/-- Two words that do not overlap. -/
theorem load_store_apart (behind : 4 ≤ (b - a).toNat) (before : 4 ≤ (a - b).toNat) :
    load (store m a w) b = load m b := by
  refine load_store_other fun x inside => ?_
  unfold Inside at inside ⊢
  bv_omega

theorem store_apart (outside : 4 ≤ (x - a).toNat) : store m a w x = m x := store_other (Nat.not_lt.mpr outside)

/-! ### Consecutive words -/

/-- The words from `a` on, the first one at `a`. -/
def WordsAt (m : Memory) : Word → List Word → Prop
  | _, [] => True
  | a, w :: ws => load m a = w ∧ WordsAt m (a + 4) ws

theorem WordsAt.congr (fits : 4 * ws.length ≤ 2 ^ 32) (same : ∀ x, Inside a (4 * ws.length) x → m' x = m x)
    (words : WordsAt m a ws) : WordsAt m' a ws := by
  induction ws generalizing a with
  | nil => trivial
  | cons w ws inductionHypothesis =>
      rw [List.length_cons] at fits same
      unfold Inside at same inductionHypothesis
      refine ⟨(load_congr fun x inside => same x (by omega)).trans words.1, ?_⟩
      exact inductionHypothesis (by omega) (fun x inside => same x (by bv_omega)) words.2

theorem WordsAt.append : WordsAt m a (ws ++ ws') ↔ WordsAt m a ws ∧ WordsAt m (a + BitVec.ofNat 32 (4 * ws.length)) ws' := by
  induction ws generalizing a with
  | nil => simp [WordsAt]
  | cons w ws inductionHypothesis =>
      have isEnd : a + 4 + BitVec.ofNat 32 (4 * ws.length) = a + BitVec.ofNat 32 (4 * (w :: ws).length) := by
        rw [List.length_cons]
        bv_omega
      rw [List.cons_append, WordsAt, WordsAt, inductionHypothesis, isEnd, and_assoc]

/-- A word in front of the others. -/
theorem WordsAt.store_cons (fits : 4 * (ws.length + 1) ≤ 2 ^ 32) (words : WordsAt m (a + 4) ws) (w : Word) :
    WordsAt (store m a w) a (w :: ws) := by
  refine ⟨load_store m a w, words.congr (by omega) fun x inside => store_other ?_⟩
  unfold Inside at inside ⊢
  bv_omega

/-- The bytes of the words are copied. -/
theorem WordsAt.copy (copied : ∀ i < 4 * ws.length, m' (b + BitVec.ofNat 32 i) = m (a + BitVec.ofNat 32 i))
    (words : WordsAt m a ws) : WordsAt m' b ws := by
  induction ws generalizing a b with
  | nil => trivial
  | cons w ws inductionHypothesis =>
      rw [List.length_cons] at copied
      have byte : ∀ i < 4 * ws.length, m' (b + 4 + BitVec.ofNat 32 i) = m (a + 4 + BitVec.ofNat 32 i) := by
        intro i small
        have isByte : ∀ c : Word, c + 4 + BitVec.ofNat 32 i = c + BitVec.ofNat 32 (i + 4) := fun c => by bv_omega
        rw [isByte, isByte]
        exact copied (i + 4) (by omega)
      refine ⟨?_, inductionHypothesis byte words.2⟩
      rw [← words.1]
      have first : m' b = m a := by simpa using copied 0 (by omega)
      have second : m' (b + 1) = m (a + 1) := copied 1 (by omega)
      have third : m' (b + 2) = m (a + 2) := copied 2 (by omega)
      have fourth : m' (b + 3) = m (a + 3) := copied 3 (by omega)
      unfold load
      rw [first, second, third, fourth]

/-- Consecutive words are written. -/
def storeWords (m : Memory) (a : Word) : List Word → Memory
  | [] => m
  | w :: ws => store (storeWords m (a + 4) ws) a w

theorem storeWords_words (m : Memory) (a : Word) (fits : 4 * ws.length ≤ 2 ^ 32) : WordsAt (storeWords m a ws) a ws := by
  induction ws generalizing a with
  | nil => trivial
  | cons w ws inductionHypothesis =>
      rw [List.length_cons] at fits
      exact WordsAt.store_cons fits (inductionHypothesis (a + 4) (by omega)) w

theorem storeWords_other (fits : 4 * ws.length ≤ 2 ^ 32) (outside : ¬ Inside a (4 * ws.length) x) :
    storeWords m a ws x = m x := by
  induction ws generalizing a with
  | nil => rfl
  | cons w ws inductionHypothesis =>
      rw [List.length_cons] at fits outside
      unfold Inside at outside inductionHypothesis
      rw [storeWords, store_other (by unfold Inside; omega)]
      exact inductionHypothesis (by omega) (by bv_omega)

/-- One of the words is replaced. -/
theorem WordsAt.set (fits : 4 * ws.length ≤ 2 ^ 32) (words : WordsAt m a ws) (small : k < ws.length) (w : Word) :
    WordsAt (store m (a + BitVec.ofNat 32 (4 * k)) w) a (ws.set k w) := by
  induction ws generalizing a k with
  | nil => exact absurd small (Nat.not_lt_zero k)
  | cons first ws inductionHypothesis =>
      rw [List.length_cons] at fits small
      cases k with
      | zero =>
          refine ⟨by simpa using load_store m a w, words.2.congr (by omega) fun x inside => store_other ?_⟩
          unfold Inside at inside ⊢
          bv_omega
      | succ k =>
          have isNext : a + BitVec.ofNat 32 (4 * (k + 1)) = a + 4 + BitVec.ofNat 32 (4 * k) := by bv_omega
          rw [isNext]
          refine ⟨(load_store_other fun x inside => ?_).trans words.1, inductionHypothesis (by omega) words.2 (by omega)⟩
          unfold Inside at inside ⊢
          bv_omega

end ZyOs.Lib
