import ZyOs.Kernel.Bitmap

/-!
Contract: what `bitmap_scan` finds, exactly.

`bit_left` counts the bit the search starts from, but the loop begins one bit
later, so a search for two bits or more ends one bit past the bitmap. That bit
belongs to whatever memory follows. It decides the result exactly when the
bitmap has no run of `cnt` clear bits and ends in `cnt - 1` clear bits.

`scanRun32` and `bitmapScan32` compute as the code does, in `uint32_t` with a
result of type `int`. From `2 ^ 29` bytes on `btmp_bytes_len * 8` wraps, and an
index of `2 ^ 31` or more is a negative `int`. Below `2 ^ 28` bytes nothing
wraps (`bitmapScan32_eq`): there the functions of `ZyOs.Kernel.Bitmap`, which
count in `Nat`, are the code. Every bitmap the kernel makes is shorter.
-/

namespace ZyOs.Kernel

/-- Bits `start .. start + cnt - 1` lie below `limit` and are clear. -/
def ClearRun (btmp : Bitmap) (cnt limit start : Nat) : Prop :=
  start + cnt ≤ limit ∧ ∀ i, start ≤ i → i < start + cnt → bitmapScanTest btmp i = false

/-- `result` is the least run of `cnt` clear bits below `limit`, or -1 when there is none. -/
def LeastRun (btmp : Bitmap) (cnt limit : Nat) (result : Int) : Prop :=
  (∃ start : Nat, result = start ∧ ClearRun btmp cnt limit start ∧
    ∀ earlier < start, ¬ClearRun btmp cnt limit earlier) ∨
  (result = -1 ∧ ∀ start, ¬ClearRun btmp cnt limit start)

/-- Two bitmaps with the same bytes; the memory after them may differ. -/
def SameBytes (first second : Bitmap) : Prop :=
  first.btmpBytesLen = second.btmpBytesLen ∧
    ∀ idxByte < first.btmpBytesLen, first.bits idxByte = second.bits idxByte

/-- The last `cnt - 1` bits of the bitmap are clear. -/
def TailClear (btmp : Bitmap) (cnt : Nat) : Prop :=
  ClearRun btmp (cnt - 1) (8 * btmp.btmpBytesLen) (8 * btmp.btmpBytesLen + 1 - cnt)

/-! ### The counting loop -/

/-- A run below `limit` is a run below every larger limit. -/
theorem ClearRun.mono {btmp : Bitmap} {cnt limit wider start : Nat} (le : limit ≤ wider)
    (run : ClearRun btmp cnt limit start) : ClearRun btmp cnt wider start :=
  ⟨run.1.trans le, run.2⟩

/-- The loop finds the least run below `nextBit + bitLeft`, once the runs that
start before the one it is counting are excluded. -/
theorem scanRun_leastRun {btmp : Bitmap} {cnt limit : Nat} (bitLeft : Nat) {nextBit count : Nat}
    (ends : nextBit + bitLeft = limit) (before : count ≤ nextBit) (short : count < cnt)
    (clear : ∀ i, nextBit - count ≤ i → i < nextBit → bitmapScanTest btmp i = false)
    (earlier : ∀ start < nextBit - count, ¬ClearRun btmp cnt limit start) :
    LeastRun btmp cnt limit (scanRun btmp cnt bitLeft nextBit count) := by
  induction bitLeft generalizing nextBit count with
  | zero =>
      refine .inr ⟨rfl, ?_⟩
      intro start run
      have inside := run.1
      exact earlier start (by omega) run
  | succ bitLeft inductionHypothesis =>
      unfold scanRun
      simp only
      cases bit : bitmapScanTest btmp nextBit with
      | true =>
          -- a used bit: no run contains it, and the count restarts behind it
          have notFound : ¬0 = cnt := by omega
          simp only [if_true, if_neg notFound]
          apply inductionHypothesis (by omega) (by omega) (by omega)
          · intro i low high
            omega
          · intro start lower run
            by_cases old : start < nextBit - count
            · exact earlier start old run
            · have used := run.2 nextBit (by omega) (by omega)
              rw [bit] at used
              cases used
      | false =>
          have clear' : ∀ i, nextBit - count ≤ i → i < nextBit + 1 →
              bitmapScanTest btmp i = false := by
            intro i low high
            by_cases last : i = nextBit
            · rw [last]
              exact bit
            · exact clear i low (by omega)
          by_cases found : count + 1 = cnt
          · simp only [Bool.false_eq_true, if_false, if_pos found]
            refine .inl ⟨nextBit - count, by omega, ⟨by omega, ?_⟩, earlier⟩
            intro i low high
            exact clear' i low (by omega)
          · simp only [Bool.false_eq_true, if_false, if_neg found]
            apply inductionHypothesis (by omega) (by omega) (by omega)
            · intro i low high
              exact clear' i (by omega) high
            · intro start lower
              exact earlier start (by omega)

/-- How far `bitmap_scan` looks. -/
def scanLimit (btmp : Bitmap) (cnt : Nat) : Nat :=
  if cnt = 1 then 8 * btmp.btmpBytesLen else 8 * btmp.btmpBytesLen + 1

/-- What `bitmap_scan` returns is the least run below `scanLimit`. -/
theorem bitmapScan_leastRun {btmp : Bitmap} {cnt : Nat} (positive : 1 ≤ cnt) {result : Int}
    (scanned : bitmapScan btmp cnt = some result) :
    LeastRun btmp cnt (scanLimit btmp cnt) result := by
  rw [bitmapScan_eq] at scanned
  cases found : firstClear btmp with
  | none => simp [found] at scanned
  | some bit =>
      obtain ⟨inside, clear, least⟩ := firstClear_some found
      simp only [found, Option.map_some, Option.some.injEq] at scanned
      have onlyBit : ∀ i, bit ≤ i → i < bit + 1 → bitmapScanTest btmp i = false := by
        intro i low high
        obtain rfl : i = bit := by omega
        exact clear
      have earlier : ∀ limit, ∀ start < bit, ¬ClearRun btmp cnt limit start := by
        intro limit start lower run
        have used := least start lower
        rw [run.2 start (by omega) (by omega)] at used
        cases used
      unfold scanLimit
      by_cases one : cnt = 1
      · rw [if_pos one] at scanned ⊢
        subst one
        exact .inl ⟨bit, scanned.symm, ⟨by omega, onlyBit⟩, earlier _⟩
      · rw [if_neg one] at scanned ⊢
        rw [← scanned]
        apply scanRun_leastRun _ (by omega) (by omega) (by omega)
        · simpa using onlyBit
        · simpa using earlier (8 * btmp.btmpBytesLen + 1)

theorem LeastRun.unique {btmp : Bitmap} {cnt limit : Nat} {first second : Int}
    (one : LeastRun btmp cnt limit first) (two : LeastRun btmp cnt limit second) :
    first = second := by
  rcases one with ⟨start, rfl, run, least⟩ | ⟨rfl, missing⟩
  · rcases two with ⟨start', rfl, run', least'⟩ | ⟨rfl, missing'⟩
    · have low : ¬start < start' := fun lower => least' start lower run
      have high : ¬start' < start := fun lower => least start' lower run'
      omega
    · exact absurd run (missing' start)
  · rcases two with ⟨start', rfl, run', _⟩ | ⟨rfl, _⟩
    · exact absurd run' (missing start')
    · rfl

/-! ### The memory after the bitmap -/

theorem SameBytes.test {first second : Bitmap} (same : SameBytes first second) {i : Nat}
    (inside : i < 8 * first.btmpBytesLen) :
    bitmapScanTest second i = bitmapScanTest first i := by
  rw [bitmapScanTest_eq, bitmapScanTest_eq, same.2 (i / 8) (by omega)]

theorem SameBytes.clearRun_iff {first second : Bitmap} (same : SameBytes first second)
    {cnt start : Nat} :
    ClearRun second cnt (8 * second.btmpBytesLen) start ↔
      ClearRun first cnt (8 * first.btmpBytesLen) start := by
  unfold ClearRun
  rw [← same.1]
  refine and_congr_right fun ends => forall_congr' fun i => ?_
  refine forall_congr' fun low => forall_congr' fun high => ?_
  rw [same.test (by omega)]

theorem SameBytes.firstClear_eq {first second : Bitmap} (same : SameBytes first second) :
    firstClear second = firstClear first := by
  cases found : firstClear first with
  | none =>
      rw [firstClear_none] at found ⊢
      rw [← same.1]
      intro i inside
      rw [same.test inside]
      exact found i inside
  | some bit =>
      obtain ⟨inside, clear, least⟩ := firstClear_some found
      apply firstClear_eq_some
      · rw [← same.1]
        exact inside
      · rw [same.test inside]
        exact clear
      · intro i lower
        rw [same.test (by omega)]
        exact least i lower

/-- A run that ends one bit past the end leaves `cnt - 1` clear bits inside. -/
theorem tailClear_of_past_end {btmp : Bitmap} {cnt start : Nat} (positive : 1 ≤ cnt)
    (run : ClearRun btmp cnt (8 * btmp.btmpBytesLen + 1) start)
    (past : ¬start + cnt ≤ 8 * btmp.btmpBytesLen) : TailClear btmp cnt := by
  have ends := run.1
  refine ⟨by omega, ?_⟩
  intro i low high
  exact run.2 i (by omega) (by omega)

/-- The bitmap with clear bits after it. -/
def clearAfter (btmp : Bitmap) : Bitmap :=
  { btmp with bits := Function.update btmp.bits btmp.btmpBytesLen 0 }

theorem sameBytes_clearAfter (btmp : Bitmap) : SameBytes btmp (clearAfter btmp) := by
  refine ⟨rfl, ?_⟩
  intro idxByte inside
  simp only [clearAfter]
  rw [Function.update_of_ne (by omega)]

theorem clearAfter_past_end (btmp : Bitmap) :
    bitmapScanTest (clearAfter btmp) (8 * btmp.btmpBytesLen) = false := by
  rw [bitmapScanTest_eq]
  simp [clearAfter]

/-- With clear bits after it, a bitmap that ends in `cnt - 1` clear bits has
a run that ends one bit past it. -/
theorem TailClear.run_clearAfter {btmp : Bitmap} {cnt : Nat} (several : 2 ≤ cnt)
    (tail : TailClear btmp cnt) :
    ClearRun (clearAfter btmp) cnt (8 * btmp.btmpBytesLen + 1)
      (8 * btmp.btmpBytesLen + 1 - cnt) := by
  have same := sameBytes_clearAfter btmp
  have ends := tail.1
  refine ⟨by omega, ?_⟩
  intro i low high
  by_cases last : i = 8 * btmp.btmpBytesLen
  · rw [last]
    exact clearAfter_past_end btmp
  · rw [same.test (by omega)]
    exact tail.2 i low (by omega)

/-! ### The arithmetic of the code -/

/-- The two searches that `bitmap_scan` begins with: the first byte that is not
0xff and its first clear bit, as `idx_byte * 8 + idx_bit`. -/
def scanStart (btmp : Bitmap) : Option Nat :=
  match (List.range btmp.btmpBytesLen).find? fun idxByte => btmp.bits idxByte != 0xff#8 with
  | none => none
  | some idxByte =>
      match (List.range 8).find? fun idxBit => !bitmapScanTest btmp (idxByte * 8 + idxBit) with
      | none => none
      | some idxBit => some (idxByte * 8 + idxBit)

/-- The loop of `bitmap_scan` that counts clear bits in a row, on `uint32_t`
values; `next_bit - cnt + 1` is assigned to an `int`. -/
def scanRun32 (btmp : Bitmap) (cnt : Nat) : Nat → Nat → Nat → Int
  | 0, _, _ => -1
  | bitLeft + 1, nextBit, count =>
      let count := if bitmapScanTest btmp nextBit then 0 else (count + 1) % 2 ^ 32
      if count = cnt then
        ((nextBit : Int) - cnt + 1).bmod (2 ^ 32)
      else
        scanRun32 btmp cnt bitLeft ((nextBit + 1) % 2 ^ 32) count

/-- `bitmap_scan`; `bit_idx_start` is an `int`, `bit_left` and `next_bit` are
`uint32_t`. -/
def bitmapScan32 (btmp : Bitmap) (cnt : Nat) : Option Int :=
  match scanStart btmp with
  | none => none
  | some bitIdxStart =>
      if cnt = 1 then
        some ((bitIdxStart : Int).bmod (2 ^ 32))
      else
        some (scanRun32 btmp cnt ((btmp.btmpBytesLen * 8 + (2 ^ 32 - bitIdxStart % 2 ^ 32)) % 2 ^ 32)
          ((bitIdxStart + 1) % 2 ^ 32) 1)

/-- What a caller of `bitmap_scan` relies on: a returned index is the least run
inside the bitmap, -1 says there is none, and no byte outside takes part. -/
def ScanCorrect (btmp : Bitmap) (cnt : Nat) : Prop :=
  (∀ result, bitmapScan32 btmp cnt = some result →
    (result ≠ -1 → ∃ start : Nat, result = start ∧
      ClearRun btmp cnt (8 * btmp.btmpBytesLen) start ∧
      ∀ earlier < start, ¬ClearRun btmp cnt (8 * btmp.btmpBytesLen) earlier) ∧
    (result = -1 → ∀ start, ¬ClearRun btmp cnt (8 * btmp.btmpBytesLen) start)) ∧
  ∀ other, SameBytes btmp other → bitmapScan32 other cnt = bitmapScan32 btmp cnt

/-- The end of the bits a search for two or more tests. With
`m = btmp_bytes_len * 8` modulo `2 ^ 32`, the loop stops behind bit `m` when it
starts at or below it, and else where `next_bit` wraps; the bits it tests after
that are set, since they come before the first clear one. -/
def scanReach (btmp : Bitmap) : Nat :=
  if ∀ i < 8 * btmp.btmpBytesLen % 2 ^ 32 + 1, bitmapScanTest btmp i = true then 2 ^ 32
  else 8 * btmp.btmpBytesLen % 2 ^ 32 + 1

theorem scanStart_eq (btmp : Bitmap) : scanStart btmp = firstClear btmp := by
  have single := bitmapScan_eq btmp 1
  simp only [if_true] at single
  have cast : bitmapScan btmp 1 = (scanStart btmp).map fun bit : Nat => (bit : Int) := by
    unfold bitmapScan scanStart
    simp only [if_true]
    cases byte : (List.range btmp.btmpBytesLen).find? fun idxByte => btmp.bits idxByte != 0xff#8 with
    | none => rfl
    | some idxByte =>
        simp only
        cases bit : (List.range 8).find? fun idxBit => !bitmapScanTest btmp (idxByte * 8 + idxBit) <;> rfl
  rw [cast] at single
  exact Option.map_injective (fun _ _ => Int.ofNat.inj) single

/-- Where every bit that is left is set, the loop ends without a run. -/
theorem scanRun32_used {btmp : Bitmap} {cnt : Nat} (positive : 1 ≤ cnt) (bitLeft : Nat)
    {nextBit count : Nat}
    (used : ∀ i < bitLeft, bitmapScanTest btmp ((nextBit + i) % 2 ^ 32) = true)
    (fits : nextBit < 2 ^ 32) : scanRun32 btmp cnt bitLeft nextBit count = -1 := by
  induction bitLeft generalizing nextBit count with
  | zero => rfl
  | succ bitLeft inductionHypothesis =>
      have first := used 0 (by omega)
      rw [Nat.add_zero, Nat.mod_eq_of_lt fits] at first
      have notFound : ¬0 = cnt := by omega
      simp only [scanRun32, first, if_true, if_neg notFound]
      apply inductionHypothesis
      · intro i lower
        have next := used (i + 1) (by omega)
        rwa [Nat.mod_add_mod, Nat.add_right_comm]
      · exact Nat.mod_lt _ (by decide)

/-- The loop of the code is the one on `Nat` up to the point where `next_bit`
wraps, when the bits it meets after that are set. -/
theorem scanRun32_eq {btmp : Bitmap} {cnt : Nat} (cntFits : cnt < 2 ^ 32) (bitLeft : Nat)
    {nextBit count : Nat} (fits : nextBit ≤ 2 ^ 32) (short : count < cnt)
    (used : ∀ i, i + 2 ^ 32 < nextBit + bitLeft → bitmapScanTest btmp i = true)
    (once : nextBit + bitLeft ≤ 2 * 2 ^ 32) :
    scanRun32 btmp cnt bitLeft (nextBit % 2 ^ 32) count =
      (scanRun btmp cnt (min bitLeft (2 ^ 32 - nextBit)) nextBit count).bmod (2 ^ 32) := by
  induction bitLeft generalizing nextBit count with
  | zero =>
      rw [Nat.zero_min]
      rfl
  | succ bitLeft inductionHypothesis =>
      by_cases wrapped : nextBit = 2 ^ 32
      · subst wrapped
        rw [Nat.sub_self, Nat.min_zero, Nat.mod_self]
        apply scanRun32_used (by omega)
        · intro i lower
          rw [Nat.zero_add, Nat.mod_eq_of_lt (by omega)]
          exact used i (by omega)
        · decide
      · have room : min (bitLeft + 1) (2 ^ 32 - nextBit) =
            min bitLeft (2 ^ 32 - (nextBit + 1)) + 1 := by omega
        rw [room, Nat.mod_eq_of_lt (by omega)]
        unfold scanRun32 scanRun
        simp only
        rw [Nat.mod_eq_of_lt (by omega : count + 1 < 2 ^ 32)]
        -- the run that ends at `nextBit`
        obtain ⟨run, runEq⟩ : ∃ run, run = if bitmapScanTest btmp nextBit then 0 else count + 1 :=
          ⟨_, rfl⟩
        rw [← runEq]
        have runShort : run ≤ cnt := by
          rw [runEq]
          split <;> omega
        by_cases found : run = cnt
        · rw [if_pos found, if_pos found]
        · rw [if_neg found, if_neg found]
          apply inductionHypothesis (by omega) (by omega)
          · intro i lower
            exact used i (by omega)
          · omega

/-- From a first clear bit below `2 ^ 32` the code counts as `scanRun` does, up
to where `next_bit` wraps or `bit_left` is used up. -/
theorem bitmapScan32_found {btmp : Bitmap} {cnt bit : Nat} (several : 2 ≤ cnt) (cntFits : cnt < 2 ^ 32)
    (found : firstClear btmp = some bit) :
    ∃ count : Int, bitmapScan32 btmp cnt = some (count.bmod (2 ^ 32)) ∧
      LeastRun btmp cnt (scanReach btmp) count := by
  obtain ⟨inside, clear, least⟩ := firstClear_some found
  have scanned : bitmapScan32 btmp cnt =
      some (scanRun32 btmp cnt ((btmp.btmpBytesLen * 8 + (2 ^ 32 - bit % 2 ^ 32)) % 2 ^ 32)
        ((bit + 1) % 2 ^ 32) 1) := by
    unfold bitmapScan32
    rw [scanStart_eq, found]
    exact if_neg (by omega)
  have earlier : ∀ limit, ∀ start < bit, ¬ClearRun btmp cnt limit start := by
    intro limit start lower run
    have used := least start lower
    rw [run.2 start (by omega) (by omega)] at used
    cases used
  by_cases near : bit < 2 ^ 32
  · -- the bits that come after the wrap lie before the first clear bit
    have bitLeftSmall := Nat.mod_lt (btmp.btmpBytesLen * 8 + (2 ^ 32 - bit % 2 ^ 32)) (by decide : 2 ^ 32 > 0)
    rw [scanRun32_eq cntFits _ (by omega) (by omega) (fun i lower => least i (by omega)) (by omega)] at scanned
    refine ⟨_, scanned, scanRun_leastRun _ ?_ (by omega) (by omega) ?_
      (fun start lower => earlier _ start (by omega))⟩
    · unfold scanReach
      split
      · rename_i allUsed
        have past : ¬bit < 8 * btmp.btmpBytesLen % 2 ^ 32 + 1 := by
          intro within
          rw [allUsed bit within] at clear
          cases clear
        omega
      · rename_i someClear
        have within : bit < 8 * btmp.btmpBytesLen % 2 ^ 32 + 1 := by
          by_contra past
          exact someClear fun i lower => least i (by omega)
        omega
    · intro i low high
      obtain rfl : i = bit := by omega
      exact clear
  · -- every bit that `next_bit` can reach is set
    have reach : scanReach btmp = 2 ^ 32 := by
      refine if_pos fun i lower => least i ?_
      have := Nat.mod_lt (8 * btmp.btmpBytesLen) (by decide : 2 ^ 32 > 0)
      omega
    have nothing : scanRun32 btmp cnt ((btmp.btmpBytesLen * 8 + (2 ^ 32 - bit % 2 ^ 32)) % 2 ^ 32)
        ((bit + 1) % 2 ^ 32) 1 = -1 := by
      apply scanRun32_used (by omega)
      · intro i _
        apply least
        have := Nat.mod_lt ((bit + 1) % 2 ^ 32 + i) (by decide : 2 ^ 32 > 0)
        omega
      · exact Nat.mod_lt _ (by decide)
    rw [nothing] at scanned
    refine ⟨-1, scanned.trans (by decide), .inr ⟨rfl, ?_⟩⟩
    intro start run
    rw [reach] at run
    have ends := run.1
    exact earlier _ start (by omega) run

theorem bitmapScan32_none {btmp : Bitmap} {cnt : Nat} (full : firstClear btmp = none) :
    bitmapScan32 btmp cnt = none := by
  unfold bitmapScan32
  rw [scanStart_eq, full]

theorem bitmapScan32_one {btmp : Bitmap} {bit : Nat} (found : firstClear btmp = some bit) :
    bitmapScan32 btmp 1 = some ((bit : Int).bmod (2 ^ 32)) := by
  unfold bitmapScan32
  rw [scanStart_eq, found]
  rfl

/-! ### When the result is right -/

/-- The least run of `cnt` clear bits inside the bitmap starts at an index that
an `int` holds and, for two bits or more, ends where the search still looks. -/
def RunInReach (btmp : Bitmap) (cnt start : Nat) : Prop :=
  ClearRun btmp cnt (8 * btmp.btmpBytesLen) start ∧
    (∀ earlier < start, ¬ClearRun btmp cnt (8 * btmp.btmpBytesLen) earlier) ∧
    start < 2 ^ 31 ∧ (cnt = 1 ∨ start + cnt ≤ scanReach btmp)

/-- The bitmap has no run of `cnt` clear bits, and the bit behind it takes no
part in the search. -/
def NoRunSettled (btmp : Bitmap) (cnt : Nat) : Prop :=
  (∀ start, ¬ClearRun btmp cnt (8 * btmp.btmpBytesLen) start) ∧
    (cnt = 1 ∨ 2 ^ 29 ≤ btmp.btmpBytesLen ∨ ¬TailClear btmp cnt)

/-- An `uint32_t` assigned to an `int`. -/
theorem bmod_word {word : Nat} (fits : word < 2 ^ 32) :
    (word : Int).bmod (2 ^ 32) = if word < 2 ^ 31 then (word : Int) else word - 2 ^ 32 := by
  simp only [Int.bmod]
  split <;> split <;> omega

theorem scanReach_le (btmp : Bitmap) : scanReach btmp ≤ 2 ^ 32 := by
  unfold scanReach
  split <;> omega

/-- Below `2 ^ 29` bytes the search looks one bit past the bitmap. -/
theorem scanReach_short {btmp : Bitmap} {bit : Nat} (short : btmp.btmpBytesLen < 2 ^ 29)
    (found : firstClear btmp = some bit) : scanReach btmp = 8 * btmp.btmpBytesLen + 1 := by
  obtain ⟨inside, clear, _⟩ := firstClear_some found
  have exact_ : 8 * btmp.btmpBytesLen % 2 ^ 32 = 8 * btmp.btmpBytesLen := Nat.mod_eq_of_lt (by omega)
  unfold scanReach
  rw [exact_]
  refine if_neg fun allUsed => ?_
  rw [allUsed bit (by omega)] at clear
  cases clear

theorem scanReach_long {btmp : Bitmap} (long : 2 ^ 29 ≤ btmp.btmpBytesLen) :
    scanReach btmp ≤ 8 * btmp.btmpBytesLen := by
  unfold scanReach
  split <;> omega

theorem ClearRun.firstClear_isSome {btmp : Bitmap} {cnt start : Nat} (positive : 1 ≤ cnt)
    (run : ClearRun btmp cnt (8 * btmp.btmpBytesLen) start) : ∃ bit, firstClear btmp = some bit := by
  cases found : firstClear btmp with
  | some bit => exact ⟨bit, rfl⟩
  | none =>
      have ends := run.1
      have used := firstClear_none.mp found start (by omega)
      rw [run.2 start (by omega) (by omega)] at used
      cases used

/-- A search for one bit starts, and ends, with the first clear bit. -/
theorem leastRun_one {btmp : Bitmap} {bit : Nat} (found : firstClear btmp = some bit) :
    LeastRun btmp 1 (8 * btmp.btmpBytesLen) bit := by
  obtain ⟨inside, clear, least⟩ := firstClear_some found
  refine .inl ⟨bit, rfl, ⟨by omega, ?_⟩, ?_⟩
  · intro i low high
    obtain rfl : i = bit := by omega
    exact clear
  · intro start lower run
    have used := least start lower
    rw [run.2 start (by omega) (by omega)] at used
    cases used

/-- Of the runs below two limits the least is the same where it ends below both. -/
theorem RunInReach.leastRun {btmp : Bitmap} {cnt start : Nat} (run : RunInReach btmp cnt start)
    (several : 2 ≤ cnt) : LeastRun btmp cnt (scanReach btmp) start := by
  obtain ⟨inside, least, _, within⟩ := run
  have ends := inside.1
  have reach : start + cnt ≤ scanReach btmp := within.resolve_left (by omega)
  refine .inl ⟨start, rfl, ⟨reach, inside.2⟩, ?_⟩
  intro earlier lower other
  exact least earlier lower ⟨by omega, other.2⟩

theorem NoRunSettled.leastRun {btmp : Bitmap} {cnt bit : Nat} (settled : NoRunSettled btmp cnt)
    (several : 2 ≤ cnt) (found : firstClear btmp = some bit) :
    LeastRun btmp cnt (scanReach btmp) (-1) := by
  obtain ⟨missing, open_⟩ := settled
  refine .inr ⟨rfl, ?_⟩
  intro start run
  have ends := run.1
  by_cases long : 2 ^ 29 ≤ btmp.btmpBytesLen
  · exact missing start (run.mono (scanReach_long long))
  · rw [scanReach_short (by omega) found] at run
    by_cases past : start + cnt ≤ 8 * btmp.btmpBytesLen
    · exact missing start ⟨past, run.2⟩
    · rcases open_ with one | wide | notTail
      · omega
      · exact long wide
      · exact notTail (tailClear_of_past_end (by omega) run past)

/-- Under either condition the code returns the least run inside the bitmap. -/
theorem bitmapScan32_leastRun {btmp : Bitmap} {cnt : Nat} (positive : 1 ≤ cnt) (cntFits : cnt < 2 ^ 32)
    (settled : (∃ start, RunInReach btmp cnt start) ∨ NoRunSettled btmp cnt) {result : Int}
    (scanned : bitmapScan32 btmp cnt = some result) :
    LeastRun btmp cnt (8 * btmp.btmpBytesLen) result := by
  cases found : firstClear btmp with
  | none =>
      rw [bitmapScan32_none found] at scanned
      cases scanned
  | some bit =>
      by_cases one : cnt = 1
      · subst one
        have least := leastRun_one found
        rw [bitmapScan32_one found, Option.some.injEq] at scanned
        rcases settled with ⟨start, inside, first, small, _⟩ | ⟨missing, _⟩
        · have same := least.unique (.inl ⟨start, rfl, inside, first⟩)
          rw [same, bmod_word (by omega), if_pos small] at scanned
          rw [← scanned, ← same]
          exact least
        · rcases least with ⟨start, _, inside, _⟩ | ⟨minus, _⟩
          · exact absurd inside (missing start)
          · omega
      · obtain ⟨count, returned, least⟩ := bitmapScan32_found (by omega) cntFits found
        rw [returned, Option.some.injEq] at scanned
        rcases settled with ⟨start, run⟩ | settled
        · have same := least.unique (run.leastRun (by omega))
          obtain ⟨inside, first, small, _⟩ := run
          rw [same, bmod_word (by omega), if_pos small] at scanned
          rw [← scanned]
          exact .inl ⟨start, rfl, inside, first⟩
        · have same := least.unique (settled.leastRun (by omega) found)
          rw [same] at scanned
          exact .inr ⟨scanned.symm.trans (by decide), settled.1⟩

theorem SameBytes.runInReach {first second : Bitmap} (same : SameBytes first second) {cnt start : Nat}
    (positive : 1 ≤ cnt) (run : RunInReach first cnt start) : RunInReach second cnt start := by
  obtain ⟨inside, least, small, within⟩ := run
  obtain ⟨bit, found⟩ := inside.firstClear_isSome positive
  have reach : scanReach second = scanReach first := by
    unfold scanReach
    rw [← same.1]
    have bits : (∀ i < 8 * first.btmpBytesLen % 2 ^ 32 + 1, bitmapScanTest second i = true) ↔
        ∀ i < 8 * first.btmpBytesLen % 2 ^ 32 + 1, bitmapScanTest first i = true := by
      by_cases short : first.btmpBytesLen < 2 ^ 29
      · -- the first clear bit is one of these
        obtain ⟨bitInside, clear, _⟩ := firstClear_some found
        refine iff_of_false (fun allUsed => ?_) (fun allUsed => ?_)
        · have used := allUsed bit (by omega)
          rw [same.test bitInside, clear] at used
          cases used
        · have used := allUsed bit (by omega)
          rw [clear] at used
          cases used
      · refine forall_congr' fun i => forall_congr' fun lower => ?_
        have := Nat.mod_lt (8 * first.btmpBytesLen) (by decide : 2 ^ 32 > 0)
        rw [same.test (by omega)]
    simp only [bits]
  refine ⟨same.clearRun_iff.mpr inside, ?_, small, reach ▸ within⟩
  intro earlier lower other
  exact least earlier lower (same.clearRun_iff.mp other)

theorem SameBytes.noRunSettled {first second : Bitmap} (same : SameBytes first second) {cnt : Nat}
    (settled : NoRunSettled first cnt) : NoRunSettled second cnt := by
  obtain ⟨missing, open_⟩ := settled
  refine ⟨fun start run => missing start (same.clearRun_iff.mp run), ?_⟩
  unfold TailClear at open_ ⊢
  rw [← same.1]
  refine open_.imp_right (Or.imp_right fun notTail tail => notTail ?_)
  apply same.clearRun_iff.mp
  rwa [← same.1]

/-- The ASSERT of `bitmap_scan` holds or fails whatever follows the bitmap. -/
theorem SameBytes.scan32_isSome {first second : Bitmap} (same : SameBytes first second) (cnt : Nat) :
    (bitmapScan32 second cnt).isSome = (bitmapScan32 first cnt).isSome := by
  unfold bitmapScan32
  rw [scanStart_eq, scanStart_eq, same.firstClear_eq]
  cases firstClear first with
  | none => rfl
  | some bit =>
      simp only
      split <;> rfl

/-- A right result for a bitmap that has a run says that the search reaches it. -/
theorem ScanCorrect.runInReach {btmp : Bitmap} {cnt : Nat} (positive : 1 ≤ cnt)
    (cntFits : cnt < 2 ^ 32) (correct : ScanCorrect btmp cnt) {start : Nat}
    (inside : ClearRun btmp cnt (8 * btmp.btmpBytesLen) start)
    (first : ∀ earlier < start, ¬ClearRun btmp cnt (8 * btmp.btmpBytesLen) earlier) :
    RunInReach btmp cnt start := by
  have exact_ : ∀ {result}, bitmapScan32 btmp cnt = some result → result = start := by
    intro result scanned
    have found : result ≠ -1 := fun minus => (correct.1 result scanned).2 minus start inside
    obtain ⟨other, rfl, otherInside, otherFirst⟩ := (correct.1 result scanned).1 found
    exact LeastRun.unique (.inl ⟨other, rfl, otherInside, otherFirst⟩) (.inl ⟨start, rfl, inside, first⟩)
  obtain ⟨bit, found⟩ := inside.firstClear_isSome positive
  by_cases one : cnt = 1
  · subst one
    have same := exact_ (bitmapScan32_one found)
    have small := Int.bmod_lt (x := bit) (by decide : 0 < 2 ^ 32)
    exact ⟨inside, first, by omega, .inl rfl⟩
  · obtain ⟨count, returned, least⟩ := bitmapScan32_found (by omega) cntFits found
    have same := exact_ returned
    have small := Int.bmod_lt (x := count) (by decide : 0 < 2 ^ 32)
    rcases least with ⟨other, rfl, run, _⟩ | ⟨rfl, _⟩
    · have ends := run.1
      have reach := scanReach_le btmp
      rw [bmod_word (by omega)] at same
      split at same
      · obtain rfl : other = start := by omega
        exact ⟨inside, first, by omega, .inr ends⟩
      · omega
    · have minus : (-1 : Int).bmod (2 ^ 32) = -1 := by decide
      omega

/-- A right result for a bitmap without a run says that the bit behind it is not
looked at. -/
theorem ScanCorrect.noRunSettled {btmp : Bitmap} {cnt : Nat} (positive : 1 ≤ cnt)
    (cntFits : cnt < 2 ^ 32) (correct : ScanCorrect btmp cnt)
    (missing : ∀ start, ¬ClearRun btmp cnt (8 * btmp.btmpBytesLen) start) :
    NoRunSettled btmp cnt := by
  refine ⟨missing, ?_⟩
  by_contra open_
  simp only [not_or, not_not] at open_
  obtain ⟨notOne, short, tail⟩ := open_
  have same := sameBytes_clearAfter btmp
  obtain ⟨bit, found⟩ := tail.firstClear_isSome (by omega)
  rw [← same.firstClear_eq] at found
  obtain ⟨count, returned, least⟩ := bitmapScan32_found (by omega) cntFits found
  have reach : scanReach (clearAfter btmp) = 8 * btmp.btmpBytesLen + 1 :=
    scanReach_short (not_le.mp short) found
  rw [reach] at least
  rcases least with ⟨start, rfl, run, _⟩ | ⟨_, none_⟩
  · have ends := run.1
    rw [correct.2 _ same] at returned
    have bounds := correct.1 _ returned
    rw [bmod_word (by omega)] at bounds
    have found : (if start < 2 ^ 31 then (start : Int) else start - 2 ^ 32) ≠ -1 := by
      split <;> omega
    obtain ⟨other, _, inside, _⟩ := bounds.1 found
    exact missing other inside
  · exact none_ _ (tail.run_clearAfter (by omega))

/-- `bitmap_scan` does what its callers rely on exactly when it reaches the
least run inside the bitmap, or there is none and the bit behind the bitmap
cannot complete one. -/
theorem bitmapScan_correct_iff (btmp : Bitmap) (cnt : Nat) (positive : 1 ≤ cnt)
    (cntFits : cnt < 2 ^ 32) :
    ScanCorrect btmp cnt ↔ (∃ start, RunInReach btmp cnt start) ∨ NoRunSettled btmp cnt := by
  constructor
  · intro correct
    by_cases found : ∃ start, ClearRun btmp cnt (8 * btmp.btmpBytesLen) start
    · classical
      exact .inl ⟨Nat.find found, correct.runInReach positive cntFits (Nat.find_spec found)
        fun earlier lower => Nat.find_min found lower⟩
    · exact .inr (correct.noRunSettled positive cntFits (not_exists.mp found))
  · intro settled
    constructor
    · intro result scanned
      rcases bitmapScan32_leastRun positive cntFits settled scanned with
        ⟨start, rfl, run, least⟩ | ⟨rfl, missing⟩
      · exact ⟨fun _ => ⟨start, rfl, run, least⟩, fun minus => by omega⟩
      · exact ⟨fun found => absurd rfl found, fun _ => missing⟩
    · intro other same
      have alike := same.scan32_isSome cnt
      cases scanned : bitmapScan32 btmp cnt with
      | none => simpa [scanned] using alike
      | some result =>
          rw [scanned, Option.isSome_some] at alike
          obtain ⟨result', scanned'⟩ := Option.isSome_iff_exists.mp alike
          have moved : (∃ start, RunInReach other cnt start) ∨ NoRunSettled other cnt :=
            settled.imp (fun ⟨start, run⟩ => ⟨start, same.runInReach positive run⟩) same.noRunSettled
          have found' := bitmapScan32_leastRun positive cntFits moved scanned'
          simp only [LeastRun, same.clearRun_iff] at found'
          rw [scanned', (bitmapScan32_leastRun positive cntFits settled scanned).unique found']

/-- Three clear bits in one byte: a search for two of them. -/
theorem bitmapScan_correct_byte : ScanCorrect ⟨1, fun _ => 0xf1#8⟩ 2 := by
  apply (bitmapScan_correct_iff ⟨1, fun _ => 0xf1#8⟩ 2 (by decide) (by decide)).mpr
  refine .inl ⟨1, ⟨by decide, ?_⟩, ?_, by decide, .inr (by decide)⟩
  · intro i low high
    interval_cases i <;> decide
  · intro earlier lower run
    obtain rfl : earlier = 0 := by omega
    exact absurd (run.2 0 (by decide) (by decide)) (by decide)

/-- One clear bit at the very end and a clear bit after it: a search for two bits
returns 7, although bit 8 is not in the bitmap. -/
theorem bitmapScan_past_end : ¬ScanCorrect ⟨1, fun i => if i = 0 then 0x7f#8 else 0⟩ 2 := by
  intro correct
  have scanned : bitmapScan32 ⟨1, fun i => if i = 0 then 0x7f#8 else 0⟩ 2 = some 7 := by
    decide +kernel
  obtain ⟨start, eq, run, _⟩ := (correct.1 7 scanned).1 (by decide)
  have ends := run.1
  dsimp only at ends
  omega

/-- Nothing wraps in a bitmap of fewer than `2 ^ 28` bytes. -/
theorem bitmapScan32_eq {btmp : Bitmap} {cnt : Nat} (short : btmp.btmpBytesLen < 2 ^ 28)
    (positive : 1 ≤ cnt) (cntFits : cnt < 2 ^ 32) : bitmapScan32 btmp cnt = bitmapScan btmp cnt := by
  cases found : firstClear btmp with
  | none => rw [bitmapScan32_none found, bitmapScan_eq, found, Option.map_none]
  | some bit =>
      obtain ⟨inside, _, _⟩ := firstClear_some found
      by_cases one : cnt = 1
      · subst one
        rw [bitmapScan32_one found, bitmapScan_eq, found, bmod_word (by omega), if_pos (by omega),
          Option.map_some, if_pos rfl]
      · obtain ⟨count, returned, least⟩ := bitmapScan32_found (by omega) cntFits found
        obtain ⟨result, scanned⟩ : ∃ result, bitmapScan btmp cnt = some result := by
          rw [bitmapScan_eq, found]
          exact ⟨_, rfl⟩
        have limit : scanLimit btmp cnt = scanReach btmp := by
          rw [scanReach_short (by omega) found]
          exact if_neg one
        have same := (limit ▸ bitmapScan_leastRun positive scanned).unique least
        rw [returned, scanned, ← same]
        rcases bitmapScan_leastRun positive scanned with ⟨start, rfl, run, _⟩ | ⟨rfl, _⟩
        · have ends := run.1
          rw [limit, scanReach_short (by omega) found] at ends
          rw [bmod_word (by omega), if_pos (by omega)]
        · decide

end ZyOs.Kernel
