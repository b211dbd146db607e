import ZyOs.Memory.FreeLists
import Mathlib.Data.Finset.Card
import Mathlib.Data.Finset.Image

/-!
Contract: the invariant of the kernel heap and what each call does to it.

`HeapInv start s live arena free` explains a state by its arenas (`arena q` is
the arena whose first page is page `q` of the heap area) and its free lists:
the pages in use are those of the arenas, a block of a small arena is either
live or on the free list of its size, a large arena holds one live allocation,
and the words of memory agree with all of that.

`Busy` says that every small arena has a live block. It fails only between the
creation of an arena and the first block taken from it, and between the last
block given back and the arena's end.
-/

namespace ZyOs.Memory

open ZyOs.Lib ZyOs.Kernel

/-! ### Blocks -/

/-- The block size of descriptor `d`. -/
def blockSize (d : Nat) : Nat := 16 * 2 ^ d

def blocksPerArena (d : Nat) : Nat := (pgSize - arenaSize) / blockSize d

/-- Block `idx` of a small arena on page `q` with descriptor `d`. -/
def blockAddr (q d idx : Nat) : Nat := heapAddr q + arenaSize + idx * blockSize d

theorem blockSize_pos (d : Nat) : 0 < blockSize d := by
  exact Nat.mul_pos (by decide) (Nat.two_pow_pos d)

theorem blocksPerArena_pos : ∀ d < descCnt, 0 < blocksPerArena d := by
  decide

/-- A block ends inside its page and starts 12 bytes after a multiple of 16. -/
theorem blockAddr_bounds {d idx : Nat} (inArena : idx < blocksPerArena d) (q : Nat) :
    heapAddr q + 12 ≤ blockAddr q d idx ∧
      blockAddr q d idx + blockSize d ≤ heapAddr q + 4096 ∧
      16 ≤ blockSize d ∧ blockAddr q d idx % 16 = 12 := by
  have fits : (idx + 1) * blockSize d ≤ pgSize - arenaSize :=
    (Nat.le_div_iff_mul_le (blockSize_pos d)).mp inArena
  have multiple : idx * blockSize d = 16 * (idx * 2 ^ d) := by
    rw [blockSize, Nat.mul_left_comm]
  have atLeast : 16 * 1 ≤ 16 * 2 ^ d := Nat.mul_le_mul_left _ Nat.one_le_two_pow
  rw [Nat.succ_mul] at fits
  simp only [blockAddr, heapAddr, kHeapStart, pgSize, arenaSize] at fits ⊢
  unfold blockSize at *
  omega

theorem block2arena_of_bounds {q p : Nat} (low : heapAddr q ≤ p) (high : p < heapAddr q + 4096) :
    block2arena p = heapAddr q := by
  simp only [block2arena, heapAddr, kHeapStart, pgSize] at *
  omega

/-- The allocation of a large arena starts right after its header. -/
theorem block2arena_first (q : Nat) : block2arena (heapAddr q + arenaSize) = heapAddr q := by
  refine block2arena_of_bounds (by omega) ?_
  simp only [arenaSize]
  omega

theorem block2arena_blockAddr {d idx : Nat} (inArena : idx < blocksPerArena d) (q : Nat) :
    block2arena (blockAddr q d idx) = heapAddr q := by
  obtain ⟨low, high, size, _⟩ := blockAddr_bounds inArena q
  exact block2arena_of_bounds (by omega) (by omega)

theorem heapAddr_lt_of_lt {q r : Nat} (lt : q < r) : heapAddr q + 4096 ≤ heapAddr r := by
  simp only [heapAddr, pgSize]
  omega

theorem blockAddr_inj {q r d e i j : Nat} (inD : i < blocksPerArena d) (inE : j < blocksPerArena e)
    (same : blockAddr q d i = blockAddr r e j) : q = r := by
  refine heapAddr_inj ?_
  rw [← block2arena_blockAddr inD q, ← block2arena_blockAddr inE r, same]

theorem blockAddr_inj_idx {q d i j : Nat} (same : blockAddr q d i = blockAddr q d j) : i = j := by
  simp only [blockAddr] at same
  exact Nat.eq_of_mul_eq_mul_right (blockSize_pos d) (by omega)

/-- Different blocks of one size do not overlap. -/
theorem blockAddr_disjoint {q d i r j : Nat} (inI : i < blocksPerArena d)
    (inJ : j < blocksPerArena d) (ne : blockAddr q d i ≠ blockAddr r d j) :
    blockAddr q d i + blockSize d ≤ blockAddr r d j ∨
      blockAddr r d j + blockSize d ≤ blockAddr q d i := by
  obtain ⟨lowI, highI, _, _⟩ := blockAddr_bounds inI q
  obtain ⟨lowJ, highJ, _, _⟩ := blockAddr_bounds inJ r
  rcases Nat.lt_trichotomy q r with lt | rfl | lt
  · have := heapAddr_lt_of_lt lt
    omega
  · rcases Nat.lt_trichotomy i j with lt | rfl | lt
    · have := Nat.mul_le_mul_right (blockSize d) lt
      rw [Nat.succ_mul] at this
      unfold blockAddr
      omega
    · exact absurd rfl ne
    · have := Nat.mul_le_mul_right (blockSize d) lt
      rw [Nat.succ_mul] at this
      unfold blockAddr
      omega
  · have := heapAddr_lt_of_lt lt
    omega

/-! ### The invariant -/

inductive Arena where
  | small (d : Nat)
  | large (cnt : Nat)
deriving DecidableEq, Repr

def Arena.pages : Arena → Nat
  | .small _ => 1
  | .large cnt => cnt

/-- The pages of all arenas. -/
def usedPages (arena : Nat → Option Arena) : Set Nat :=
  { page | ∃ q k, arena q = some k ∧ page ∈ Set.Ico q (q + k.pages) }

/-- The free blocks of a small arena. -/
def freeIn (live : Nat → Option Nat) (q d : Nat) : Finset Nat :=
  (Finset.range (blocksPerArena d)).filter fun idx => live (blockAddr q d idx) = none

/-- The words of a small arena's header. -/
structure SmallHeader (descs : Nat) (m : Words) (live : Nat → Option Nat) (q d : Nat) : Prop where
  inDescs : d < descCnt
  desc : m (heapAddr q) = descAddr descs d
  cnt : m (heapAddr q + 4) = (freeIn live q d).card
  large : m (heapAddr q + 8) = 0

/-- The words of a large arena's header. -/
structure LargeHeader (m : Words) (q cnt : Nat) : Prop where
  positive : 0 < cnt
  desc : m (heapAddr q) = 0
  cnt : m (heapAddr q + 4) = cnt
  large : m (heapAddr q + 8) = 1

structure HeapInv (start s : MemState) (live : Nat → Option Nat) (arena : Nat → Option Arena)
    (free : Nat → List Nat) : Prop where
  pages : PageInv start s (usedPages arena)
  apart : ∀ q k r l, arena q = some k → arena r = some l → q < r → q + k.pages ≤ r
  lists : FreeLists start.kBlockDescs s.word free
  sizes : ∀ d < descCnt, s.word (descAddr start.kBlockDescs d) = blockSize d ∧
    s.word (descAddr start.kBlockDescs d + 4) = blocksPerArena d
  small : ∀ q d, arena q = some (.small d) → SmallHeader start.kBlockDescs s.word live q d
  large : ∀ q cnt, arena q = some (.large cnt) →
    LargeHeader s.word q cnt ∧ live (heapAddr q + arenaSize) ≠ none
  freeIff : ∀ d < descCnt, ∀ b, b ∈ free d ↔ ∃ q idx, arena q = some (.small d) ∧
    idx < blocksPerArena d ∧ b = blockAddr q d idx ∧ live b = none
  liveIn : ∀ p size, live p = some size →
    (∃ q d idx, arena q = some (.small d) ∧ idx < blocksPerArena d ∧ p = blockAddr q d idx ∧
      size ≤ blockSize d) ∨
    (∃ q cnt, arena q = some (.large cnt) ∧ p = heapAddr q + arenaSize ∧
      size + arenaSize ≤ cnt * pgSize)

def Busy (live : Nat → Option Nat) (arena : Nat → Option Arena) : Prop :=
  ∀ q d, arena q = some (.small d) → ∃ idx < blocksPerArena d, live (blockAddr q d idx) ≠ none

/-- What the heap needs of the state it starts from. -/
structure HeapLayout (start : MemState) : Prop where
  layout : Layout start
  pgdirNull : start.pgdirNull = true
  poolSize : start.kernelPool.poolSize < 2 ^ 31
  descsHigh : start.kBlockDescs + 24 * descCnt ≤ kHeapStart
  descsLow : 0 < start.kBlockDescs

section

variable {start s : MemState} {live : Nat → Option Nat} {arena : Nat → Option Arena}
  {free : Nat → List Nat}

theorem HeapInv.page_lt (inv : HeapInv start s live arena free) {q page : Nat} {k : Arena}
    (isArena : arena q = some k) (mem : page ∈ Set.Ico q (q + k.pages)) :
    page < heapPages start := by
  obtain ⟨frame, map⟩ := inv.pages.map
  exact map.inArea page ⟨q, k, isArena, mem⟩

theorem HeapInv.heapAddr_below (inv : HeapInv start s live arena free) (layout : HeapLayout start)
    {q page : Nat} {k : Arena} (isArena : arena q = some k)
    (mem : page ∈ Set.Ico q (q + k.pages)) : heapAddr page + 4096 ≤ 0xffc00000 := by
  have lt := inv.page_lt isArena mem
  have high := layout.layout.vaddrHigh
  have := heapAddr_lt_of_lt lt
  omega

/-- Blocks of small arenas are addresses at which a block can start. -/
theorem HeapInv.isBlock (inv : HeapInv start s live arena free) (layout : HeapLayout start)
    {q d idx : Nat} (isArena : arena q = some (.small d)) (inArena : idx < blocksPerArena d) :
    IsBlock (blockAddr q d idx) := by
  obtain ⟨low, high, size, aligned⟩ := blockAddr_bounds inArena q
  have firstPage : q ∈ Set.Ico q (q + (Arena.small d).pages) := ⟨le_refl _, by simp [Arena.pages]⟩
  have below := inv.heapAddr_below layout isArena firstPage
  refine ⟨?_, by omega, aligned, ?_⟩
  · unfold heapAddr at low
    omega
  · simp only [heapAddr, kHeapStart, pgSize] at low high ⊢
    omega

/-- The pages of two arenas do not meet. -/
theorem HeapInv.sameArena (inv : HeapInv start s live arena free) {q r page : Nat} {k l : Arena}
    (isArena : arena q = some k) (isOther : arena r = some l)
    (inFirst : page ∈ Set.Ico q (q + k.pages)) (inSecond : page ∈ Set.Ico r (r + l.pages)) :
    q = r := by
  rcases Nat.lt_trichotomy q r with lt | same | lt
  · have := inv.apart q k r l isArena isOther lt
    simp only [Set.mem_Ico] at inFirst inSecond
    omega
  · exact same
  · have := inv.apart r l q k isOther isArena lt
    simp only [Set.mem_Ico] at inFirst inSecond
    omega

/-- The words the invariant reads: the descriptors, the arena headers and the list
words of the free blocks. -/
theorem HeapInv.setWord (inv : HeapInv start s live arena free) (layout : HeapLayout start)
    {m : Words} (low : ∀ cell, start.kBlockDescs ≤ cell → cell < start.kBlockDescs + 24 * descCnt →
      m cell = s.word cell)
    (header : ∀ q k, arena q = some k → ∀ offset < arenaSize,
      m (heapAddr q + offset) = s.word (heapAddr q + offset))
    (nodes : ∀ d < descCnt, ∀ b ∈ free d, m b = s.word b ∧ m (b + 4) = s.word (b + 4)) :
    HeapInv start { s with word := m } live arena free where
  pages := inv.pages.setWord m
  apart := inv.apart
  lists := by
    refine inv.lists.congr ?_
    intro d inDescs x mem
    have descsHigh := layout.descsHigh
    simp only [descCnt, kHeapStart] at descsHigh inDescs
    simp only [nodesOf, List.cons_append, List.mem_cons, List.mem_append, List.not_mem_nil,
      or_false, freeListOf, descAddr, tailOf] at mem
    rcases mem with head | inside | tail
    · exact ⟨low x (by omega) (by simp only [descCnt]; omega),
        low (x + 4) (by omega) (by simp only [descCnt]; omega)⟩
    · exact nodes d inDescs x inside
    · exact ⟨low x (by omega) (by simp only [descCnt]; omega),
        low (x + 4) (by omega) (by simp only [descCnt]; omega)⟩
  sizes := by
    intro d inDescs
    have descsHigh := layout.descsHigh
    simp only [descCnt, kHeapStart] at descsHigh inDescs
    have sizes := inv.sizes d inDescs
    simp only
    rw [low _ (by unfold descAddr; omega) (by simp only [descAddr, descCnt]; omega),
      low _ (by unfold descAddr; omega) (by simp only [descAddr, descCnt]; omega)]
    exact sizes
  small := by
    intro q d isArena
    obtain ⟨inDescs, desc, cnt, large⟩ := inv.small q d isArena
    have at0 := header q _ isArena 0 (by decide)
    rw [Nat.add_zero] at at0
    refine ⟨inDescs, by simp only; rw [at0, desc], ?_, ?_⟩
    · simp only
      rw [header q _ isArena 4 (by decide), cnt]
    · simp only
      rw [header q _ isArena 8 (by decide), large]
  large := by
    intro q n isArena
    obtain ⟨⟨positive, desc, cnt, large⟩, isLive⟩ := inv.large q n isArena
    have at0 := header q _ isArena 0 (by decide)
    rw [Nat.add_zero] at at0
    refine ⟨⟨positive, by simp only; rw [at0, desc], ?_, ?_⟩, isLive⟩
    · simp only
      rw [header q _ isArena 4 (by decide), cnt]
    · simp only
      rw [header q _ isArena 8 (by decide), large]
  freeIff := inv.freeIff
  liveIn := inv.liveIn

end

end ZyOs.Memory
