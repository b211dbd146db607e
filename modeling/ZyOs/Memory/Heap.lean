import ZyOs.Memory.PageInvariant
import Mathlib.Logic.Relation

/-!
Contract: the heap of `kernel/memory.c`: `block_desc_init`, `sys_malloc` and
`sys_free`.

Descriptors, arena headers and free lists are words of memory at the offsets
the compiler gives the structures: a `struct mem_block_desc` is `block_size`,
`blocks_per_arena` and the two sentinels of `free_list` (24 bytes); a `struct
arena` is `desc`, `cnt` and `large` (12 bytes); a free block is its own list
element.

Every access is word aligned, so a word is the unit of memory: `memset` clears
whole words, and a byte that a client writes changes one word.
-/

namespace ZyOs.Memory

open ZyOs.Lib ZyOs.Kernel

abbrev descCnt : Nat := 7

/-- `sizeof(struct arena)`. -/
abbrev arenaSize : Nat := 12

/-- `&descs[desc_idx]`. -/
def descAddr (descs descIdx : Nat) : Nat := descs + 24 * descIdx

/-- `&desc->free_list`. -/
def freeListOf (desc : Nat) : Nat := desc + 8

/-- `memset(dst, 0, size)`. -/
def memsetZero (m : Words) (dst size : Nat) : Words :=
  fun cell => if dst ≤ cell ∧ cell < dst + size then 0 else m cell

/-- The loop of `block_desc_init`. -/
def blockDescInitFrom (descArray : Nat) : Nat → Nat → Nat → Words → Words
  | 0, _, _, m => m
  | left + 1, descIdx, blockSize, m =>
      let desc := descAddr descArray descIdx
      let m := Function.update m desc blockSize
      let m := Function.update m (desc + 4) ((pgSize - arenaSize) / blockSize)
      let m := listInit m (freeListOf desc)
      blockDescInitFrom descArray left (descIdx + 1) (blockSize * 2) m

/-- `block_desc_init`. -/
def blockDescInit (m : Words) (descArray : Nat) : Words :=
  blockDescInitFrom descArray descCnt 0 16 m

/-- `arena2block`. -/
def arena2block (m : Words) (a idx : Nat) : Nat := a + arenaSize + idx * m (m a)

/-- `block2arena`. -/
def block2arena (b : Nat) : Nat := b / pgSize * pgSize

/-- The search for the descriptor in `sys_malloc`. -/
def findDesc (m : Words) (descs size : Nat) : Nat :=
  ((List.range descCnt).find? fun descIdx => size ≤ m (descAddr descs descIdx)).getD descCnt

/-- The loop of `sys_malloc` that puts the blocks of a new arena on the free list. -/
def fillArena (a : Nat) : Nat → Nat → Words → Except MemPanic Words
  | 0, _, m => .ok m
  | left + 1, blockIdx, m =>
      let b := arena2block m a blockIdx
      match elemFind m (freeListOf (m a)) b with
      | none => .error .elemFindLoop
      | some true => .error .mallocElemFind
      | some false => fillArena a left (blockIdx + 1) (listAppend m (freeListOf (m a)) b)

/-- The loop of `sys_free` that takes the blocks of an arena off the free list. -/
def drainArena (a : Nat) : Nat → Nat → Words → Except MemPanic Words
  | 0, _, m => .ok m
  | left + 1, blockIdx, m =>
      let b := arena2block m a blockIdx
      match elemFind m (freeListOf (m a)) b with
      | none => .error .elemFindLoop
      | some false => .error .freeElemFind
      | some true => drainArena a left (blockIdx + 1) (listRemove m b)

/-- The header and the blocks of a new arena at `a`. -/
def initArena (m : Words) (a desc : Nat) : Except MemPanic Words :=
  let m := memsetZero m a pgSize
  let m := Function.update m a desc
  let m := Function.update m (a + 8) 0
  let m := Function.update m (a + 4) (m (desc + 4))
  fillArena a (m (desc + 4)) 0 m

/-- The end of `sys_malloc`: the first free block, cleared. -/
def takeBlock (m : Words) (desc : Nat) : Words × Nat :=
  let (m, b) := listPop m (freeListOf desc)
  let m := memsetZero m b (m desc)
  let a := block2arena b
  (Function.update m (a + 4) ((m (a + 4) + (2 ^ 32 - 1)) % 2 ^ 32), b)

/-- `DIV_ROUND_UP` on `uint32_t`. -/
def divRoundUp (x step : Nat) : Nat := (x + step - 1) % 2 ^ 32 / step

/-- A large arena of `page_cnt` pages. -/
def largeArena (s : MemState) (pf : PoolFlags) (pageCnt : Nat) :
    Except MemPanic (MemState × Option Nat) :=
  match mallocPage s pf pageCnt with
  | .error panic => .error panic
  | .ok (s, none) => .ok (s, none)
  | .ok (s, some a) =>
      let m := memsetZero s.word a (pageCnt * pgSize)
      let m := Function.update m a 0
      let m := Function.update m (a + 4) pageCnt
      let m := Function.update m (a + 8) 1
      .ok ({ s with word := m }, some (a + arenaSize))

/-- `sys_malloc` of more than 1024 bytes. -/
def mallocLarge (s : MemState) (pf : PoolFlags) (size : Nat) :
    Except MemPanic (MemState × Option Nat) :=
  largeArena s pf (divRoundUp (size + arenaSize) pgSize)

/-- `sys_malloc` of at most 1024 bytes. -/
def mallocSmall (s : MemState) (pf : PoolFlags) (descs size : Nat) :
    Except MemPanic (MemState × Option Nat) :=
  let desc := descAddr descs (findDesc s.word descs size)
  if listEmpty s.word (freeListOf desc) then
    match mallocPage s pf 1 with
    | .error panic => .error panic
    | .ok (s, none) => .ok (s, none)
    | .ok (s, some a) =>
        match initArena s.word a desc with
        | .error panic => .error panic
        | .ok m => .ok ({ s with word := (takeBlock m desc).1 }, some (takeBlock m desc).2)
  else
    .ok ({ s with word := (takeBlock s.word desc).1 }, some (takeBlock s.word desc).2)

/-- `sys_malloc`. -/
def sysMalloc (s : MemState) (size : Nat) : Except MemPanic (MemState × Option Nat) :=
  let pf : PoolFlags := if s.pgdirNull then .kernel else .user
  let descs := if s.pgdirNull then s.kBlockDescs else s.uBlockDesc
  if ¬ (size > 0 ∧ size < (s.pool pf).poolSize) then
    .ok (s, none)
  else if size > 1024 then
    mallocLarge s pf size
  else
    mallocSmall s pf descs size

/-- `sys_free` of a block of a small arena. -/
def freeSmall (s : MemState) (pf : PoolFlags) (a b : Nat) : Except MemPanic MemState :=
  let desc := s.word a
  let m := listAppend s.word (freeListOf desc) b
  let m := Function.update m (a + 4) ((m (a + 4) + 1) % 2 ^ 32)
  if m (a + 4) = m (desc + 4) then
    match drainArena a (m (desc + 4)) 0 m with
    | .error panic => .error panic
    | .ok m => mfreePage { s with word := m } pf a 1
  else
    .ok { s with word := m }

/-- `sys_free`. -/
def sysFree (s : MemState) (ptr : Nat) : Except MemPanic MemState :=
  let pf : PoolFlags := if s.pgdirNull then .kernel else .user
  if ptr = 0 then
    .error .freeNull
  else if s.pgdirNull ∧ ¬ ptr ≥ kHeapStart then
    .error .freeHeapStart
  else
    let a := block2arena ptr
    if s.word (a + 8) = 0 ∨ s.word (a + 8) = 1 then
      if s.word a = 0 ∧ s.word (a + 8) = 1 then
        mfreePage s pf a (s.word (a + 4))
      else
        freeSmall s pf a ptr
    else
      .error .freeLarge

/-! ### Runs -/

/-- The bytes from `p` on that its arena's header reserves for the allocation. -/
def usable (s : MemState) (p : Nat) : Nat :=
  let a := block2arena p
  if s.word (a + 8) = 1 then s.word (a + 4) * pgSize - arenaSize else s.word (s.word a)

/-- Memory and the allocations that are live, with the sizes asked for. -/
structure HeapState where
  mem : MemState
  live : Nat → Option Nat

/-- What the holder of the heap does next: a successful call, or a store into
an allocation it holds. -/
inductive HeapStep : HeapState → HeapState → Prop where
  | malloc {s : HeapState} {size p : Nat} {t : MemState} (word32 : size < 2 ^ 32)
      (ok : sysMalloc s.mem size = .ok (t, some p)) :
      HeapStep s ⟨t, Function.update s.live p (some size)⟩
  | free {s : HeapState} {p size : Nat} {t : MemState} (isLive : s.live p = some size)
      (ok : sysFree s.mem p = .ok t) :
      HeapStep s ⟨t, Function.update s.live p none⟩
  | store {s : HeapState} {p size cell value : Nat} (isLive : s.live p = some size)
      (inside : p ≤ cell ∧ cell < p + size) (aligned : cell % 4 = 0) :
      HeapStep s ⟨{ s.mem with word := Function.update s.mem.word cell value }, s.live⟩

/-- `mem_init`. -/
def memInit (s : MemState) (allMem : Nat) : MemState :=
  let s := memPoolInit s allMem
  { s with word := blockDescInit s.word s.kBlockDescs }

/-- The page tables at boot, as in `KernelTables`; `k_block_descs` lies in the kernel
image. -/
structure Booted (s : MemState) : Prop where
  pgdirNull : s.pgdirNull = true
  pde : ∀ idx, 768 ≤ idx → idx < 1023 → s.pde idx % 2 = 1
  pte : ∀ page, 0xc0100 ≤ page → page < 0xffc00 → s.pte page % 2 = 0
  descsHigh : s.kBlockDescs + 24 * descCnt ≤ kHeapStart
  descsLow : 0 < s.kBlockDescs

/-- The state after `block_desc_init(k_block_descs)`, for a kernel task. -/
structure HeapInitial (s : HeapState) : Prop where
  layout : Layout s.mem
  pgdirNull : s.mem.pgdirNull = true
  poolSize : s.mem.kernelPool.poolSize < 2 ^ 31
  descsHigh : s.mem.kBlockDescs + 24 * descCnt ≤ kHeapStart
  descsLow : 0 < s.mem.kBlockDescs
  blockDescs : ∃ m, s.mem.word = blockDescInit m s.mem.kBlockDescs
  live : ∀ p, s.live p = none

def HeapReachable (start s : HeapState) : Prop :=
  HeapInitial start ∧ Relation.ReflTransGen HeapStep start s

end ZyOs.Memory
