import ZyOs.Memory.HeapAccesses
import ZyOs.Memory.HeapRun

/-!
Contract: the kernel heap behind the page tables and the TLB.

Owns:
- the machine that the heap runs on: physical memory, page tables and the entries of the TLB;
- `sys_malloc` and `sys_free` on it, each access translated;
- runs of calls and stores, in which the processor may load an entry from the page tables, drop
  one, or lose them all when CR3 is loaded.

`page_table_pte_remove` clears the present bit of a page and then runs `invlpg` with the memory
operand `"m" (vaddr)`: the address of the stack slot that holds `vaddr`. So the entry of the
page on the stack goes, and that of the page that was unmapped stays.

The page tables themselves are words that `pte_ptr` reaches through the self-map; their own
translations do not change in these runs, and they are kept apart as in `Memory.Pages`.
-/

namespace ZyOs.Memory

open ZyOs.Lib ZyOs.Kernel

/-- `mem.word` is physical memory here; `stackPage` is the page of the running task's kernel
stack. -/
structure TlbMem where
  mem : MemState
  tlb : Nat → Option Nat
  stackPage : Nat

/-- The frame that the page tables name for a page. -/
def tableFrame (s : MemState) (page : Nat) : Option Nat :=
  if s.pde (pdeIdx (page * pgSize)) % 2 = 1 ∧ s.pte page % 2 = 1 then some (s.pte page / pgSize) else none

def TlbMem.paged (s : TlbMem) : Paged := ⟨s.mem.word, tableFrame s.mem, s.tlb⟩

namespace Tlb

open Accesses (HeapProg)

abbrev TlbCall (α : Type) : Type := StateT TlbMem (Except (AccessStop MemPanic)) α

/-- Accesses to memory, one after the other. -/
def access {α : Type} (prog : HeapProg α) : TlbCall α := fun s =>
  match prog.runPaged pgSize s.paged with
  | .error stop => .error stop
  | .ok (value, m) => .ok (value, { s with mem := { s.mem with word := m.words }, tlb := m.tlb })

/-- `malloc_page`. -/
def mallocPage (pf : PoolFlags) (pgCnt : Nat) : TlbCall (Option Nat) := fun s =>
  match Memory.mallocPage s.mem pf pgCnt with
  | .error panic => .error (.fail panic)
  | .ok (mem, vaddr) => .ok (vaddr, { s with mem := mem })

/-- `mfree_page`; the `invlpg` behind each page is for the page of the stack. -/
def mfreePage (pf : PoolFlags) (vaddr pgCnt : Nat) : TlbCall Unit := fun s =>
  match Memory.mfreePage s.mem pf vaddr pgCnt with
  | .error panic => .error (.fail panic)
  | .ok mem => .ok ((), { s with mem := mem, tlb := Function.update s.tlb s.stackPage none })

/-- A large arena of `page_cnt` pages. -/
def largeArena (pf : PoolFlags) (pageCnt : Nat) : TlbCall (Option Nat) := do
  match ← mallocPage pf pageCnt with
  | none => pure none
  | some a => do
      access (Accesses.largeArena a pageCnt)
      pure (some (a + arenaSize))

/-- The end of `sys_malloc` of at most 1024 bytes. -/
def takeBlock (desc : Nat) : TlbCall (Option Nat) := do
  let b ← access (Accesses.takeBlock desc)
  pure (some b)

/-- `sys_malloc` of at most 1024 bytes. -/
def mallocSmall (pf : PoolFlags) (descs size : Nat) : TlbCall (Option Nat) := do
  let descIdx ← access (Accesses.findDesc descs size)
  let desc := descAddr descs descIdx
  if ← access (Accesses.listEmpty (freeListOf desc)) then
    match ← mallocPage pf 1 with
    | none => pure none
    | some a => do
        access (Accesses.initArena a desc)
        takeBlock desc
  else
    takeBlock desc

/-- `sys_malloc`. -/
def sysMalloc (size : Nat) : TlbCall (Option Nat) := do
  let s ← get
  let pf : PoolFlags := if s.mem.pgdirNull then .kernel else .user
  let descs := if s.mem.pgdirNull then s.mem.kBlockDescs else s.mem.uBlockDesc
  if ¬ (size > 0 ∧ size < (s.mem.pool pf).poolSize) then
    pure none
  else if size > 1024 then
    largeArena pf (divRoundUp (size + arenaSize) pgSize)
  else
    mallocSmall pf descs size

/-- `sys_free`. -/
def sysFree (ptr : Nat) : TlbCall Unit := do
  let s ← get
  let pf : PoolFlags := if s.mem.pgdirNull then .kernel else .user
  if ptr = 0 then
    throw (.fail .freeNull)
  else if s.mem.pgdirNull ∧ ¬ ptr ≥ kHeapStart then
    throw (.fail .freeHeapStart)
  else do
    let a := block2arena ptr
    let large ← access (Prog.load (a + 8))
    if large = 0 ∨ large = 1 then do
      let desc ← access (Prog.load a)
      if desc = 0 ∧ large = 1 then do
        let cnt ← access (Prog.load (a + 4))
        mfreePage pf a cnt
      else do
        if ← access (Accesses.freeBlock a ptr) then
          mfreePage pf a 1
        else
          pure ()
    else
      throw (.fail .freeLarge)

/-- `mem_init`. -/
def memInit (allMem : Nat) : TlbCall Unit := do
  modify fun s => { s with mem := memPoolInit s.mem allMem }
  let s ← get
  access (Accesses.blockDescInit s.mem.kBlockDescs)

end Tlb

/-! ### Runs -/

/-- The machine and the allocations that are live, with the sizes asked for. -/
structure TlbHeap where
  machine : TlbMem
  live : Nat → Option Nat

/-- The heap as its accesses find it. -/
def TlbHeap.seen (s : TlbHeap) : HeapState :=
  ⟨{ s.machine.mem with word := s.machine.paged.view pgSize }, s.live⟩

/-- What happens next: a call, a store into a live allocation, or something the processor does
with its TLB. -/
inductive TlbAct where
  | malloc (size : Nat)
  | free (p : Nat)
  | store (cell value : Nat)
  | load (page : Nat)
  | drop (page : Nat)
  | loadCr3

inductive TlbStep : TlbHeap → TlbAct → TlbHeap → Prop where
  | malloc {s : TlbHeap} {size p : Nat} {t : TlbMem} (word32 : size < 2 ^ 32)
      (ok : Tlb.sysMalloc size s.machine = .ok (some p, t)) :
      TlbStep s (.malloc size) ⟨t, Function.update s.live p (some size)⟩
  | free {s : TlbHeap} {p size : Nat} {t : TlbMem} (isLive : s.live p = some size)
      (ok : Tlb.sysFree p s.machine = .ok ((), t)) :
      TlbStep s (.free p) ⟨t, Function.update s.live p none⟩
  | store {s : TlbHeap} {p size cell value : Nat} {t : TlbMem} (isLive : s.live p = some size)
      (inside : p ≤ cell ∧ cell < p + size) (aligned : cell % 4 = 0)
      (ok : Tlb.access (Prog.store cell value) s.machine = .ok ((), t)) :
      TlbStep s (.store cell value) ⟨t, s.live⟩
  | load {s : TlbHeap} {page frame : Nat} (isMapped : tableFrame s.machine.mem page = some frame) :
      TlbStep s (.load page)
        ⟨{ s.machine with tlb := Function.update s.machine.tlb page (some frame) }, s.live⟩
  | drop {s : TlbHeap} (page : Nat) :
      TlbStep s (.drop page) ⟨{ s.machine with tlb := Function.update s.machine.tlb page none }, s.live⟩
  | loadCr3 {s : TlbHeap} : TlbStep s .loadCr3 ⟨{ s.machine with tlb := fun _ => none }, s.live⟩

/-- The first megabyte is mapped at `0xc0000000`. -/
def ImageMapped (s : MemState) : Prop :=
  ∀ page, 0xc0000 ≤ page → page < 0xc0100 → tableFrame s page = some (page - 0xc0000)

/-- The TLB has no entry for the pages of a set but what the page tables say. -/
def EntriesAgree (s : TlbMem) (pages : Set Nat) : Prop :=
  ∀ page ∈ pages, ∀ frame, s.tlb page = some frame → tableFrame s.mem page = some frame

/-- The pages of the kernel image. -/
def imagePages : Set Nat := Set.Ico 0xc0000 0xc0100

/-- The state after `block_desc_init(k_block_descs)`, for a kernel task. The TLB may hold any
entries for pages of the heap area. -/
structure TlbInitial (s : TlbHeap) : Prop where
  layout : Layout s.machine.mem
  pgdirNull : s.machine.mem.pgdirNull = true
  poolSize : s.machine.mem.kernelPool.poolSize < 2 ^ 31
  descsHigh : s.machine.mem.kBlockDescs + 24 * descCnt ≤ kHeapStart
  descsLow : 0xc0000000 ≤ s.machine.mem.kBlockDescs
  image : ImageMapped s.machine.mem
  entries : EntriesAgree s.machine imagePages
  blockDescs : ∃ m, ∀ cell, s.machine.mem.kBlockDescs ≤ cell →
    cell < s.machine.mem.kBlockDescs + 24 * descCnt →
    s.seen.mem.word cell = blockDescInit m s.machine.mem.kBlockDescs cell
  live : ∀ p, s.live p = none

/-- A run of steps that are allowed where they are taken. -/
def TlbReachable (allowed : TlbHeap → TlbAct → Prop) (start s : TlbHeap) : Prop :=
  TlbInitial start ∧
    Relation.ReflTransGen (fun s t => ∃ act, allowed s act ∧ TlbStep s act t) start s

/-- The pages that `sys_malloc` asks `malloc_page` for. -/
def pagesAsked (s : TlbHeap) (size : Nat) : Nat :=
  let descs := s.machine.mem.kBlockDescs
  let m := s.seen.mem.word
  if size > 1024 then divRoundUp (size + arenaSize) pgSize
  else if listEmpty m (freeListOf (descAddr descs (findDesc m descs size))) then 1
  else 0

/-- For each page that the call is about to map, the TLB holds no entry, or one for the very
frame that the page is mapped to. -/
def entriesFit (s : TlbHeap) (size : Nat) : Bool :=
  match mallocPage s.machine.mem .kernel (pagesAsked s size) with
  | .ok (t, some a) => (List.range (pagesAsked s size)).all fun i =>
      s.machine.tlb (pageOf a + i) == none ||
        s.machine.tlb (pageOf a + i) == tableFrame t (pageOf a + i)
  | _ => true

/-- No `sys_malloc` maps a page of which the TLB has kept an entry for another frame. -/
def NoStaleEntry (s : TlbHeap) : TlbAct → Prop
  | .malloc size => entriesFit s size = true
  | _ => True

/-! ### Safety -/

/-- The words of the heap: those of its live allocations, its headers and its free blocks. -/
def HeapWord (s : HeapState) (free : Nat → List Nat) (cell : Nat) : Prop :=
  (∃ p, s.live p ≠ none ∧ p ≤ cell ∧ cell < p + usable s.mem p) ∨
    (∃ a, IsArena s free a ∧ a ≤ cell ∧ cell < a + arenaSize) ∨
    ∃ d < descCnt, ∃ b ∈ free d, b ≤ cell ∧ cell < b + s.mem.word (descAddr s.mem.kBlockDescs d)

/-- What holds of the kernel heap and of the next call, when that is one of those `allowed`. -/
structure TlbSafe (allowed : TlbHeap → TlbAct → Prop) (start s : TlbHeap) (free : Nat → List Nat) :
    Prop where
  shape : HeapShape start.seen s.seen free
  -- each word of the heap is backed by a physical word of its own
  backed : ∀ cell, HeapWord s.seen free cell → s.machine.paged.translate pgSize cell ≠ none
  apart : Set.InjOn (s.machine.paged.translate pgSize) { cell | HeapWord s.seen free cell }
  zero : ∀ size p t, allowed s (.malloc size) → Tlb.sysMalloc size s.machine = .ok (some p, t) →
    s.live p = none ∧ ∀ cell, p ≤ cell → cell < p + size → t.paged.view pgSize cell = 0
  -- only exhaustion of the bitmaps and the page limit can stop a call
  mallocAsserts : ∀ size stop, allowed s (.malloc size) → Tlb.sysMalloc size s.machine = .error stop →
    stop = .fail .bitmapScan ∨ stop = .fail .mallocPageCnt
  freeAsserts : ∀ p, s.live p ≠ none → ∃ t, Tlb.sysFree p s.machine = .ok ((), t)

end ZyOs.Memory
