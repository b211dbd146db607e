import ZyOs.Memory.PageDemand
import ZyOs.Memory.HeapRun
import ZyOs.Memory.PageRun

/-!
Contract: what `sys_malloc` does when memory runs short.

Owns:
- the exact condition under which `sys_malloc` returns, be it `NULL`;
- what it needs of the descriptors, in the kernel and in a process.

`sys_malloc` compares the size with the pool, not with what is left of it, so that
the limit of `malloc_page` and the `ASSERT` of `bitmap_scan` are within reach.
-/

namespace ZyOs.Memory

open ZyOs.Lib ZyOs.Kernel

/-- `PF` of the running task. -/
def runningPf (s : MemState) : PoolFlags := if s.pgdirNull then .kernel else .user

/-- `descs` of the running task. -/
def runningDescs (s : MemState) : Nat := if s.pgdirNull then s.kBlockDescs else s.uBlockDesc

/-- `&descs[desc_idx]` for a size. -/
def descFor (s : MemState) (size : Nat) : Nat :=
  descAddr (runningDescs s) (findDesc s.word (runningDescs s) size)

/-- The `ASSERT`s of the page layer. -/
def IsPageAssert (panic : MemPanic) : Prop :=
  panic = .bitmapScan ∨ panic = .vaddrGetUser ∨ panic = .mallocPageCnt ∨ panic = .pteRepeat

/-- The sizes that `sys_malloc` refuses, serves from a free block, or serves from
pages that fit. -/
def Reportable (s : MemState) (size : Nat) : Prop :=
  size = 0 ∨ (s.pool (runningPf s)).poolSize ≤ size ∨
    (1024 < size ∧ PagesFit s (runningPf s) (divRoundUp (size + arenaSize) pgSize)) ∨
    (size ≤ 1024 ∧ (listEmpty s.word (freeListOf (descFor s size)) = true → PagesFit s (runningPf s) 1))

/-- `sys_malloc` fails no `ASSERT` of the page layer. -/
def PageAssertsHold (s : MemState) (size : Nat) : Prop :=
  ∀ panic, IsPageAssert panic → sysMalloc s size ≠ .error panic

/-- The descriptors of the running task, as `block_desc_init` sets them up: their
lists are lists, and they are not on a page that `malloc_page` hands out. -/
structure DescsIntact (s : MemState) : Prop where
  sizes : ∀ d < descCnt, s.word (descAddr (runningDescs s) d) = blockSize d ∧
    s.word (descAddr (runningDescs s) d + 4) = blocksPerArena d
  lists : ∀ d < descCnt, listEmpty s.word (freeListOf (descAddr (runningDescs s) d)) = true →
    IsList s.word (freeListOf (descAddr (runningDescs s) d)) []
  apart : runningDescs s + 24 * descCnt ≤ (s.vaddr (runningPf s)).vaddrStart ∨
    (runningPf s = .user ∧ 0xc0000000 ≤ runningDescs s)

variable {s t : MemState} {pf : PoolFlags} {vaddr cnt pgCnt size : Nat}

/-! ### Pages and words -/

theorem word_setPoolBitmap (s : MemState) (pf : PoolFlags) (btmp : Bitmap) :
    (s.setPoolBitmap pf btmp).word = s.word := by
  cases pf <;> rfl

theorem word_setVaddrBitmap (s : MemState) (pf : PoolFlags) (btmp : Bitmap) :
    (s.setVaddrBitmap pf btmp).word = s.word := by
  cases pf <;> rfl

theorem palloc_word {frame : Option Nat} (isRun : palloc s pf = .ok (t, frame)) : t.word = s.word := by
  rw [palloc_eq] at isRun
  split at isRun
  · cases isRun
  · cases isRun
    exact word_setPoolBitmap _ _ _

theorem pageTableAdd_word {phyaddr : Nat} (isRun : pageTableAdd s vaddr phyaddr = .ok t) :
    t.word = s.word := by
  by_cases present : s.pde (pdeIdx vaddr) % 2 = 1
  · by_cases repeated : s.pte (pageOf vaddr) % 2 = 1
    · rw [pageTableAdd_repeat present repeated] at isRun
      cases isRun
    · rw [pageTableAdd_present present repeated] at isRun
      cases isRun
      rfl
  · rw [pageTableAdd_absent present] at isRun
    cases isTable : palloc s .kernel with
    | error panic =>
        rw [isTable] at isRun
        cases isRun
    | ok result =>
        obtain ⟨s₁, table⟩ := result
        rw [isTable] at isRun
        cases isRun
        have same := palloc_word isTable
        exact same

theorem mapPages_word {done : Bool} (isRun : mapPages pf cnt s vaddr = .ok (t, done)) : t.word = s.word := by
  induction cnt generalizing s vaddr with
  | zero =>
      cases isRun
      rfl
  | succ cnt inductionHypothesis =>
      unfold mapPages at isRun
      split at isRun
      · cases isRun
      · rename_i s₁ isAlloc
        cases isRun
        exact palloc_word isAlloc
      · rename_i s₁ frame isAlloc
        split at isRun
        · cases isRun
        · rename_i s₂ isAdded
          rw [inductionHypothesis isRun, pageTableAdd_word isAdded, palloc_word isAlloc]

/-- The pages that `malloc_page` returns. -/
theorem mallocPage_some {a : Nat} (isRun : mallocPage s pf pgCnt = .ok (t, some a)) :
    (s.vaddr pf).vaddrStart ≤ a ∧ BelowStack pf a ∧ t.word = s.word := by
  unfold mallocPage at isRun
  split at isRun
  swap
  · cases isRun
  rename_i bounds
  rcases scan_cases (s.vaddr pf).vaddrBitmap bounds.1 with ⟨scanned, _⟩ | ⟨scanned, _, _⟩ | ⟨start, scanned, _, _⟩
  · unfold vaddrGet at isRun
    rw [scanned] at isRun
    cases isRun
  · unfold vaddrGet at isRun
    rw [scanned] at isRun
    cases isRun
  · rw [vaddrGet_found scanned] at isRun
    by_cases above : pf = .user ∧ ¬ vaddrAt s pf start < 0xc0000000 - pgSize
    · rw [if_pos above] at isRun
      cases isRun
    · rw [if_neg above] at isRun
      dsimp only at isRun
      split at isRun
      · cases isRun
      · rename_i t' done isMapped
        rw [mapPages_done isMapped] at isRun isMapped
        cases isRun
        refine ⟨Nat.le_add_right _ _, fun isUser => ?_, ?_⟩
        · exact not_not.mp fun notBelow => above ⟨isUser, notBelow⟩
        · rw [mapPages_word isMapped, word_setVaddrBitmap]

theorem palloc_pageAssert {panic : MemPanic} (failed : palloc s pf = .error panic) : IsPageAssert panic := by
  rw [palloc_eq] at failed
  split at failed
  · cases failed
    exact .inl rfl
  · cases failed

theorem pageTableAdd_pageAssert {phyaddr : Nat} {panic : MemPanic}
    (failed : pageTableAdd s vaddr phyaddr = .error panic) : IsPageAssert panic := by
  by_cases present : s.pde (pdeIdx vaddr) % 2 = 1
  · by_cases repeated : s.pte (pageOf vaddr) % 2 = 1
    · rw [pageTableAdd_repeat present repeated] at failed
      cases failed
      exact .inr (.inr (.inr rfl))
    · rw [pageTableAdd_present present repeated] at failed
      cases failed
  · rw [pageTableAdd_absent present] at failed
    cases isTable : palloc s .kernel with
    | error panic' =>
        rw [isTable] at failed
        cases failed
        exact palloc_pageAssert isTable
    | ok result =>
        rw [isTable] at failed
        cases failed

/-- The page layer stops with one of its `ASSERT`s, or not at all. -/
theorem mapPages_pageAssert {panic : MemPanic} (failed : mapPages pf cnt s vaddr = .error panic) :
    IsPageAssert panic := by
  induction cnt generalizing s vaddr with
  | zero => cases failed
  | succ cnt inductionHypothesis =>
      unfold mapPages at failed
      split at failed
      · rename_i isAlloc
        cases failed
        exact palloc_pageAssert isAlloc
      · cases failed
      · split at failed
        · rename_i isAdded
          cases failed
          exact pageTableAdd_pageAssert isAdded
        · exact inductionHypothesis failed

theorem mallocPage_pageAssert {panic : MemPanic} (failed : mallocPage s pf pgCnt = .error panic) :
    IsPageAssert panic := by
  unfold mallocPage at failed
  split at failed
  swap
  · cases failed
    exact .inr (.inr (.inl rfl))
  split at failed
  · rename_i isGet
    cases failed
    unfold vaddrGet at isGet
    split at isGet
    · cases isGet
      exact .inl rfl
    · split at isGet
      · cases isGet
      · dsimp only at isGet
        split at isGet
        · cases isGet
          exact .inr (.inl rfl)
        · cases isGet
  · cases failed
  · split at failed
    · rename_i isMapped
      cases failed
      exact mapPages_pageAssert isMapped
    · cases failed

/-! ### A new arena -/

/-- `arena2block` of an arena with blocks of `size` bytes. -/
def blockOf (a size idx : Nat) : Nat := a + arenaSize + idx * size

/-- The first `n` blocks of an arena. -/
def firstBlocks (a size n : Nat) : List Nat := (List.range n).map (blockOf a size)

theorem firstBlocks_succ (a size n : Nat) :
    firstBlocks a size (n + 1) = firstBlocks a size n ++ [blockOf a size n] := by
  unfold firstBlocks
  rw [List.range_succ, List.map_append]
  rfl

theorem mem_firstBlocks {a size n b : Nat} : b ∈ firstBlocks a size n ↔ ∃ idx < n, b = blockOf a size idx := by
  unfold firstBlocks
  simp only [List.mem_map, List.mem_range]
  constructor
  · rintro ⟨idx, inside, rfl⟩
    exact ⟨idx, inside, rfl⟩
  · rintro ⟨idx, inside, rfl⟩
    exact ⟨idx, inside, rfl⟩

/-- A cell apart from a list of blocks and their sentinels. -/
def OffList (plist : Nat) (elems : List Nat) (cell : Nat) : Prop :=
  ∀ x ∈ nodesOf plist elems, cell ≠ x ∧ cell ≠ x + 4

theorem listAppend_other {m : Words} {plist elem cell : Nat} {elems : List Nat}
    (isList : IsList m plist elems) (apart : Apart (nodesOf plist (elems ++ [elem])))
    (off : OffList plist (elems ++ [elem]) cell) : listAppend m plist elem cell = m cell := by
  obtain ⟨_, last, memLast, spliced⟩ := isList.listAppend apart
  have offLast := off last (by
    unfold nodesOf
    rcases List.mem_cons.mp memLast with rfl | mem
    · exact List.mem_append_left _ List.mem_cons_self
    · exact List.mem_append_left _ (List.mem_cons_of_mem _ (List.mem_append_left _ mem)))
  have offElem := off elem (by simp [nodesOf])
  have offTail := off (tailOf plist) (by simp [nodesOf])
  rw [spliced]
  unfold spliceIn
  rw [Function.update_of_ne offTail.1, Function.update_of_ne offElem.2, Function.update_of_ne offElem.1,
    Function.update_of_ne offLast.2]

/-- A list that becomes the blocks of a new arena, one by one. -/
theorem fillArena_fresh {a desc bytes n left k : Nat} {m : Words} (sum : k + left = n) (small : n < 2 ^ 32)
    (apart : ∀ k ≤ n, Apart (nodesOf (freeListOf desc) (firstBlocks a bytes k)))
    (offHeader : OffList (freeListOf desc) (firstBlocks a bytes n) a)
    (offDesc : OffList (freeListOf desc) (firstBlocks a bytes n) desc)
    (isDesc : m a = desc) (isSize : m desc = bytes)
    (isList : IsList m (freeListOf desc) (firstBlocks a bytes k)) :
    ∃ m', fillArena a left k m = .ok m' := by
  induction left generalizing k m with
  | zero => exact ⟨m, rfl⟩
  | succ left inductionHypothesis =>
      have isBlock : arena2block m a k = blockOf a bytes k := by
        unfold arena2block blockOf
        rw [isDesc, isSize]
      have apartNext := apart (k + 1) (by omega)
      have distinct : blockOf a bytes k ∉ firstBlocks a bytes k := by
        have nodup := apartNext.nodup
        rw [firstBlocks_succ] at nodup
        simp only [nodesOf, List.cons_append, List.nodup_cons, List.append_assoc] at nodup
        intro mem
        exact (List.nodup_append.mp nodup.2).2.2 _ mem _ List.mem_cons_self rfl
      have notFound : elemFind m (freeListOf desc) (blockOf a bytes k) = some false := by
        rw [isList.elemFind (apart k (by omega)), decide_eq_false distinct]
        unfold firstBlocks
        rw [List.length_map, List.length_range]
        omega
      have within : ∀ {cell : Nat}, OffList (freeListOf desc) (firstBlocks a bytes n) cell →
          OffList (freeListOf desc) (firstBlocks a bytes (k + 1)) cell := by
        intro cell off x mem
        refine off x ?_
        simp only [nodesOf, List.cons_append, List.mem_cons, List.mem_append, mem_firstBlocks] at mem ⊢
        rcases mem with head | ⟨idx, inside, eq⟩ | tail
        · exact .inl head
        · exact .inr (.inl ⟨idx, by omega, eq⟩)
        · exact .inr (.inr tail)
      have other : ∀ {cell : Nat}, OffList (freeListOf desc) (firstBlocks a bytes n) cell →
          listAppend m (freeListOf desc) (blockOf a bytes k) cell = m cell := by
        intro cell off
        have offNext := within off
        rw [firstBlocks_succ] at offNext
        exact listAppend_other isList (by rw [← firstBlocks_succ]; exact apartNext) offNext
      obtain ⟨isList', _⟩ := isList.listAppend (by rw [← firstBlocks_succ]; exact apartNext)
      rw [← firstBlocks_succ] at isList'
      unfold fillArena
      simp only [isBlock, isDesc, notFound]
      exact inductionHypothesis (by omega) (by rw [other offHeader, isDesc])
        (by rw [other offDesc, isSize]) isList'

/-- The blocks of a page and the sentinels of a list elsewhere do not touch. -/
theorem apart_firstBlocks {a desc unit n : Nat} (positive : 0 < unit)
    (inPage : arenaSize + n * (16 * unit) ≤ pgSize) (off : desc + 24 ≤ a ∨ a + pgSize ≤ desc) :
    Apart (nodesOf (freeListOf desc) (firstBlocks a (16 * unit) n)) ∧
      OffList (freeListOf desc) (firstBlocks a (16 * unit) n) a ∧
      OffList (freeListOf desc) (firstBlocks a (16 * unit) n) desc := by
  have bounds : ∀ b ∈ firstBlocks a (16 * unit) n, ∃ i, b = a + 12 + 16 * i ∧ 12 + 16 * i + 16 ≤ 4096 := by
    intro b mem
    obtain ⟨idx, inside, rfl⟩ := mem_firstBlocks.mp mem
    refine ⟨idx * unit, ?_, ?_⟩
    · unfold blockOf arenaSize
      ring
    · have next : (idx + 1) * (16 * unit) ≤ n * (16 * unit) := Nat.mul_le_mul_right _ inside
      have split : (idx + 1) * (16 * unit) = 16 * (idx * unit) + 16 * unit := by ring
      unfold arenaSize pgSize at inPage
      omega
  unfold pgSize at off
  refine ⟨⟨?_, ?_⟩, ?_, ?_⟩
  · have nodup : (firstBlocks a (16 * unit) n).Nodup := by
      refine List.nodup_range.map fun i j same => ?_
      unfold blockOf at same
      have product : i * (16 * unit) = j * (16 * unit) := by omega
      exact Nat.eq_of_mul_eq_mul_right (by omega) product
    unfold nodesOf freeListOf tailOf
    rw [List.cons_append, List.nodup_cons, List.nodup_append]
    refine ⟨?_, nodup, List.nodup_singleton _, ?_⟩
    · rw [List.mem_append, List.mem_singleton, not_or]
      refine ⟨fun mem => ?_, by omega⟩
      obtain ⟨i, eq, inside⟩ := bounds _ mem
      omega
    · rintro x mem y isTail rfl
      rw [List.mem_singleton] at isTail
      obtain ⟨i, eq, inside⟩ := bounds _ mem
      omega
  · intro x memX y memY same
    simp only [nodesOf, freeListOf, tailOf, List.cons_append, List.mem_cons, List.mem_append,
      List.not_mem_nil, or_false] at memX memY
    rcases memX with rfl | memX | rfl <;> rcases memY with rfl | memY | rfl
    · omega
    · obtain ⟨i, eq, inside⟩ := bounds _ memY
      omega
    · omega
    · obtain ⟨i, eq, inside⟩ := bounds _ memX
      omega
    · obtain ⟨i, eq, inside⟩ := bounds _ memX
      obtain ⟨j, eq', inside'⟩ := bounds _ memY
      omega
    · obtain ⟨i, eq, inside⟩ := bounds _ memX
      omega
    · omega
    · obtain ⟨i, eq, inside⟩ := bounds _ memY
      omega
    · omega
  · intro x mem
    simp only [nodesOf, freeListOf, tailOf, List.cons_append, List.mem_cons, List.mem_append,
      List.not_mem_nil, or_false] at mem
    rcases mem with rfl | mem | rfl
    · omega
    · obtain ⟨i, eq, inside⟩ := bounds _ mem
      omega
    · omega
  · intro x mem
    simp only [nodesOf, freeListOf, tailOf, List.cons_append, List.mem_cons, List.mem_append,
      List.not_mem_nil, or_false] at mem
    rcases mem with rfl | mem | rfl
    · omega
    · obtain ⟨i, eq, inside⟩ := bounds _ mem
      omega
    · omega

theorem memsetZero_other {m : Words} {dst len cell : Nat} (off : cell < dst ∨ dst + len ≤ cell) :
    memsetZero m dst len cell = m cell := by
  unfold memsetZero
  rw [if_neg (by omega)]

/-- The arena of an empty list, on a page that the descriptor is not on. -/
theorem initArena_fresh {m : Words} {a desc unit : Nat} (positive : 0 < unit) (size : m desc = 16 * unit)
    (inPage : arenaSize + m (desc + 4) * (16 * unit) ≤ pgSize) (off : desc + 24 ≤ a ∨ a + pgSize ≤ desc)
    (isList : IsList m (freeListOf desc) []) : ∃ m', initArena m a desc = .ok m' := by
  have page : pgSize = 4096 := rfl
  have header : arenaSize = 12 := rfl
  have inWord : m (desc + 4) < 2 ^ 32 := by
    have le : m (desc + 4) * 1 ≤ m (desc + 4) * (16 * unit) := Nat.mul_le_mul_left _ (by omega)
    omega
  have other : ∀ cell, desc ≤ cell → cell < desc + 24 →
      Function.update (Function.update (Function.update (memsetZero m a pgSize) a desc) (a + 8) 0)
        (a + 4) (m (desc + 4)) cell = m cell := by
    intro cell low high
    rw [Function.update_of_ne (by omega), Function.update_of_ne (by omega), Function.update_of_ne (by omega),
      memsetZero_other (by omega)]
  have perRead : Function.update (Function.update (memsetZero m a pgSize) a desc) (a + 8) 0 (desc + 4) =
      m (desc + 4) := by
    rw [Function.update_of_ne (by omega), Function.update_of_ne (by omega), memsetZero_other (by omega)]
  unfold initArena
  dsimp only
  rw [perRead, other (desc + 4) (by omega) (by omega)]
  refine fillArena_fresh (Nat.zero_add _) inWord (fun k le => ?_) (apart_firstBlocks positive inPage off).2.1
    (apart_firstBlocks positive inPage off).2.2 ?_ ?_ ?_
  · have smaller : k * (16 * unit) ≤ m (desc + 4) * (16 * unit) := Nat.mul_le_mul_right _ le
    exact (apart_firstBlocks positive (by omega) off).1
  · rw [Function.update_of_ne (by omega), Function.update_of_ne (by omega), Function.update_self]
  · rw [other desc (by omega) (by omega), size]
  · have nodes : ∀ x ∈ nodesOf (freeListOf desc) [], x = desc + 8 ∨ x = desc + 16 := by
      intro x mem
      unfold nodesOf freeListOf tailOf at mem
      simpa using mem
    refine Linked.congr isList (fun x mem => ?_) fun x mem => ?_
    · have isNode := nodes x mem
      exact other _ (by omega) (by omega)
    · have isNode := nodes x mem
      exact other _ (by omega) (by omega)

/-! ### `sys_malloc` -/

/-- The descriptor that is found is one of the seven. -/
theorem DescsIntact.findDesc (intact : DescsIntact s) (small : size ≤ 1024) :
    findDesc s.word (runningDescs s) size < descCnt := by
  unfold Memory.findDesc
  cases found : (List.range descCnt).find? fun descIdx =>
      decide (size ≤ s.word (descAddr (runningDescs s) descIdx)) with
  | none =>
      simp only [List.find?_eq_none, List.mem_range, decide_eq_true_eq] at found
      have last := found 6 (by decide)
      rw [(intact.sizes 6 (by decide)).1] at last
      exact absurd small (by simpa [blockSize] using last)
  | some d =>
      simp only [List.find?_range_eq_some, List.mem_range] at found
      exact found.2.1

/-- With intact descriptors, a small arena is laid out. -/
theorem DescsIntact.initArena (intact : DescsIntact s) {d a : Nat} (inDescs : d < descCnt)
    (isEmpty : listEmpty s.word (freeListOf (descAddr (runningDescs s) d)) = true)
    (isRun : mallocPage s (runningPf s) 1 = .ok (t, some a)) :
    ∃ m, initArena t.word a (descAddr (runningDescs s) d) = .ok m := by
  obtain ⟨low, below, word⟩ := mallocPage_some isRun
  obtain ⟨isSize, perArena⟩ := intact.sizes d inDescs
  have inPage : ∀ d < descCnt, arenaSize + blocksPerArena d * (16 * 2 ^ d) ≤ pgSize := by decide
  have off : descAddr (runningDescs s) d + 24 ≤ a ∨ a + pgSize ≤ descAddr (runningDescs s) d := by
    unfold descAddr
    unfold descCnt at inDescs
    rcases intact.apart with before | ⟨isUser, behind⟩
    · left
      unfold descCnt at before
      omega
    · right
      have inUser := below isUser
      unfold pgSize at inUser ⊢
      omega
  rw [word]
  apply initArena_fresh (Nat.two_pow_pos d) isSize
  · rw [perArena]
    exact inPage d inDescs
  · exact off
  · exact intact.lists d inDescs isEmpty

theorem sysMalloc_eq (s : MemState) (size : Nat) :
    sysMalloc s size =
      if ¬ (size > 0 ∧ size < (s.pool (runningPf s)).poolSize) then .ok (s, none)
      else if size > 1024 then mallocLarge s (runningPf s) size
      else mallocSmall s (runningPf s) (runningDescs s) size := rfl

/-- A large request ends as `malloc_page` does. -/
theorem mallocLarge_error {panic : MemPanic} :
    mallocLarge s pf size = .error panic ↔
      mallocPage s pf (divRoundUp (size + arenaSize) pgSize) = .error panic := by
  unfold mallocLarge largeArena
  cases mallocPage s pf (divRoundUp (size + arenaSize) pgSize) with
  | error panic' => exact Iff.of_eq (by simp)
  | ok result =>
      obtain ⟨t, found⟩ := result
      cases found with
      | none => exact iff_of_false (fun isError => by cases isError) fun isError => by cases isError
      | some a => exact iff_of_false (fun isError => by cases isError) fun isError => by cases isError

/-- `malloc_page` returns unless an `ASSERT` of the page layer fails. -/
theorem pagesFit_iff_noError : PagesFit s pf pgCnt ↔ ∀ panic, mallocPage s pf pgCnt ≠ .error panic := by
  rw [← mallocPage_ok_iff]
  cases mallocPage s pf pgCnt with
  | error panic =>
      exact iff_of_false (fun ⟨_, _, isRun⟩ => by cases isRun) fun noError => noError panic rfl
  | ok result => exact iff_of_true ⟨result.1, result.2, rfl⟩ fun panic isError => by cases isError

/-- The list code has `ASSERT`s of its own. -/
theorem fillArena_error {m : Words} {a left k : Nat} {panic : MemPanic}
    (failed : fillArena a left k m = .error panic) : ¬ IsPageAssert panic := by
  induction left generalizing k m with
  | zero => cases failed
  | succ left inductionHypothesis =>
      unfold fillArena at failed
      dsimp only at failed
      split at failed
      · cases failed
        unfold IsPageAssert
        decide
      · cases failed
        unfold IsPageAssert
        decide
      · exact inductionHypothesis failed

/-- A small request ends as `malloc_page` does, if it needs a page. -/
theorem mallocSmall_pageAssert {panic : MemPanic} (isPageAssert : IsPageAssert panic) {descs : Nat} :
    mallocSmall s pf descs size = .error panic ↔
      listEmpty s.word (freeListOf (descAddr descs (findDesc s.word descs size))) = true ∧
        mallocPage s pf 1 = .error panic := by
  unfold mallocSmall
  by_cases isEmpty : listEmpty s.word (freeListOf (descAddr descs (findDesc s.word descs size))) = true
  swap
  · dsimp only
    rw [if_neg isEmpty]
    exact iff_of_false (fun isError => by cases isError) fun both => isEmpty both.1
  dsimp only
  rw [if_pos isEmpty]
  cases mallocPage s pf 1 with
  | error panic' => simp only [Except.error.injEq, isEmpty, true_and]
  | ok result =>
      obtain ⟨t, found⟩ := result
      cases found with
      | none => exact iff_of_false (fun isError => by cases isError) fun both => by cases both.2
      | some a =>
          refine iff_of_false (fun isError => ?_) fun both => by cases both.2
          dsimp only at isError
          split at isError
          · rename_i panic' isArena
            cases isError
            exact fillArena_error isArena isPageAssert
          · cases isError

/-- The `ASSERT`s of the page layer hold for the reportable sizes. -/
theorem pageAssertsHold_iff (s : MemState) (size : Nat) : PageAssertsHold s size ↔ Reportable s size := by
  unfold PageAssertsHold Reportable
  rw [sysMalloc_eq]
  by_cases admitted : size > 0 ∧ size < (s.pool (runningPf s)).poolSize
  swap
  · rw [if_pos admitted]
    refine iff_of_true (fun panic _ isError => by cases isError) ?_
    omega
  rw [if_neg (not_not.mpr admitted)]
  have notRefused : ¬ size = 0 ∧ ¬ (s.pool (runningPf s)).poolSize ≤ size := by omega
  rw [pagesFit_iff_noError, pagesFit_iff_noError]
  by_cases isLarge : size > 1024
  · rw [if_pos isLarge]
    have notSmall : ¬ size ≤ 1024 := Nat.not_le_of_lt isLarge
    simp only [notRefused, isLarge, notSmall, true_and, false_and, or_false, false_or]
    constructor
    · intro hold panic isError
      exact hold panic (mallocPage_pageAssert isError) (mallocLarge_error.mpr isError)
    · intro noError panic _ isError
      exact noError panic (mallocLarge_error.mp isError)
  · rw [if_neg isLarge]
    have isSmall : size ≤ 1024 := Nat.le_of_not_lt isLarge
    simp only [notRefused, isSmall, isLarge, true_and, false_and, false_or]
    constructor
    · intro hold isEmpty panic isError
      have isPageAssert := mallocPage_pageAssert isError
      exact hold panic isPageAssert ((mallocSmall_pageAssert isPageAssert).mpr ⟨isEmpty, isError⟩)
    · intro noError panic isPageAssert isError
      obtain ⟨isEmpty, isPage⟩ := (mallocSmall_pageAssert isPageAssert).mp isError
      exact noError isEmpty panic isPage

/-- With intact descriptors, only the page layer can stop `sys_malloc`. -/
theorem DescsIntact.returns (intact : DescsIntact s) (hold : PageAssertsHold s size) :
    ∃ t result, sysMalloc s size = .ok (t, result) := by
  cases isRun : sysMalloc s size with
  | ok result => exact ⟨result.1, result.2, rfl⟩
  | error panic =>
      exfalso
      by_cases isPageAssert : IsPageAssert panic
      · exact hold panic isPageAssert isRun
      rw [sysMalloc_eq] at isRun
      split at isRun
      · cases isRun
      split at isRun
      · exact isPageAssert (mallocPage_pageAssert (mallocLarge_error.mp isRun))
      rename_i notLarge
      unfold mallocSmall at isRun
      dsimp only at isRun
      split at isRun
      swap
      · cases isRun
      rename_i isEmpty
      split at isRun
      · rename_i isPage
        cases isRun
        exact isPageAssert (mallocPage_pageAssert isPage)
      · cases isRun
      · rename_i t a isPage
        obtain ⟨m, isArena⟩ := intact.initArena (intact.findDesc (Nat.le_of_not_lt notLarge)) isEmpty isPage
        rw [isArena] at isRun
        cases isRun

/-- In the heap of the kernel, the descriptors are intact in every state of a run. -/
theorem HeapInv.descsIntact {start : MemState} {live : Nat → Option Nat} {arena : Nat → Option Arena}
    {free : Nat → List Nat} (inv : HeapInv start s live arena free) (layout : HeapLayout start) :
    DescsIntact s := by
  have statics := inv.pages.statics
  have isKernel : s.pgdirNull = true := statics.pgdirNull.trans layout.pgdirNull
  have isDescs : runningDescs s = start.kBlockDescs := by
    unfold runningDescs
    rw [isKernel, if_pos rfl, statics.kBlockDescs]
  have isPf : runningPf s = .kernel := by
    unfold runningPf
    rw [isKernel, if_pos rfl]
  refine ⟨fun d inDescs => ?_, fun d inDescs isEmpty => ?_, .inl ?_⟩
  · rw [isDescs]
    exact inv.sizes d inDescs
  · rw [isDescs] at isEmpty ⊢
    have isList := inv.lists.isList d inDescs
    rw [isList.listEmpty (inv.lists.apart layout.descsHigh inDescs), List.isEmpty_iff] at isEmpty
    rwa [isEmpty] at isList
  · rw [isDescs, isPf]
    show start.kBlockDescs + 24 * descCnt ≤ s.kernelVaddr.vaddrStart
    rw [statics.vaddrStart, layout.layout.vaddrStart]
    exact layout.descsHigh

/-- `sys_malloc` returns a block or `NULL` for the reportable sizes, and for no others. -/
theorem sys_malloc_reports_iff (intact : DescsIntact s) (size : Nat) :
    (PageAssertsHold s size ↔ Reportable s size) ∧
      ((∃ t result, sysMalloc s size = .ok (t, result)) ↔ Reportable s size) := by
  refine ⟨pageAssertsHold_iff s size, ?_⟩
  rw [← pageAssertsHold_iff]
  constructor
  · rintro ⟨t, result, isRun⟩ panic _ isError
    rw [isRun] at isError
    cases isError
  · exact intact.returns

/-- A fresh heap serves 100 bytes. -/
theorem sys_malloc_reports_fresh : Reportable bootMem 100 :=
  (sys_malloc_reports_iff (bootMem_initial.inv.descsIntact bootMem_initial.heapLayout) 100).2.mp (by
    have isOk : (sysMalloc bootMem 100).toOption.isSome = true := by decide +kernel
    cases isRun : sysMalloc bootMem 100 with
    | ok result => exact ⟨result.1, result.2, rfl⟩
    | error panic =>
        rw [isRun] at isOk
        cases isOk)

/-- With 64 megabytes, 15 megabytes are less than the pool has, and 3841 pages are
more than `malloc_page` allows. With no frame left, 16 bytes fail in `bitmap_scan`. -/
theorem sys_malloc_stops :
    (¬ ∃ t result, sysMalloc (memInit loaderMem 0x4000000) 0xf00000 = .ok (t, result)) ∧
      ¬ ∃ t result, sysMalloc (bootMem.setPoolBitmap .kernel ⟨480, fun _ => 0xff⟩) 16 = .ok (t, result) := by
  constructor
  · have stops : sysMalloc (memInit loaderMem 0x4000000) 0xf00000 = .error .mallocPageCnt := by
      have inPool : 0xf00000 < (memInit loaderMem 0x4000000).kernelPool.poolSize := by decide +kernel
      have isLarge : 0xf00000 > 1024 := by decide
      have tooMany : ¬ (divRoundUp (0xf00000 + arenaSize) pgSize > 0 ∧
          divRoundUp (0xf00000 + arenaSize) pgSize < 3840) := by decide
      have isPf : runningPf (memInit loaderMem 0x4000000) = .kernel := rfl
      rw [sysMalloc_eq, isPf, if_neg (not_not.mpr ⟨by decide, inPool⟩), if_pos isLarge, mallocLarge_error]
      unfold mallocPage
      rw [if_neg tooMany]
    rintro ⟨t, result, isRun⟩
    rw [stops] at isRun
    cases isRun
  · have stops : (sysMalloc (bootMem.setPoolBitmap .kernel ⟨480, fun _ => 0xff⟩) 16).toOption.isSome = false := by
      decide +kernel
    rintro ⟨t, result, isRun⟩
    rw [isRun] at stops
    cases stops

end ZyOs.Memory
