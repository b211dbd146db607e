import ZyOs.Memory.HeapCalls

/-!
Contract: safety of the kernel heap over every run of `sys_malloc`, `sys_free`
and stores into live allocations, from `block_desc_init` on.
-/

namespace ZyOs.Memory

open ZyOs.Lib ZyOs.Kernel

/-! ### The initial heap -/

/-- The loop of `block_desc_init` sets up the descriptors it passes. -/
theorem blockDescInitFrom_spec (descArray left : Nat) :
    ∀ (idx : Nat) (m : Words),
      (∀ cell, cell < descAddr descArray idx ∨ descAddr descArray (idx + left) ≤ cell →
        blockDescInitFrom descArray left idx (blockSize idx) m cell = m cell) ∧
      ∀ d, idx ≤ d → d < idx + left →
        blockDescInitFrom descArray left idx (blockSize idx) m (descAddr descArray d) =
          blockSize d ∧
        blockDescInitFrom descArray left idx (blockSize idx) m (descAddr descArray d + 4) =
          blocksPerArena d ∧
        IsList (blockDescInitFrom descArray left idx (blockSize idx) m)
          (freeListOf (descAddr descArray d)) [] := by
  induction left with
  | zero =>
      intro idx m
      exact ⟨fun _ _ => rfl, fun d low high => by omega⟩
  | succ left inductionHypothesis =>
      intro idx m
      obtain ⟨m₁, m₁Eq⟩ : ∃ m₁, m₁ = listInit (Function.update (Function.update m
          (descAddr descArray idx) (blockSize idx)) (descAddr descArray idx + 4)
          (blocksPerArena idx)) (freeListOf (descAddr descArray idx)) := ⟨_, rfl⟩
      have unfolded : blockDescInitFrom descArray (left + 1) idx (blockSize idx) m =
          blockDescInitFrom descArray left (idx + 1) (blockSize (idx + 1)) m₁ := by
        rw [m₁Eq, show blockSize (idx + 1) = blockSize idx * 2 by simp [blockSize, Nat.pow_succ]; omega]
        rfl
      obtain ⟨outside, inside⟩ := inductionHypothesis (idx + 1) m₁
      rw [unfolded]
      have stays : ∀ cell, cell < descAddr descArray (idx + 1) →
          blockDescInitFrom descArray left (idx + 1) (blockSize (idx + 1)) m₁ cell = m₁ cell :=
        fun cell low => outside cell (.inl low)
      have next : descAddr descArray (idx + 1) = descAddr descArray idx + 24 := by
        unfold descAddr
        omega
      refine ⟨?_, ?_⟩
      · intro cell out
        have last : descAddr descArray (idx + (left + 1)) = descAddr descArray (idx + 1 + left) := by
          unfold descAddr
          omega
        have order : descAddr descArray (idx + 1) ≤ descAddr descArray (idx + 1 + left) := by
          unfold descAddr
          omega
        rw [last] at out
        rw [outside cell (by omega), m₁Eq,
          listInit_other (by simp only [freeListOf]; omega),
          Function.update_of_ne (by omega), Function.update_of_ne (by omega)]
      · intro d low high
        by_cases first : d = idx
        · subst first
          refine ⟨?_, ?_, ?_⟩
          · rw [stays _ (by omega), m₁Eq, listInit_other (by simp only [freeListOf]; omega),
              Function.update_of_ne (by omega), Function.update_self]
          · rw [stays _ (by omega), m₁Eq, listInit_other (by simp only [freeListOf]; omega),
              Function.update_self]
          · have list := isList_listInit (Function.update (Function.update m
              (descAddr descArray d) (blockSize d)) (descAddr descArray d + 4)
              (blocksPerArena d)) (freeListOf (descAddr descArray d))
            rw [← m₁Eq] at list
            refine list.congr ?_ ?_ <;>
            · intro x mem
              simp only [nodesOf, List.cons_append, List.nil_append, List.mem_cons,
                List.not_mem_nil, or_false, freeListOf, tailOf] at mem
              exact stays _ (by omega)
        · exact inside d (by omega) (by omega)

theorem usedPages_none : usedPages (fun _ => none) = ∅ := by
  ext page
  constructor
  · rintro ⟨q, k, isArena, _⟩
    cases isArena
  · rintro ⟨⟩

theorem HeapInitial.heapLayout {start : HeapState} (initial : HeapInitial start) :
    HeapLayout start.mem :=
  ⟨initial.layout, initial.pgdirNull, initial.poolSize, initial.descsHigh, initial.descsLow⟩

theorem HeapInitial.inv {start : HeapState} (initial : HeapInitial start) :
    HeapInv start.mem start.mem start.live (fun _ => none) (fun _ => []) := by
  obtain ⟨m, word⟩ := initial.blockDescs
  obtain ⟨_, inside⟩ := blockDescInitFrom_spec start.mem.kBlockDescs descCnt 0 m
  have started : blockDescInitFrom start.mem.kBlockDescs descCnt 0 (blockSize 0) m =
      start.mem.word := by
    rw [word]
    rfl
  rw [started] at inside
  constructor
  case pages =>
    rw [usedPages_none]
    exact initial.layout.pageInv
  case lists =>
    exact ⟨fun d inDescs => (inside d (Nat.zero_le _) (by omega)).2.2, by simp, by simp, by simp⟩
  case sizes =>
    intro d inDescs
    obtain ⟨size, per, _⟩ := inside d (Nat.zero_le _) (by omega)
    exact ⟨size, per⟩
  case liveIn =>
    intro p size isLive
    rw [initial.live] at isLive
    cases isLive
  all_goals simp

/-- `mem_init` leaves a heap to start from, whatever the size of memory. -/
theorem memInit_initial {s : MemState} (booted : Booted s) (allMem : Nat) :
    HeapInitial ⟨memInit s allMem, fun _ => none⟩ := by
  obtain ⟨word, pte, pde, kernelPool, userPool, kernelVaddr, userprogVaddr, kBlockDescs,
    uBlockDesc, pgdirNull⟩ := s
  have pages := kernelFreePages_lt allMem
  constructor
  case layout =>
    obtain ⟨aligned, low, high, start, top, pdes, ptes⟩ :=
      memPoolInit_layout ⟨booted.pde, booted.pte⟩ allMem
    exact ⟨aligned, low, high, start, top, pdes, ptes⟩
  case pgdirNull =>
    simp only [memInit, memPoolInit]
    exact booted.pgdirNull
  case poolSize =>
    simp only [memInit, memPoolInit, pgSize]
    omega
  case descsHigh =>
    simp only [memInit, memPoolInit]
    exact booted.descsHigh
  case descsLow =>
    simp only [memInit, memPoolInit]
    exact booted.descsLow
  case blockDescs =>
    refine ⟨word, ?_⟩
    simp only [memInit, memPoolInit]
  case live => exact fun _ => rfl

/-! ### Runs -/

section

variable {start s : MemState} {live : Nat → Option Nat} {arena : Nat → Option Arena}
  {free : Nat → List Nat}

/-- Where a live allocation lies, and what its header says about its length. -/
theorem HeapInv.usable (inv : HeapInv start s live arena free) {p size : Nat}
    (isLive : live p = some size) :
    (∃ q d idx, arena q = some (.small d) ∧ idx < blocksPerArena d ∧ p = blockAddr q d idx ∧
      usable s p = blockSize d ∧ size ≤ usable s p) ∨
    (∃ q n, arena q = some (.large n) ∧ p = heapAddr q + arenaSize ∧
      usable s p + arenaSize = n * pgSize ∧ size ≤ usable s p) := by
  rcases inv.liveIn p size isLive with ⟨q, d, idx, isArena, inArena, rfl, fits⟩ |
    ⟨q, n, isArena, rfl, fits⟩
  · obtain ⟨inDescs, desc, _, large⟩ := inv.small q d isArena
    have eq : Memory.usable s (blockAddr q d idx) = blockSize d := by
      simp [Memory.usable, block2arena_blockAddr inArena, large, desc, (inv.sizes d inDescs).1]
    exact .inl ⟨q, d, idx, isArena, inArena, rfl, eq, by rw [eq]; exact fits⟩
  · obtain ⟨⟨positive, desc, cnt, large⟩, _⟩ := inv.large q n isArena
    have eq : Memory.usable s (heapAddr q + arenaSize) = n * pgSize - arenaSize := by
      simp [Memory.usable, block2arena_first, large, cnt]
    refine .inr ⟨q, n, isArena, rfl, ?_, ?_⟩ <;> rw [eq] <;> omega

/-- The span of a live allocation lies in its arena, after the header. -/
theorem HeapInv.span (inv : HeapInv start s live arena free) {p size : Nat}
    (isLive : live p = some size) :
    ∃ q k, arena q = some k ∧ block2arena p = heapAddr q ∧ heapAddr q + arenaSize ≤ p ∧
      p + Memory.usable s p ≤ heapAddr q + k.pages * pgSize := by
  rcases inv.usable isLive with ⟨q, d, idx, isArena, inArena, rfl, eq, _⟩ |
    ⟨q, n, isArena, rfl, eq, _⟩
  · obtain ⟨low, high, _, _⟩ := blockAddr_bounds inArena q
    refine ⟨q, _, isArena, block2arena_blockAddr inArena q, low, ?_⟩
    rw [eq]
    simpa [Arena.pages] using high
  · exact ⟨q, _, isArena, block2arena_first q, le_refl _, by simp only [Arena.pages]; omega⟩

/-- Regions of different arenas do not meet. -/
theorem HeapInv.regions_disjoint (inv : HeapInv start s live arena free) {q r : Nat} {k l : Arena}
    (isArena : arena q = some k) (isOther : arena r = some l) (ne : q ≠ r) :
    heapAddr q + k.pages * pgSize ≤ heapAddr r ∨ heapAddr r + l.pages * pgSize ≤ heapAddr q := by
  rcases Nat.lt_or_gt_of_ne ne with lt | lt
  · have := inv.apart q k r l isArena isOther lt
    simp only [heapAddr, pgSize]
    omega
  · have := inv.apart r l q k isOther isArena lt
    simp only [heapAddr, pgSize]
    omega

/-- Every page that a live allocation reaches is mapped. -/
theorem HeapInv.mapped (inv : HeapInv start s live arena free) {p size cell : Nat}
    (isLive : live p = some size) (low : p ≤ cell) (high : cell < p + Memory.usable s p) :
    s.pte (pageOf cell) % 2 = 1 := by
  obtain ⟨q, k, isArena, _, start, last⟩ := inv.span isLive
  have page : pageOf cell = pageOf (heapAddr (cell / pgSize - 0xc0100)) := by
    rw [pageOf_heapAddr]
    simp only [pageOf, heapAddr, kHeapStart, pgSize, arenaSize] at *
    omega
  rw [page]
  refine inv.pages.present ⟨q, k, isArena, ?_, ?_⟩ <;>
  · simp only [heapAddr, kHeapStart, pgSize, arenaSize] at *
    omega

/-- Live allocations do not overlap. -/
theorem HeapInv.live_disjoint (inv : HeapInv start s live arena free) {p p' size size' : Nat}
    (isLive : live p = some size) (isLive' : live p' = some size') (ne : p ≠ p') :
    p + Memory.usable s p ≤ p' ∨ p' + Memory.usable s p' ≤ p := by
  obtain ⟨q, k, isArena, onQ, low, high⟩ := inv.span isLive
  obtain ⟨r, l, isArena', onR, low', high'⟩ := inv.span isLive'
  by_cases same : q = r
  · subst same
    rw [isArena] at isArena'
    cases isArena'
    rcases inv.usable isLive with ⟨r, d, i, isSmall, inI, rfl, eq, _⟩ | ⟨r, n, isLarge, rfl, _, _⟩
    · rw [block2arena_blockAddr inI] at onQ
      obtain rfl := heapAddr_inj onQ
      obtain ⟨j, inJ, rfl⟩ := inv.live_small isSmall onR (by simp [isLive'])
      have disjoint := blockAddr_disjoint inI inJ ne
      have eq' : Memory.usable s (blockAddr r d j) = blockSize d := by
        rw [← eq]
        simp [Memory.usable, block2arena_blockAddr inI, block2arena_blockAddr inJ]
      rw [eq, eq']
      exact disjoint
    · rw [block2arena_first] at onQ
      obtain rfl := heapAddr_inj onQ
      rcases inv.usable isLive' with ⟨r', d, i, isSmall, inI, rfl, _⟩ | ⟨r', m, _, rfl, _⟩
      · rw [block2arena_blockAddr inI] at onR
        rw [heapAddr_inj onR, isLarge] at isSmall
        cases isSmall
      · rw [block2arena_first] at onR
        exact absurd (by rw [onR]) ne
  · have := inv.regions_disjoint isArena isArena' same
    omega

/-- A live allocation does not overlap a free block. -/
theorem HeapInv.free_disjoint (inv : HeapInv start s live arena free) {p size d b : Nat}
    (isLive : live p = some size) (inDescs : d < descCnt) (mem : b ∈ free d) :
    p + Memory.usable s p ≤ b ∨ b + blockSize d ≤ p := by
  obtain ⟨r, j, isOther, inJ, rfl, isFree⟩ := (inv.freeIff d inDescs b).mp mem
  obtain ⟨q, k, isArena, onQ, low, high⟩ := inv.span isLive
  obtain ⟨lowB, highB, _, _⟩ := blockAddr_bounds inJ r
  by_cases same : q = r
  · subst same
    obtain ⟨i, inI, rfl⟩ := inv.live_small isOther onQ (by simp [isLive])
    have ne : blockAddr q d i ≠ blockAddr q d j := by
      intro eq
      rw [eq, isFree] at isLive
      cases isLive
    have disjoint := blockAddr_disjoint inI inJ ne
    rcases inv.usable isLive with ⟨r, e, i', isSmall, inI', eqB, eq, _⟩ | ⟨r, n, isLarge, eqB, _⟩
    · have samePage := blockAddr_inj inI inI' eqB
      subst samePage
      rw [isOther] at isSmall
      cases isSmall
      rw [eq]
      exact disjoint
    · have onR := block2arena_blockAddr inI q
      rw [eqB, block2arena_first] at onR
      rw [heapAddr_inj onR, isOther] at isLarge
      cases isLarge
  · have := inv.regions_disjoint isArena isOther same
    have onePage : (Arena.small d).pages = 1 := rfl
    rw [onePage] at this
    simp only [pgSize, arenaSize] at *
    omega

/-- A live allocation does not overlap an arena header. -/
theorem HeapInv.header_disjoint (inv : HeapInv start s live arena free) {p size r : Nat} {l : Arena}
    (isLive : live p = some size) (isOther : arena r = some l) :
    p + Memory.usable s p ≤ heapAddr r ∨ heapAddr r + arenaSize ≤ p := by
  obtain ⟨q, k, isArena, _, low, high⟩ := inv.span isLive
  by_cases same : q = r
  · subst same
    exact .inr low
  · have positive := inv.pages_pos isOther
    have := inv.regions_disjoint isArena isOther same
    simp only [pgSize, arenaSize] at *
    omega

/-- The count in a small arena's header is the number of its blocks on the free
list of its descriptor. -/
theorem HeapInv.cnt_eq (inv : HeapInv start s live arena free) {q d : Nat}
    (isArena : arena q = some (.small d)) :
    s.word (heapAddr q + 4) = (free d).countP fun b => block2arena b = heapAddr q := by
  obtain ⟨inDescs, _, cnt, _⟩ := inv.small q d isArena
  have nodup : ((free d).filter fun b => block2arena b = heapAddr q).Nodup :=
    (inv.lists.nodup d inDescs).filter _
  have image : ((free d).filter fun b => block2arena b = heapAddr q).toFinset =
      (freeIn live q d).image (blockAddr q d) := by
    ext b
    simp only [List.mem_toFinset, List.mem_filter, decide_eq_true_eq, Finset.mem_image]
    constructor
    · rintro ⟨mem, onQ⟩
      obtain ⟨r, j, isOther, inJ, rfl, isFree⟩ := (inv.freeIff d inDescs b).mp mem
      rw [block2arena_blockAddr inJ] at onQ
      obtain rfl := heapAddr_inj onQ
      exact ⟨j, mem_freeIn.mpr ⟨inJ, isFree⟩, rfl⟩
    · rintro ⟨j, mem, rfl⟩
      obtain ⟨inJ, isFree⟩ := mem_freeIn.mp mem
      exact ⟨(inv.freeIff d inDescs _).mpr ⟨q, j, isArena, inJ, rfl, isFree⟩,
        block2arena_blockAddr inJ q⟩
  rw [cnt, List.countP_eq_length_filter, ← List.toFinset_card_of_nodup nodup, image,
    Finset.card_image_of_injective _ fun i j eq => blockAddr_inj_idx eq]

/-- A store into a live allocation keeps the invariant. -/
theorem HeapInv.store (inv : HeapInv start s live arena free) (layout : HeapLayout start)
    {p size cell : Nat} (isLive : live p = some size) (low : p ≤ cell) (high : cell < p + size)
    (value : Nat) :
    HeapInv start { s with word := Function.update s.word cell value } live arena free := by
  have fits : size ≤ Memory.usable s p := by
    rcases inv.usable isLive with ⟨_, _, _, _, _, _, _, fits⟩ | ⟨_, _, _, _, _, fits⟩ <;>
      exact fits
  refine inv.setWord layout ?_ ?_ ?_
  · intro other _ below
    obtain ⟨q, k, _, _, first, _⟩ := inv.span isLive
    have descsHigh := layout.descsHigh
    refine Function.update_of_ne ?_ _ _
    unfold heapAddr at first
    omega
  · intro r l isOther offset small
    have := inv.header_disjoint isLive isOther
    exact Function.update_of_ne (by omega) _ _
  · intro d inDescs b mem
    have := inv.free_disjoint isLive inDescs mem
    have : 16 ≤ blockSize d := Nat.le_mul_of_pos_right 16 (Nat.two_pow_pos d)
    exact ⟨Function.update_of_ne (by omega) _ _, Function.update_of_ne (by omega) _ _⟩

end

/-- Every state of a run is explained by some arenas and free lists. -/
theorem HeapReachable.inv {start s : HeapState} (reachable : HeapReachable start s) :
    ∃ arena free, HeapInv start.mem s.mem s.live arena free ∧ Busy s.live arena := by
  obtain ⟨initial, run⟩ := reachable
  have layout := initial.heapLayout
  induction run with
  | refl => exact ⟨_, _, initial.inv, fun q d isArena => by cases isArena⟩
  | tail _ step inductionHypothesis =>
      obtain ⟨arena, free, inv, busy⟩ := inductionHypothesis
      cases step with
      | malloc word32 ok =>
          rename_i size p t
          have result := inv.sysMalloc layout busy size
          rw [ok] at result
          cases result with
          | block _ _ after stillBusy => exact ⟨_, _, after, stillBusy⟩
      | free isLive ok =>
          obtain ⟨t', arena', free', ok', after, stillBusy⟩ := inv.sysFree layout busy isLive
          rw [ok] at ok'
          cases ok'
          exact ⟨arena', free', after, stillBusy⟩
      | store isLive inside aligned =>
          exact ⟨arena, free, inv.store layout isLive inside.1 inside.2 _, busy⟩

/-! ### Safety -/

/-- `a` is the header of an arena: an allocation or a free block belongs to it. -/
def IsArena (s : HeapState) (free : Nat → List Nat) (a : Nat) : Prop :=
  ∃ p, (s.live p ≠ none ∨ ∃ d < descCnt, p ∈ free d) ∧ block2arena p = a

/-- How the kernel heap lies in memory; `free d` are the blocks on free list `d`. -/
structure HeapShape (start s : HeapState) (free : Nat → List Nat) : Prop where
  lists : ∀ d < descCnt,
    IsList s.mem.word (freeListOf (descAddr s.mem.kBlockDescs d)) (free d) ∧ (free d).Nodup
  -- a live allocation spans its size, inside mapped pages
  size : ∀ p size, s.live p = some size → size ≤ usable s.mem p
  mapped : ∀ p, s.live p ≠ none → ∀ cell, p ≤ cell → cell < p + usable s.mem p →
    s.mem.pte (pageOf cell) % 2 = 1
  -- and is disjoint from everything else the heap holds
  liveDisjoint : ∀ p p', s.live p ≠ none → s.live p' ≠ none → p ≠ p' →
    p + usable s.mem p ≤ p' ∨ p' + usable s.mem p' ≤ p
  headerDisjoint : ∀ p a, s.live p ≠ none → IsArena s free a →
    p + usable s.mem p ≤ a ∨ a + arenaSize ≤ p
  freeDisjoint : ∀ p d b, s.live p ≠ none → d < descCnt → b ∈ free d →
    p + usable s.mem p ≤ b ∨
      b + s.mem.word (descAddr s.mem.kBlockDescs d) ≤ p
  cnt : ∀ a, IsArena s free a → s.mem.word (a + 8) = 0 →
    ∃ d < descCnt, s.mem.word a = descAddr s.mem.kBlockDescs d ∧
      s.mem.word (a + 4) = (free d).countP fun b => block2arena b = a
  restored : (∀ p, s.live p = none) →
    s.mem.kernelPool.poolBitmap = start.mem.kernelPool.poolBitmap ∧
      s.mem.kernelVaddr.vaddrBitmap = start.mem.kernelVaddr.vaddrBitmap

/-- What holds of the kernel heap and of the next call, in a memory without a TLB. -/
structure HeapSafe (start s : HeapState) (free : Nat → List Nat) : Prop
    extends HeapShape start s free where
  zero : ∀ size t p, sysMalloc s.mem size = .ok (t, some p) →
    s.live p = none ∧ ∀ cell, p ≤ cell → cell < p + size → t.word cell = 0
  -- only exhaustion of the bitmaps and the page limit can stop a call
  mallocAsserts : ∀ size panic, sysMalloc s.mem size = .error panic →
    panic = .bitmapScan ∨ panic = .mallocPageCnt
  freeAsserts : ∀ p, s.live p ≠ none → ∃ t, sysFree s.mem p = .ok t

/-- Without live allocations there are no arenas. -/
theorem HeapInv.noArenas {start s : MemState} {live : Nat → Option Nat}
    {arena : Nat → Option Arena} {free : Nat → List Nat} (inv : HeapInv start s live arena free)
    (busy : Busy live arena) (dead : ∀ p, live p = none) : usedPages arena = ∅ := by
  have none : arena = fun _ => none := by
    funext q
    by_contra present
    obtain ⟨k, isArena⟩ := Option.ne_none_iff_exists'.mp present
    cases k with
    | small d =>
        obtain ⟨idx, _, isLive⟩ := busy q d isArena
        exact isLive (dead _)
    | large n => exact (inv.large q n isArena).2 (dead _)
  rw [none, usedPages_none]

/-- Arenas and free lists that explain a heap give it its shape. -/
theorem HeapInv.shape {start s : HeapState} {arena : Nat → Option Arena} {free : Nat → List Nat}
    (inv : HeapInv start.mem s.mem s.live arena free) (busy : Busy s.live arena) :
    HeapShape start s free := by
  have descs : s.mem.kBlockDescs = start.mem.kBlockDescs := inv.pages.statics.kBlockDescs
  have arenaOf : ∀ a, IsArena s free a → ∃ q k, arena q = some k ∧ a = heapAddr q := by
    rintro a ⟨p, isLive | ⟨d, inDescs, mem⟩, rfl⟩
    · obtain ⟨q, k, isArena, onQ⟩ := inv.live_arena isLive
      exact ⟨q, k, isArena, onQ⟩
    · obtain ⟨q, idx, isArena, inArena, rfl, _⟩ := (inv.freeIff d inDescs p).mp mem
      exact ⟨q, _, isArena, block2arena_blockAddr inArena q⟩
  have sized : ∀ p, s.live p ≠ none → ∃ size, s.live p = some size :=
    fun p isLive => Option.ne_none_iff_exists'.mp isLive
  constructor
  case lists =>
    intro d inDescs
    rw [descs]
    exact ⟨inv.lists.isList d inDescs, inv.lists.nodup d inDescs⟩
  case size =>
    intro p size isLive
    rcases inv.usable isLive with ⟨_, _, _, _, _, _, _, fits⟩ | ⟨_, _, _, _, _, fits⟩ <;>
      exact fits
  case mapped =>
    intro p isLive cell low high
    obtain ⟨size, eq⟩ := sized p isLive
    exact inv.mapped eq low high
  case liveDisjoint =>
    intro p p' isLive isLive' ne
    obtain ⟨size, eq⟩ := sized p isLive
    obtain ⟨size', eq'⟩ := sized p' isLive'
    exact inv.live_disjoint eq eq' ne
  case headerDisjoint =>
    intro p a isLive isArena
    obtain ⟨size, eq⟩ := sized p isLive
    obtain ⟨q, k, isQ, rfl⟩ := arenaOf a isArena
    exact inv.header_disjoint eq isQ
  case freeDisjoint =>
    intro p d b isLive inDescs mem
    obtain ⟨size, eq⟩ := sized p isLive
    rw [descs, (inv.sizes d inDescs).1]
    exact inv.free_disjoint eq inDescs mem
  case cnt =>
    intro a isArena notLarge
    obtain ⟨q, k, isQ, rfl⟩ := arenaOf a isArena
    cases k with
    | small d =>
        obtain ⟨inDescs, desc, _, _⟩ := inv.small q d isQ
        rw [descs]
        exact ⟨d, inDescs, desc, inv.cnt_eq isQ⟩
    | large n =>
        rw [(inv.large q n isQ).1.large] at notLarge
        cases notLarge
  case restored =>
    intro dead
    have pages := inv.pages
    rw [inv.noArenas busy dead] at pages
    exact pages.restored

/-- In every state of a run of successful calls and stores, the kernel heap is
safe, as long as every access goes where the page tables say. -/
theorem heap_safe {start s : HeapState} (reachable : HeapReachable start s) :
    ∃ free, HeapSafe start s free := by
  obtain ⟨arena, free, inv, busy⟩ := reachable.inv
  have layout := reachable.1.heapLayout
  refine ⟨free, { inv.shape busy with zero := ?_, mallocAsserts := ?_, freeAsserts := ?_ }⟩
  · intro size t p ok
    have result := inv.sysMalloc layout busy size
    rw [ok] at result
    cases result with
    | block fresh zero _ _ => exact ⟨fresh, zero⟩
  · intro size panic failed
    have result := inv.sysMalloc layout busy size
    rw [failed] at result
    cases result with
    | panic exhausted => exact exhausted
  · intro p isLive
    obtain ⟨size, eq⟩ := Option.ne_none_iff_exists'.mp isLive
    obtain ⟨t, _, _, ok, _⟩ := inv.sysFree layout busy eq
    exact ⟨t, ok⟩

/-- Memory after the loader, with 32 megabytes, and `mem_init`. -/
def bootMem : MemState :=
  memInit
    { word := fun _ => 0xff
      pte := fun page => if page < 0xc0100 then 7 else 0
      pde := fun _ => 7
      kernelPool := ⟨⟨0, fun _ => 0xff⟩, 0, 0⟩
      userPool := ⟨⟨0, fun _ => 0xff⟩, 0, 0⟩
      kernelVaddr := ⟨⟨0, fun _ => 0xff⟩, 0⟩
      userprogVaddr := ⟨⟨0, fun _ => 0xff⟩, 0⟩
      kBlockDescs := 0xc0008000
      uBlockDesc := 0
      pgdirNull := true }
    0x2000000

theorem bootMem_initial : HeapInitial ⟨bootMem, fun _ => none⟩ := by
  refine memInit_initial ⟨rfl, by simp, ?_, by decide, by decide⟩ _
  intro page low _
  simp only [show ¬ page < 0xc0100 by omega, if_false]

end ZyOs.Memory
