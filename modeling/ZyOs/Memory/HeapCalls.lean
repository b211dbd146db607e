import ZyOs.Memory.HeapSafety

/-!
Contract: `sys_malloc` and `sys_free` as a whole, and the safety of the kernel
heap over every run of them.
-/

namespace ZyOs.Memory

open ZyOs.Lib ZyOs.Kernel

/-! ### The loops over the blocks of an arena -/

theorem isBlock_blockAddr {q d idx : Nat} (inArena : idx < blocksPerArena d)
    (below : heapAddr q + 4096 ≤ 0xffc00000) : IsBlock (blockAddr q d idx) := by
  obtain ⟨low, high, size, aligned⟩ := blockAddr_bounds inArena q
  refine ⟨?_, by omega, aligned, ?_⟩
  · unfold heapAddr at low
    omega
  · simp only [heapAddr, kHeapStart, pgSize] at low high ⊢
    omega

theorem arena2block_eq {m : Words} {descs q d : Nat} (desc : m (heapAddr q) = descAddr descs d)
    (size : m (descAddr descs d) = blockSize d) (idx : Nat) :
    arena2block m (heapAddr q) idx = blockAddr q d idx := by
  unfold arena2block blockAddr
  rw [desc, size]

/-- The blocks `k`, …, `k + left - 1` of an arena. -/
def blockRun (q d k left : Nat) : List Nat := (List.range' k left).map (blockAddr q d)

theorem mem_blockRun {q d k left b : Nat} :
    b ∈ blockRun q d k left ↔ ∃ idx, k ≤ idx ∧ idx < k + left ∧ b = blockAddr q d idx := by
  simp only [blockRun, List.mem_map, List.mem_range'_1]
  constructor
  · rintro ⟨idx, ⟨low, high⟩, rfl⟩
    exact ⟨idx, low, high, rfl⟩
  · rintro ⟨idx, low, high, rfl⟩
    exact ⟨idx, ⟨low, high⟩, rfl⟩

/-- Filling the free list with the blocks of a new arena. -/
theorem fillArena_spec {descs q d : Nat} (below : descs + 24 * descCnt ≤ kHeapStart)
    (inDescs : d < descCnt) {left : Nat} :
    ∀ {k : Nat} {m : Words} {free : Nat → List Nat}, FreeLists descs m free →
      m (heapAddr q) = descAddr descs d → m (descAddr descs d) = blockSize d →
      (∀ idx, k ≤ idx → idx < k + left → IsBlock (blockAddr q d idx) ∧
        ∀ e < descCnt, blockAddr q d idx ∉ free e) →
      ∃ m', fillArena (heapAddr q) left k m = .ok m' ∧
        FreeLists descs m' (Function.update free d (free d ++ blockRun q d k left)) ∧
        ∀ cell, OffNodes descs cell → m' cell = m cell := by
  induction left with
  | zero =>
      intro k m free lists desc size _
      refine ⟨m, rfl, ?_, fun _ _ => rfl⟩
      simpa [blockRun] using lists
  | succ left inductionHypothesis =>
      intro k m free lists desc size blocks
      obtain ⟨isBlock, fresh⟩ := blocks k (le_refl _) (by omega)
      obtain ⟨lists', offNodes⟩ := lists.append below inDescs isBlock fresh
      have offHeader : OffNodes descs (heapAddr q) := by
        simpa using offNodes_header below (by decide : 0 < arenaSize) q
      have offSize : OffNodes descs (descAddr descs d) := by
        simpa using offNodes_desc below inDescs (.inl rfl : 0 = 0 ∨ 0 = 4)
      have rest : ∀ idx, k + 1 ≤ idx → idx < k + 1 + left → IsBlock (blockAddr q d idx) ∧
          ∀ e < descCnt, blockAddr q d idx ∉
            Function.update free d (free d ++ [blockAddr q d k]) e := by
        intro idx low high
        obtain ⟨isBlock', fresh'⟩ := blocks idx (by omega) (by omega)
        refine ⟨isBlock', fun e inE => ?_⟩
        by_cases same : e = d
        · subst same
          rw [Function.update_self, List.mem_append, List.mem_singleton, not_or]
          refine ⟨fresh' e inE, fun eq => ?_⟩
          have := blockAddr_inj_idx eq
          omega
        · rw [Function.update_of_ne same]
          exact fresh' e inE
      obtain ⟨m', ok, lists'', kept⟩ := inductionHypothesis lists'
        (by rw [offNodes _ offHeader, desc]) (by rw [offNodes _ offSize, size]) rest
      refine ⟨m', ?_, ?_, ?_⟩
      · unfold fillArena
        simp only [arena2block_eq desc size, desc, lists.elemFind below inDescs,
          fresh d inDescs, decide_false]
        exact ok
      · rw [Function.update_self, Function.update_idem, List.append_assoc] at lists''
        have run : [blockAddr q d k] ++ blockRun q d (k + 1) left = blockRun q d k (left + 1) := by
          simp [blockRun, List.range'_succ]
        rwa [run] at lists''
      · intro cell off
        rw [kept cell off, offNodes cell off]

/-- Draining the blocks of an arena from the free list. -/
theorem drainArena_spec {descs q d : Nat} (below : descs + 24 * descCnt ≤ kHeapStart)
    (inDescs : d < descCnt) {left : Nat} :
    ∀ {k : Nat} {m : Words} {free : Nat → List Nat}, FreeLists descs m free →
      m (heapAddr q) = descAddr descs d → m (descAddr descs d) = blockSize d →
      (∀ idx, k ≤ idx → idx < k + left → blockAddr q d idx ∈ free d) →
      ∃ m' elems, drainArena (heapAddr q) left k m = .ok m' ∧
        FreeLists descs m' (Function.update free d elems) ∧
        (∀ b, b ∈ elems ↔ b ∈ free d ∧ b ∉ blockRun q d k left) ∧
        ∀ cell, OffNodes descs cell → m' cell = m cell := by
  induction left with
  | zero =>
      intro k m free lists desc size _
      refine ⟨m, free d, rfl, ?_, ?_, fun _ _ => rfl⟩
      · simpa using lists
      · simp [blockRun]
  | succ left inductionHypothesis =>
      intro k m free lists desc size blocks
      have mem := blocks k (le_refl _) (by omega)
      have nodup := lists.nodup d inDescs
      obtain ⟨lists', offNodes⟩ := lists.remove below inDescs mem
      have offHeader : OffNodes descs (heapAddr q) := by
        simpa using offNodes_header below (by decide : 0 < arenaSize) q
      have offSize : OffNodes descs (descAddr descs d) := by
        simpa using offNodes_desc below inDescs (.inl rfl : 0 = 0 ∨ 0 = 4)
      have rest : ∀ idx, k + 1 ≤ idx → idx < k + 1 + left →
          blockAddr q d idx ∈ Function.update free d ((free d).erase (blockAddr q d k)) d := by
        intro idx low high
        rw [Function.update_self, nodup.mem_erase_iff]
        refine ⟨fun eq => ?_, blocks idx (by omega) (by omega)⟩
        have := blockAddr_inj_idx eq
        omega
      obtain ⟨m', elems, ok, lists'', members, kept⟩ := inductionHypothesis lists'
        (by rw [offNodes _ offHeader, desc]) (by rw [offNodes _ offSize, size]) rest
      refine ⟨m', elems, ?_, ?_, ?_, ?_⟩
      · unfold drainArena
        simp only [arena2block_eq desc size, desc, lists.elemFind below inDescs, mem, decide_true]
        exact ok
      · rwa [Function.update_idem] at lists''
      · intro b
        rw [members b, Function.update_self, nodup.mem_erase_iff]
        have run : blockRun q d k (left + 1) = blockAddr q d k :: blockRun q d (k + 1) left := by
          simp [blockRun, List.range'_succ]
        rw [run, List.mem_cons, not_or]
        constructor
        · rintro ⟨⟨ne, old⟩, notRun⟩
          exact ⟨old, ne, notRun⟩
        · rintro ⟨old, ne, notRun⟩
          exact ⟨⟨ne, old⟩, notRun⟩
      · intro cell off
        rw [kept cell off, offNodes cell off]

section

variable {start s : MemState} {live : Nat → Option Nat} {arena : Nat → Option Arena}
  {free : Nat → List Nat}

/-! ### `sys_malloc` -/

/-- Writes on fresh pages leave what the invariant reads alone. -/
theorem HeapInv.onlyFresh (inv : HeapInv start s live arena free) (layout : HeapLayout start)
    {q n : Nat} {m : Words}
    (fresh : ∀ page ∈ Set.Ico q (q + n), page ∉ usedPages arena)
    (outside : ∀ cell, cell < heapAddr q ∨ heapAddr (q + n) ≤ cell → m cell = s.word cell) :
    OnlyArena start s arena q m ∧ FreeLists start.kBlockDescs m free := by
  have descsHigh := layout.descsHigh
  simp only [descCnt, kHeapStart] at descsHigh
  have low : ∀ cell, cell < kHeapStart → m cell = s.word cell := by
    intro cell lt
    refine outside cell (.inl ?_)
    unfold heapAddr
    omega
  have onArena : ∀ r k, arena r = some k → ∀ offset < 4096,
      m (heapAddr r + offset) = s.word (heapAddr r + offset) := by
    intro r k isArena offset lt
    have notFresh : r < q ∨ q + n ≤ r := by
      by_contra inside
      exact fresh r ⟨by omega, by omega⟩ (inv.firstPage isArena)
    refine outside _ ?_
    rcases notFresh with before | after
    · have := heapAddr_lt_of_lt before
      omega
    · have : heapAddr (q + n) ≤ heapAddr r := by
        simp only [heapAddr, pgSize]
        omega
      omega
  refine ⟨⟨?_, ?_⟩, inv.lists.congr ?_⟩
  · intro d inDescs offset isSize
    simp only [descCnt] at inDescs
    refine low _ ?_
    simp only [descAddr, kHeapStart]
    omega
  · intro r k isArena offset small _
    simp only [arenaSize] at small
    exact onArena r k isArena offset (by omega)
  · intro d inDescs x mem
    simp only [nodesOf, List.cons_append, List.mem_cons, List.mem_append, List.not_mem_nil,
      or_false] at mem
    rcases mem with head | inside | tail
    · simp only [freeListOf, descAddr, descCnt] at head inDescs
      exact ⟨low _ (by simp only [kHeapStart]; omega), low _ (by simp only [kHeapStart]; omega)⟩
    · obtain ⟨r, j, isArena, inJ, rfl, _⟩ := (inv.freeIff d inDescs x).mp inside
      obtain ⟨lowB, highB, sizeB, _⟩ := blockAddr_bounds inJ r
      have at0 := onArena r _ isArena (blockAddr r d j - heapAddr r) (by omega)
      have at4 := onArena r _ isArena (blockAddr r d j + 4 - heapAddr r) (by omega)
      rw [Nat.add_sub_cancel' (by omega)] at at0 at4
      exact ⟨at0, at4⟩
    · simp only [freeListOf, descAddr, descCnt, tailOf] at tail inDescs
      exact ⟨low _ (by simp only [kHeapStart]; omega), low _ (by simp only [kHeapStart]; omega)⟩

theorem PageInv.below {used : Set Nat} (inv : PageInv start s used) (layout : HeapLayout start)
    {page : Nat} (mem : page ∈ used) : heapAddr page + 4096 ≤ 0xffc00000 := by
  obtain ⟨frame, map⟩ := inv.map
  have lt := map.inArea page mem
  have high := layout.layout.vaddrHigh
  have := heapAddr_lt_of_lt lt
  omega

/-- The words of a new small arena on page `q` before its blocks go on the free list. -/
structure NewHeader (start s : MemState) (arena : Nat → Option Arena) (free : Nat → List Nat)
    (q d : Nat) (m : Words) : Prop where
  outside : ∀ cell, cell < heapAddr q ∨ heapAddr (q + 1) ≤ cell → m cell = s.word cell
  only : OnlyArena start s arena q m
  lists : FreeLists start.kBlockDescs m free
  desc : m (heapAddr q) = descAddr start.kBlockDescs d
  cnt : m (heapAddr q + 4) = blocksPerArena d
  large : m (heapAddr q + 8) = 0
  size : m (descAddr start.kBlockDescs d) = blockSize d
  per : m (descAddr start.kBlockDescs d + 4) = blocksPerArena d

/-- `memset` and the three fields of the header. -/
theorem HeapInv.newHeader (inv : HeapInv start s live arena free) (layout : HeapLayout start)
    {q d : Nat} (inDescs : d < descCnt) (fresh : ∀ page ∈ Set.Ico q (q + 1), page ∉ usedPages arena) :
    Function.update (Function.update (memsetZero s.word (heapAddr q) pgSize) (heapAddr q)
      (descAddr start.kBlockDescs d)) (heapAddr q + 8) 0 (descAddr start.kBlockDescs d + 4) =
        blocksPerArena d ∧
      NewHeader start s arena free q d (Function.update (Function.update (Function.update
        (memsetZero s.word (heapAddr q) pgSize) (heapAddr q) (descAddr start.kBlockDescs d))
        (heapAddr q + 8) 0) (heapAddr q + 4) (blocksPerArena d)) := by
  obtain ⟨sizeWord, perWord⟩ := inv.sizes d inDescs
  have descLow : descAddr start.kBlockDescs d + 4 < heapAddr q := by
    have high := layout.descsHigh
    simp only [descCnt, kHeapStart] at high inDescs
    simp only [descAddr, heapAddr, kHeapStart]
    omega
  obtain ⟨m₀, m₀Eq⟩ : ∃ m₀, m₀ = Function.update (Function.update (Function.update
      (memsetZero s.word (heapAddr q) pgSize) (heapAddr q) (descAddr start.kBlockDescs d))
      (heapAddr q + 8) 0) (heapAddr q + 4) (blocksPerArena d) := ⟨_, rfl⟩
  have outside : ∀ cell, cell < heapAddr q ∨ heapAddr (q + 1) ≤ cell → m₀ cell = s.word cell := by
    intro cell out
    rw [← heapAddr_succ] at out
    simp only [pgSize] at out
    rw [m₀Eq, Function.update_of_ne (by omega), Function.update_of_ne (by omega),
      Function.update_of_ne (by omega), memsetZero, if_neg (by simp only [pgSize]; omega)]
  obtain ⟨only, lists⟩ := inv.onlyFresh layout fresh outside
  refine ⟨?_, ?_⟩
  · rw [Function.update_of_ne (by omega), Function.update_of_ne (by omega), memsetZero,
      if_neg (by omega), perWord]
  · rw [← m₀Eq]
    refine ⟨outside, only, lists, by simp [m₀Eq], by simp [m₀Eq], by simp [m₀Eq], ?_, ?_⟩
    · rw [outside _ (.inl (by omega)), sizeWord]
    · rw [outside _ (.inl descLow), perWord]

/-- The blocks of a new arena are on no free list. -/
theorem HeapInv.newBlocks (inv : HeapInv start s live arena free) {q d : Nat}
    (below : heapAddr q + 4096 ≤ 0xffc00000)
    (fresh : ∀ page ∈ Set.Ico q (q + 1), page ∉ usedPages arena) :
    ∀ idx < blocksPerArena d, IsBlock (blockAddr q d idx) ∧ ∀ e < descCnt, blockAddr q d idx ∉ free e := by
  intro idx inArena
  refine ⟨isBlock_blockAddr inArena below, fun e inE mem => ?_⟩
  obtain ⟨r, j, isArena, inJ, eq, _⟩ := (inv.freeIff e inE _).mp mem
  obtain rfl := blockAddr_inj inArena inJ eq
  exact fresh q ⟨le_refl _, by omega⟩ (inv.firstPage isArena)

/-- A new small arena: all its blocks are free. -/
theorem HeapInv.initArena (inv : HeapInv start s live arena free) (layout : HeapLayout start)
    {t : MemState} {q d : Nat} (inDescs : d < descCnt)
    (fresh : ∀ page ∈ Set.Ico q (q + 1), page ∉ usedPages arena)
    (pages : PageInv start t (usedPages arena ∪ Set.Ico q (q + 1))) (word : t.word = s.word) :
    ∃ m, Memory.initArena t.word (heapAddr q) (descAddr start.kBlockDescs d) = .ok m ∧
      HeapInv start { t with word := m } live (Function.update arena q (some (.small d)))
        (Function.update free d (free d ++ blockRun q d 0 (blocksPerArena d))) := by
  have descsHigh := layout.descsHigh
  have below : heapAddr q + 4096 ≤ 0xffc00000 :=
    pages.below layout (.inr ⟨le_refl _, by omega⟩)
  have absent : arena q = none := by
    by_contra present
    obtain ⟨l, isArena⟩ := Option.ne_none_iff_exists'.mp present
    exact fresh q ⟨le_refl _, by omega⟩ (inv.firstPage isArena)
  obtain ⟨perRead, header⟩ := inv.newHeader layout inDescs fresh
  obtain ⟨m₀, m₀Eq⟩ : ∃ m₀, m₀ = Function.update (Function.update (Function.update
      (memsetZero s.word (heapAddr q) pgSize) (heapAddr q) (descAddr start.kBlockDescs d))
      (heapAddr q + 8) 0) (heapAddr q + 4) (blocksPerArena d) := ⟨_, rfl⟩
  rw [← m₀Eq] at header
  have newBlocks : ∀ idx, 0 ≤ idx → idx < 0 + blocksPerArena d → IsBlock (blockAddr q d idx) ∧
      ∀ e < descCnt, blockAddr q d idx ∉ free e :=
    fun idx _ lt => inv.newBlocks below fresh idx (by omega)
  obtain ⟨m, filled, lists', kept⟩ :=
    fillArena_spec descsHigh inDescs header.lists header.desc header.size newBlocks
  refine ⟨m, ?_, ?_⟩
  · unfold Memory.initArena
    rw [word]
    simp only [perRead, ← m₀Eq, header.per]
    exact filled
  · have only' : OnlyArena start s arena q m := by
      refine ⟨fun e inE offset isSize => ?_, fun r k isArena offset small ne => ?_⟩
      · rw [kept _ (offNodes_desc descsHigh inE isSize)]
        exact header.only.sizes e inE offset isSize
      · rw [kept _ (offNodes_header descsHigh small r)]
        exact header.only.header r k isArena offset small ne
    have deadOn : ∀ idx < blocksPerArena d, live (blockAddr q d idx) = none := by
      intro idx inArena
      by_contra isLive
      obtain ⟨r, l, isArena, onR⟩ := inv.live_arena isLive
      rw [block2arena_blockAddr inArena] at onR
      rw [← heapAddr_inj onR, absent] at isArena
      cases isArena
    refine inv.addArena (k := .small d) Nat.one_pos fresh (pages.setWord m) only' lists' ?_ ?_ ?_ ?_
    · intro e isSmall
      cases isSmall
      have off {offset : Nat} (small : offset < arenaSize) :=
        kept _ (offNodes_header descsHigh small q)
      have off0 := off (by decide : 0 < arenaSize)
      rw [Nat.add_zero] at off0
      refine ⟨inDescs, by simp only; rw [off0, header.desc], ?_, ?_⟩
      · have all : freeIn live q d = Finset.range (blocksPerArena d) := by
          ext idx
          rw [mem_freeIn, Finset.mem_range]
          exact ⟨fun both => both.1, fun inArena => ⟨inArena, deadOn idx inArena⟩⟩
        simp only
        rw [off (by decide), all, Finset.card_range, header.cnt]
      · simp only
        rw [off (by decide), header.large]
    · intro cnt isLarge
      cases isLarge
    · intro e inE b
      by_cases same : e = d
      · subst same
        rw [Function.update_self, List.mem_append, mem_blockRun]
        refine or_congr_right (exists_congr fun idx => ?_)
        constructor
        · rintro ⟨_, lt, eq⟩
          exact ⟨rfl, by omega, eq⟩
        · rintro ⟨_, lt, eq⟩
          exact ⟨by omega, by omega, eq⟩
      · rw [Function.update_of_ne same]
        constructor
        · exact .inl
        · rintro (mem | ⟨idx, isSmall, _⟩)
          · exact mem
          · cases isSmall
            exact absurd rfl same
    · exact fun p => .inl rfl

/-- What `sys_malloc` does. -/
inductive MallocResult (start : MemState) (live : Nat → Option Nat) (size : Nat) :
    Except MemPanic (MemState × Option Nat) → Prop where
  | panic {panic : MemPanic} (exhausted : panic = .bitmapScan ∨ panic = .mallocPageCnt) :
      MallocResult start live size (.error panic)
  | null (t : MemState) : MallocResult start live size (.ok (t, none))
  | block {t : MemState} {p : Nat} {arena : Nat → Option Arena} {free : Nat → List Nat}
      (fresh : live p = none) (zero : ∀ cell, p ≤ cell → cell < p + size → t.word cell = 0)
      (inv : HeapInv start t (Function.update live p (some size)) arena free)
      (busy : Busy (Function.update live p (some size)) arena) :
      MallocResult start live size (.ok (t, some p))

/-- The end of `sys_malloc`, whether or not an arena was added just before: at
most the arena the block comes from was without a live block. -/
theorem HeapInv.takeResult (inv : HeapInv start s live arena free) (layout : HeapLayout start)
    {d size : Nat} (inDescs : d < descCnt) (nonempty : free d ≠ []) (fits : size ≤ blockSize d)
    (busy : ∀ q e, arena q = some (.small e) →
      (∃ idx < blocksPerArena e, live (blockAddr q e idx) ≠ none) ∨
        ∀ b ∈ free d, block2arena b = heapAddr q) :
    MallocResult start live size (.ok
      ({ s with word := (Memory.takeBlock s.word (descAddr start.kBlockDescs d)).1 },
        some (Memory.takeBlock s.word (descAddr start.kBlockDescs d)).2)) := by
  obtain ⟨q, idx, m, isArena, inArena, isFree, taken, zero, after⟩ :=
    inv.takeBlock layout inDescs nonempty fits
  rw [taken]
  refine .block isFree ?_ after ?_
  · intro cell low high
    exact zero cell low (by omega)
  · intro r e isOther
    by_cases same : r = q
    · subst same
      rw [isArena] at isOther
      cases isOther
      exact ⟨idx, inArena, by simp⟩
    · rcases busy r e isOther with ⟨j, inJ, isLive⟩ | onlyHere
      · refine ⟨j, inJ, ?_⟩
        have ne : blockAddr r e j ≠ blockAddr q d idx :=
          fun eq => same (blockAddr_inj inJ inArena eq)
        simpa [ne] using isLive
      · have memB := (inv.freeIff d inDescs _).mpr ⟨q, idx, isArena, inArena, rfl, isFree⟩
        have onR := onlyHere _ memB
        rw [block2arena_blockAddr inArena] at onR
        exact absurd (heapAddr_inj onR).symm same

/-- The descriptor `sys_malloc` picks fits the request. -/
theorem HeapInv.findDesc (inv : HeapInv start s live arena free) {size : Nat}
    (small : size ≤ 1024) :
    ∃ d < descCnt, findDesc s.word start.kBlockDescs size = d ∧ size ≤ blockSize d := by
  unfold Memory.findDesc
  cases found : (List.range descCnt).find? fun descIdx =>
      decide (size ≤ s.word (descAddr start.kBlockDescs descIdx)) with
  | none =>
      simp only [List.find?_eq_none, List.mem_range, decide_eq_true_eq] at found
      have last := found 6 (by decide)
      rw [(inv.sizes 6 (by decide)).1] at last
      exact absurd small (by simpa [blockSize] using last)
  | some d =>
      simp only [List.find?_range_eq_some, List.mem_range, decide_eq_true_eq] at found
      obtain ⟨fits, inDescs, _⟩ := found
      rw [(inv.sizes d inDescs).1] at fits
      exact ⟨d, inDescs, rfl, fits⟩

/-- A new arena has free blocks. -/
theorem newArena_nonempty {q d : Nat} (inDescs : d < descCnt) :
    Function.update free d (free d ++ blockRun q d 0 (blocksPerArena d)) d ≠ [] := by
  have perPos := blocksPerArena_pos d inDescs
  have first : blockAddr q d 0 ∈ blockRun q d 0 (blocksPerArena d) :=
    mem_blockRun.mpr ⟨0, le_refl _, by omega, rfl⟩
  rw [Function.update_self]
  exact List.append_ne_nil_of_right_ne_nil _ (List.ne_nil_of_mem first)

/-- The new arena is the only one without a live block, and it has all the free ones. -/
theorem newArena_busy {q d : Nat} (busy : Busy live arena) (noFree : free d = []) :
    ∀ r e, Function.update arena q (some (.small d)) r = some (.small e) →
      (∃ idx < blocksPerArena e, live (blockAddr r e idx) ≠ none) ∨
        ∀ b ∈ Function.update free d (free d ++ blockRun q d 0 (blocksPerArena d)) d,
          block2arena b = heapAddr r := by
  intro r e isArena
  by_cases same : r = q
  · subst same
    right
    intro b mem
    rw [Function.update_self, noFree, List.nil_append, mem_blockRun] at mem
    obtain ⟨idx, _, lt, rfl⟩ := mem
    exact block2arena_blockAddr (by omega) r
  · left
    rw [Function.update_of_ne same] at isArena
    exact busy r e isArena

theorem HeapInv.mallocSmall (inv : HeapInv start s live arena free) (layout : HeapLayout start)
    (busy : Busy live arena) {size : Nat} (small : size ≤ 1024) :
    MallocResult start live size (mallocSmall s .kernel start.kBlockDescs size) := by
  obtain ⟨d, inDescs, found, fits⟩ := inv.findDesc small
  unfold Memory.mallocSmall
  rw [found]
  simp only
  rw [(inv.lists.isList d inDescs).listEmpty (inv.lists.apart layout.descsHigh inDescs)]
  split
  · rename_i empty
    have noFree : free d = [] := List.isEmpty_iff.mp empty
    have result := inv.pages.mallocPage layout.layout 1
    revert result
    generalize mallocPage s .kernel 1 = outcome
    rintro (exhausted | t | ⟨positive, fresh, pages, word⟩)
    · exact .panic exhausted
    · exact .null t
    · rename_i t q
      obtain ⟨m, init, after⟩ := inv.initArena layout inDescs fresh pages word
      simp only [init]
      exact after.takeResult layout inDescs (newArena_nonempty inDescs) fits (newArena_busy busy noFree)
  · rename_i nonempty
    refine inv.takeResult layout inDescs ?_ fits fun q e isArena => .inl (busy q e isArena)
    intro noFree
    simp [noFree] at nonempty

theorem HeapInv.largeArena (inv : HeapInv start s live arena free) (layout : HeapLayout start)
    (busy : Busy live arena) {size n : Nat} (fits : size + arenaSize ≤ n * pgSize) :
    MallocResult start live size (largeArena s .kernel n) := by
  unfold Memory.largeArena
  have result := inv.pages.mallocPage layout.layout n
  revert result
  generalize mallocPage s .kernel n = outcome
  rintro (exhausted | t | ⟨positive, fresh, pages, word⟩)
  · exact .panic exhausted
  · exact .null t
  · rename_i t q
    have lastPage : heapAddr (q + n) = heapAddr q + n * pgSize := by
      simp only [heapAddr, pgSize]
      omega
    have pageLe : 4096 ≤ n * pgSize := by
      simp only [pgSize]
      omega
    simp only
    obtain ⟨m, mEq⟩ : ∃ m, m = Function.update (Function.update (Function.update
        (memsetZero t.word (heapAddr q) (n * pgSize)) (heapAddr q) 0) (heapAddr q + 4) n)
        (heapAddr q + 8) 1 := ⟨_, rfl⟩
    rw [← mEq]
    have outside : ∀ cell, cell < heapAddr q ∨ heapAddr (q + n) ≤ cell →
        m cell = s.word cell := by
      intro cell out
      rw [lastPage] at out
      rw [mEq, Function.update_of_ne (by omega), Function.update_of_ne (by omega),
        Function.update_of_ne (by omega), memsetZero, if_neg (by omega), word]
    obtain ⟨only, lists⟩ := inv.onlyFresh layout fresh outside
    have absent : arena q = none := by
      by_contra present
      obtain ⟨l, isArena⟩ := Option.ne_none_iff_exists'.mp present
      exact fresh q ⟨le_refl _, by omega⟩ (inv.firstPage isArena)
    have isFree : live (heapAddr q + arenaSize) = none := by
      by_contra isLive
      obtain ⟨r, l, isArena, onR⟩ := inv.live_arena isLive
      rw [block2arena_first] at onR
      rw [← heapAddr_inj onR, absent] at isArena
      cases isArena
    have zero : ∀ cell, heapAddr q + arenaSize ≤ cell → cell < heapAddr q + arenaSize + size →
        m cell = 0 := by
      intro cell low high
      simp only [arenaSize] at low high fits
      rw [mEq, Function.update_of_ne (by omega), Function.update_of_ne (by omega),
        Function.update_of_ne (by omega), memsetZero, if_pos (by omega)]
    have after : HeapInv start { t with word := m }
        (Function.update live (heapAddr q + arenaSize) (some size))
        (Function.update arena q (some (.large n))) free := by
      refine inv.addArena (k := .large n) positive fresh (pages.setWord m) only lists ?_ ?_ ?_ ?_
      · intro d isSmall
        cases isSmall
      · intro cnt isLarge
        cases isLarge
        exact ⟨⟨positive, by simp [mEq], by simp [mEq], by simp [mEq]⟩, by simp⟩
      · intro e inE b
        simp
      · intro p
        by_cases isNew : p = heapAddr q + arenaSize
        · exact .inr ⟨isNew, n, size, rfl, by simp [isNew], fits⟩
        · exact .inl (by simp [isNew])
    refine .block isFree zero after ?_
    intro r e isArena
    have ne : r ≠ q := by
      rintro rfl
      simp at isArena
    rw [Function.update_of_ne ne] at isArena
    obtain ⟨idx, inArena, isLive⟩ := busy r e isArena
    refine ⟨idx, inArena, ?_⟩
    have notNew : blockAddr r e idx ≠ heapAddr q + arenaSize := by
      intro eq
      rw [eq] at isLive
      exact isLive isFree
    simpa [notNew] using isLive

theorem HeapInv.mallocLarge (inv : HeapInv start s live arena free) (layout : HeapLayout start)
    (busy : Busy live arena) {size : Nat} (bounded : size < 2 ^ 31) :
    MallocResult start live size (mallocLarge s .kernel size) := by
  refine inv.largeArena layout busy ?_
  simp only [divRoundUp, arenaSize, pgSize]
  omega

theorem HeapInv.sysMalloc (inv : HeapInv start s live arena free) (layout : HeapLayout start)
    (busy : Busy live arena) (size : Nat) :
    MallocResult start live size (sysMalloc s size) := by
  have kernel : s.pgdirNull = true := by
    rw [inv.pages.statics.pgdirNull]
    exact layout.pgdirNull
  unfold Memory.sysMalloc
  simp only [kernel, if_true]
  split
  · exact .null s
  · rename_i bounds
    have bounded : size < 2 ^ 31 := by
      have poolSize := inv.pages.statics.poolSize
      have := layout.poolSize
      simp only [MemState.pool] at bounds
      omega
    split
    · exact inv.mallocLarge layout busy bounded
    · rename_i notLarge
      rw [inv.pages.statics.kBlockDescs]
      exact inv.mallocSmall layout busy (by omega)

/-! ### `sys_free` -/

/-- What is live on the first page of a small arena is one of its blocks. -/
theorem HeapInv.live_small (inv : HeapInv start s live arena free) {q d p : Nat}
    (isArena : arena q = some (.small d)) (onQ : block2arena p = heapAddr q)
    (isLive : live p ≠ none) : ∃ idx < blocksPerArena d, p = blockAddr q d idx := by
  obtain ⟨size, eq⟩ := Option.ne_none_iff_exists'.mp isLive
  rcases inv.liveIn p size eq with ⟨r, e, j, isOther, inJ, rfl, _⟩ | ⟨r, n, isOther, rfl, _⟩
  · rw [block2arena_blockAddr inJ] at onQ
    rw [heapAddr_inj onQ, isArena] at isOther
    cases isOther
    exact ⟨j, inJ, by rw [heapAddr_inj onQ]⟩
  · rw [block2arena_first] at onQ
    rw [heapAddr_inj onQ, isArena] at isOther
    cases isOther

/-- An arena all of whose blocks are free is dissolved. -/
theorem HeapInv.dissolve (inv : HeapInv start s live arena free) (layout : HeapLayout start)
    {q d : Nat} (isArena : arena q = some (.small d))
    (allFree : ∀ idx < blocksPerArena d, live (blockAddr q d idx) = none) :
    ∃ m t free', drainArena (heapAddr q) (blocksPerArena d) 0 s.word = .ok m ∧
      mfreePage { s with word := m } .kernel (heapAddr q) 1 = .ok t ∧
      HeapInv start t live (Function.update arena q none) free' := by
  have descsHigh := layout.descsHigh
  obtain ⟨inDescs, desc, _, _⟩ := inv.small q d isArena
  have members : ∀ idx, 0 ≤ idx → idx < 0 + blocksPerArena d → blockAddr q d idx ∈ free d := by
    intro idx _ lt
    have inArena : idx < blocksPerArena d := by omega
    exact (inv.freeIff d inDescs _).mpr ⟨q, idx, isArena, inArena, rfl, allFree idx inArena⟩
  obtain ⟨m, elems, drained, lists, elemsIff, kept⟩ :=
    drainArena_spec descsHigh inDescs inv.lists desc (inv.sizes d inDescs).1 members
  have run : Set.Ico q (q + 1) ⊆ usedPages arena :=
    fun page mem => ⟨q, .small d, isArena, mem⟩
  obtain ⟨t, freed, pages, word⟩ := (inv.pages.setWord m).mfreePage layout.layout Nat.one_pos run
  refine ⟨m, t, Function.update free d elems, drained, freed, ?_⟩
  refine inv.removeArena isArena pages ?_ ?_ ?_ ?_
  · rw [word]
    refine ⟨fun e inE offset isSize => ?_, fun r k isOther offset small ne => ?_⟩
    · exact kept _ (offNodes_desc descsHigh inE isSize)
    · exact kept _ (offNodes_header descsHigh small r)
  · rw [word]
    exact lists
  · intro e inE b
    by_cases same : e = d
    · subst same
      rw [Function.update_self, elemsIff, mem_blockRun]
      refine and_congr_right fun _ => not_congr (exists_congr fun idx => ?_)
      constructor
      · rintro ⟨_, lt, eq⟩
        exact ⟨rfl, by omega, eq⟩
      · rintro ⟨_, lt, eq⟩
        exact ⟨by omega, by omega, eq⟩
    · rw [Function.update_of_ne same]
      refine ⟨fun mem => ⟨mem, ?_⟩, fun both => both.1⟩
      rintro ⟨idx, isSmall, _⟩
      cases isSmall
      exact same rfl
  · intro p
    split
    · rename_i onQ
      by_contra isLive
      obtain ⟨idx, inArena, rfl⟩ := inv.live_small isArena onQ isLive
      exact isLive (allFree idx inArena)
    · rfl

/-- An arena whose count is that of all its blocks has no live block. -/
theorem all_free_of_card {live : Nat → Option Nat} {q d : Nat}
    (full : (freeIn live q d).card = blocksPerArena d) :
    ∀ idx < blocksPerArena d, live (blockAddr q d idx) = none := by
  have whole := Finset.eq_of_subset_of_card_le
    (Finset.filter_subset (fun idx => live (blockAddr q d idx) = none) (Finset.range (blocksPerArena d)))
    (by rw [Finset.card_range]; exact full.ge)
  intro idx inArena
  rw [← Finset.mem_range, ← whole] at inArena
  exact (Finset.mem_filter.mp inArena).2

theorem HeapInv.freeSmall (inv : HeapInv start s live arena free) (layout : HeapLayout start)
    (busy : Busy live arena) {q d idx : Nat} (isArena : arena q = some (.small d))
    (inArena : idx < blocksPerArena d) (isLive : live (blockAddr q d idx) ≠ none) :
    ∃ t arena' free', freeSmall s .kernel (heapAddr q) (blockAddr q d idx) = .ok t ∧
      HeapInv start t (Function.update live (blockAddr q d idx) none) arena' free' ∧
      Busy (Function.update live (blockAddr q d idx) none) arena' := by
  obtain ⟨m, mEq, cnt, after⟩ := inv.giveBlock layout isArena inArena isLive
  obtain ⟨inDescs, desc, _, _⟩ := inv.small q d isArena
  have per : m (descAddr start.kBlockDescs d + 4) = blocksPerArena d := (after.sizes d inDescs).2
  have othersBusy : ∀ r e, arena r = some (.small e) → r ≠ q →
      ∃ j < blocksPerArena e,
        Function.update live (blockAddr q d idx) none (blockAddr r e j) ≠ none := by
    intro r e isOther ne
    obtain ⟨j, inJ, otherLive⟩ := busy r e isOther
    have notB : blockAddr r e j ≠ blockAddr q d idx := fun eq => ne (blockAddr_inj inJ inArena eq)
    exact ⟨j, inJ, by simpa [notB] using otherLive⟩
  unfold Memory.freeSmall
  simp only [desc]
  rw [← mEq, cnt, per]
  by_cases full : (freeIn (Function.update live (blockAddr q d idx) none) q d).card =
      blocksPerArena d
  · rw [if_pos full]
    obtain ⟨m', t, free', drained, freed, last⟩ :=
      after.dissolve layout isArena (all_free_of_card full)
    simp only at drained freed
    refine ⟨t, _, free', ?_, last, ?_⟩
    · simp only [drained]
      exact freed
    · intro r e isOther
      have ne : r ≠ q := by
        rintro rfl
        simp at isOther
      rw [Function.update_of_ne ne] at isOther
      exact othersBusy r e isOther ne
  · rw [if_neg full]
    refine ⟨_, arena, _, rfl, after, ?_⟩
    intro r e isOther
    by_cases same : r = q
    · subst same
      rw [isArena] at isOther
      cases isOther
      by_contra noneLive
      push Not at noneLive
      refine full ?_
      have all : freeIn (Function.update live (blockAddr r d idx) none) r d =
          Finset.range (blocksPerArena d) := by
        ext j
        rw [mem_freeIn, Finset.mem_range]
        exact ⟨fun both => both.1, fun inJ => ⟨inJ, noneLive j inJ⟩⟩
      rw [all, Finset.card_range]
    · exact othersBusy r e isOther same

/-- `mfree_page` of a large arena. -/
theorem HeapInv.freeLarge (inv : HeapInv start s live arena free) (layout : HeapLayout start)
    (busy : Busy live arena) {q n : Nat} (isArena : arena q = some (.large n)) :
    ∃ t, mfreePage s .kernel (heapAddr q) n = .ok t ∧
      HeapInv start t (Function.update live (heapAddr q + arenaSize) none)
        (Function.update arena q none) free ∧
      Busy (Function.update live (heapAddr q + arenaSize) none)
        (Function.update arena q none) := by
  obtain ⟨⟨positive, _, _, _⟩, _⟩ := inv.large q n isArena
  have run : Set.Ico q (q + n) ⊆ usedPages arena :=
    fun page mem => ⟨q, .large n, isArena, mem⟩
  obtain ⟨t, freed, pages, word⟩ := inv.pages.mfreePage layout.layout positive run
  refine ⟨t, freed, inv.removeArena isArena pages ?_ ?_ ?_ ?_, ?_⟩
  · rw [word]
    exact ⟨fun _ _ _ _ => rfl, fun _ _ _ _ _ _ => rfl⟩
  · rw [word]
    exact inv.lists
  · intro e inE b
    simp
  · intro p
    by_cases isP : p = heapAddr q + arenaSize
    · subst isP
      simp [block2arena_first]
    · rw [Function.update_of_ne isP]
      split
      · rename_i onQ
        by_contra isLive
        obtain ⟨size, eq⟩ := Option.ne_none_iff_exists'.mp isLive
        rcases inv.liveIn p size eq with ⟨r, e, j, isOther, inJ, rfl, _⟩ | ⟨r, l, isOther, rfl, _⟩
        · rw [block2arena_blockAddr inJ] at onQ
          rw [heapAddr_inj onQ, isArena] at isOther
          cases isOther
        · rw [block2arena_first] at onQ
          exact isP (by rw [onQ])
      · rfl
  · intro r e isOther
    have ne : r ≠ q := by
      rintro rfl
      simp at isOther
    rw [Function.update_of_ne ne] at isOther
    obtain ⟨j, inJ, otherLive⟩ := busy r e isOther
    refine ⟨j, inJ, ?_⟩
    have notP : blockAddr r e j ≠ heapAddr q + arenaSize := by
      intro eq
      have same := block2arena_blockAddr inJ r
      rw [eq, block2arena_first] at same
      exact ne (heapAddr_inj same).symm
    simpa [notP] using otherLive

/-- `sys_free` of a live allocation never fails an `ASSERT`. -/
theorem HeapInv.sysFree (inv : HeapInv start s live arena free) (layout : HeapLayout start)
    (busy : Busy live arena) {p size : Nat} (isLive : live p = some size) :
    ∃ t arena' free', sysFree s p = .ok t ∧
      HeapInv start t (Function.update live p none) arena' free' ∧
      Busy (Function.update live p none) arena' := by
  have kernel : s.pgdirNull = true := by
    rw [inv.pages.statics.pgdirNull]
    exact layout.pgdirNull
  have notNone : live p ≠ none := by simp [isLive]
  unfold Memory.sysFree
  simp only [kernel, if_true, true_and]
  rcases inv.liveIn p size isLive with ⟨q, d, idx, isArena, inArena, rfl, _⟩ |
    ⟨q, n, isArena, rfl, _⟩
  · obtain ⟨inDescs, desc, _, large⟩ := inv.small q d isArena
    have isBlock := inv.isBlock layout isArena inArena
    have high := isBlock.high
    have descNe : descAddr start.kBlockDescs d ≠ 0 := by
      have := layout.descsLow
      unfold descAddr
      omega
    have nonzero : blockAddr q d idx ≠ 0 := by
      simp only [kHeapStart] at high
      omega
    rw [block2arena_blockAddr inArena]
    simp only [nonzero, if_false, high, not_true_eq_false, large, desc, descNe, false_and, true_or,
      if_true]
    exact inv.freeSmall layout busy isArena inArena notNone
  · obtain ⟨⟨_, desc, cnt, large⟩, _⟩ := inv.large q n isArena
    have high : heapAddr q + arenaSize ≥ kHeapStart := by
      unfold heapAddr
      omega
    have nonzero : heapAddr q + arenaSize ≠ 0 := by
      simp only [arenaSize]
      omega
    rw [block2arena_first]
    simp only [nonzero, if_false, high, not_true_eq_false, large, desc, cnt, and_self, or_true,
      if_true]
    obtain ⟨t, freed, after, stillBusy⟩ := inv.freeLarge layout busy isArena
    exact ⟨t, _, free, freed, after, stillBusy⟩

end

end ZyOs.Memory
