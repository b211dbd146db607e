import ZyOs.Memory.HeapInvariant

/-!
Contract: every successful `sys_malloc` and every `sys_free` of a live
allocation keeps the heap invariant, from `block_desc_init` on.
-/

namespace ZyOs.Memory

open ZyOs.Lib ZyOs.Kernel

/-! ### Counting the free blocks of an arena -/

theorem mem_freeIn {live : Nat → Option Nat} {q d idx : Nat} :
    idx ∈ freeIn live q d ↔ idx < blocksPerArena d ∧ live (blockAddr q d idx) = none := by
  simp [freeIn]

theorem blocksPerArena_lt (d : Nat) : blocksPerArena d < 2 ^ 32 - 1 := by
  have le : blocksPerArena d ≤ pgSize - arenaSize := Nat.div_le_self _ _
  simp only [pgSize, arenaSize] at le
  omega

theorem freeIn_card_le (live : Nat → Option Nat) (q d : Nat) :
    (freeIn live q d).card ≤ blocksPerArena d := by
  have le := Finset.card_filter_le (Finset.range (blocksPerArena d))
    fun idx => live (blockAddr q d idx) = none
  rwa [Finset.card_range] at le

theorem freeIn_take {live : Nat → Option Nat} {q d idx size : Nat} :
    freeIn (Function.update live (blockAddr q d idx) (some size)) q d =
      (freeIn live q d).erase idx := by
  ext other
  rw [Finset.mem_erase, mem_freeIn, mem_freeIn]
  by_cases same : other = idx
  · subst same
    simp
  · have ne : blockAddr q d other ≠ blockAddr q d idx :=
      fun eq => same (blockAddr_inj_idx eq)
    simp [same, ne]

theorem freeIn_give {live : Nat → Option Nat} {q d idx : Nat} (inArena : idx < blocksPerArena d) :
    freeIn (Function.update live (blockAddr q d idx) none) q d =
      insert idx (freeIn live q d) := by
  ext other
  rw [Finset.mem_insert, mem_freeIn, mem_freeIn]
  by_cases same : other = idx
  · subst same
    simp [inArena]
  · have ne : blockAddr q d other ≠ blockAddr q d idx :=
      fun eq => same (blockAddr_inj_idx eq)
    simp [same, ne]

/-- An address on another page does not count. -/
theorem freeIn_other {live : Nat → Option Nat} {r e p : Nat} (value : Option Nat)
    (elsewhere : block2arena p ≠ heapAddr r) :
    freeIn (Function.update live p value) r e = freeIn live r e := by
  ext other
  rw [mem_freeIn, mem_freeIn]
  refine and_congr_right fun inArena => ?_
  have ne : blockAddr r e other ≠ p := by
    rintro rfl
    exact elsewhere (block2arena_blockAddr inArena r)
  simp [ne]

section

variable {start s : MemState} {live : Nat → Option Nat} {arena : Nat → Option Arena}
  {free : Nat → List Nat}

/-- Blocks of small arenas do not overlap. -/
theorem HeapInv.block_disjoint {q d i r e j : Nat}
    (isArena : arena q = some (.small d)) (isOther : arena r = some (.small e))
    (inI : i < blocksPerArena d) (inJ : j < blocksPerArena e)
    (ne : blockAddr q d i ≠ blockAddr r e j) :
    blockAddr q d i + blockSize d ≤ blockAddr r e j ∨
      blockAddr r e j + blockSize e ≤ blockAddr q d i := by
  by_cases samePage : q = r
  · subst samePage
    rw [isArena] at isOther
    cases isOther
    exact blockAddr_disjoint inI inJ ne
  · obtain ⟨lowI, highI, _, _⟩ := blockAddr_bounds inI q
    obtain ⟨lowJ, highJ, _, _⟩ := blockAddr_bounds inJ r
    rcases Nat.lt_or_gt_of_ne samePage with lt | lt
    · have := heapAddr_lt_of_lt lt
      omega
    · have := heapAddr_lt_of_lt lt
      omega

/-- A call on one small arena: the words of all headers stay, except for the
count of that arena, and the sizes in the descriptors stay. -/
structure OnlyArena (start s : MemState) (arena : Nat → Option Arena) (q : Nat) (m : Words) :
    Prop where
  sizes : ∀ d < descCnt, ∀ offset, offset = 0 ∨ offset = 4 →
    m (descAddr start.kBlockDescs d + offset) = s.word (descAddr start.kBlockDescs d + offset)
  header : ∀ r k, arena r = some k → ∀ offset < arenaSize, r ≠ q ∨ offset ≠ 4 →
    m (heapAddr r + offset) = s.word (heapAddr r + offset)

/-- Writes that stay off the nodes' words, apart from the count of arena `q` and
the inside of one of its blocks. -/
theorem HeapInv.onlyArena {q d idx : Nat} {m : Words}
    (descsHigh : start.kBlockDescs + 24 * descCnt ≤ kHeapStart)
    (inArena : idx < blocksPerArena d)
    (kept : ∀ cell, OffNodes start.kBlockDescs cell → cell ≠ heapAddr q + 4 →
      (cell < blockAddr q d idx ∨ blockAddr q d idx + blockSize d ≤ cell) →
      m cell = s.word cell) : OnlyArena start s arena q m where
  sizes := by
    intro e inE offset isSize
    have off := offNodes_desc descsHigh inE isSize
    obtain ⟨lowB, _, _, _⟩ := blockAddr_bounds inArena q
    simp only [descCnt, kHeapStart] at descsHigh inE
    simp only [heapAddr, kHeapStart] at lowB
    refine kept _ off ?_ (.inl ?_) <;> simp only [descAddr, heapAddr, kHeapStart] <;> omega
  header := by
    intro r k _ offset small notCnt
    obtain ⟨lowB, highB, _, _⟩ := blockAddr_bounds inArena q
    have off : OffNodes start.kBlockDescs (heapAddr r + offset) :=
      offNodes_header descsHigh small r
    simp only [arenaSize] at small
    rcases Nat.lt_trichotomy r q with lt | same | lt
    · have := heapAddr_lt_of_lt lt
      exact kept _ off (by omega) (by omega)
    · subst same
      exact kept _ off (by omega) (by omega)
    · have := heapAddr_lt_of_lt lt
      exact kept _ off (by omega) (by omega)

/-- The sizes in the descriptors are what they were. -/
theorem HeapInv.sizes_kept (inv : HeapInv start s live arena free) {q d : Nat} {m : Words}
    (only : OnlyArena start s arena q m) (inDescs : d < descCnt) :
    m (descAddr start.kBlockDescs d) = blockSize d ∧ m (descAddr start.kBlockDescs d + 4) = blocksPerArena d := by
  have at0 := only.sizes d inDescs 0 (.inl rfl)
  rw [Nat.add_zero] at at0
  rw [at0, only.sizes d inDescs 4 (.inr rfl)]
  exact inv.sizes d inDescs

/-- The header of a small arena, with a count that is right. -/
theorem HeapInv.smallHeader_kept (inv : HeapInv start s live arena free) {q r d : Nat} {m : Words}
    {live' : Nat → Option Nat} (only : OnlyArena start s arena q m) (isArena : arena r = some (.small d))
    (cnt : m (heapAddr r + 4) = (freeIn live' r d).card) : SmallHeader start.kBlockDescs m live' r d := by
  obtain ⟨inDescs, desc, _, large⟩ := inv.small r d isArena
  have at0 := only.header r _ isArena 0 (by decide) (.inr (by decide))
  rw [Nat.add_zero] at at0
  exact ⟨inDescs, at0.trans desc, cnt, (only.header r _ isArena 8 (by decide) (.inr (by decide))).trans large⟩

/-- Another arena keeps its count, when it keeps its free blocks. -/
theorem HeapInv.cnt_kept (inv : HeapInv start s live arena free) {q r d : Nat} {m : Words}
    {live' : Nat → Option Nat} (only : OnlyArena start s arena q m) (isArena : arena r = some (.small d))
    (other : r ≠ q) (same : freeIn live' r d = freeIn live r d) :
    m (heapAddr r + 4) = (freeIn live' r d).card := by
  rw [only.header r _ isArena 4 (by decide) (.inl other), (inv.small r d isArena).cnt, same]

/-- The header of a large arena. -/
theorem HeapInv.largeHeader_kept (inv : HeapInv start s live arena free) {q r cnt : Nat} {m : Words}
    (only : OnlyArena start s arena q m) (isArena : arena r = some (.large cnt)) (other : r ≠ q) :
    LargeHeader m r cnt := by
  obtain ⟨⟨positive, desc, isCnt, large⟩, _⟩ := inv.large r cnt isArena
  have keep := fun offset small => only.header r _ isArena offset small (.inl other)
  have at0 := keep 0 (by decide)
  rw [Nat.add_zero] at at0
  exact ⟨positive, at0.trans desc, (keep 4 (by decide)).trans isCnt, (keep 8 (by decide)).trans large⟩

/-- No block of the arena has changed hands. -/
theorem freeIn_congr {r d : Nat} {live' : Nat → Option Nat}
    (same : ∀ idx < blocksPerArena d, live' (blockAddr r d idx) = live (blockAddr r d idx)) :
    freeIn live' r d = freeIn live r d := by
  ext idx
  rw [mem_freeIn, mem_freeIn]
  refine and_congr_right fun inArena => ?_
  rw [same idx inArena]

/-- The invariant after a call on the small arena `q`. -/
theorem HeapInv.onArena (inv : HeapInv start s live arena free) {q d : Nat}
    (isArena : arena q = some (.small d)) {m : Words} {live' : Nat → Option Nat}
    {free' : Nat → List Nat} (only : OnlyArena start s arena q m)
    (lists : FreeLists start.kBlockDescs m free')
    (cnt : m (heapAddr q + 4) = (freeIn live' q d).card)
    (otherCnt : ∀ r e, r ≠ q → freeIn live' r e = freeIn live r e)
    (otherLarge : ∀ r cnt, arena r = some (.large cnt) →
      live' (heapAddr r + arenaSize) = live (heapAddr r + arenaSize))
    (freeIff : ∀ e < descCnt, ∀ b, b ∈ free' e ↔ ∃ r idx, arena r = some (.small e) ∧
      idx < blocksPerArena e ∧ b = blockAddr r e idx ∧ live' b = none)
    (liveIn : ∀ p size, live' p = some size → live p = some size ∨
      ∃ idx, idx < blocksPerArena d ∧ p = blockAddr q d idx ∧ size ≤ blockSize d) :
    HeapInv start { s with word := m } live' arena free' where
  pages := inv.pages.setWord m
  apart := inv.apart
  lists := lists
  sizes := fun _ inE => inv.sizes_kept only inE
  small := by
    intro r e isOther
    refine inv.smallHeader_kept only isOther ?_
    by_cases same : r = q
    · subst same
      rw [isArena] at isOther
      cases isOther
      exact cnt
    · exact inv.cnt_kept only isOther same (otherCnt r e same)
  large := by
    intro r n isOther
    have notQ : r ≠ q := by
      rintro rfl
      rw [isArena] at isOther
      cases isOther
    refine ⟨inv.largeHeader_kept only isOther notQ, ?_⟩
    rw [otherLarge r n isOther]
    exact (inv.large r n isOther).2
  freeIff := freeIff
  liveIn := by
    intro p size isLive
    rcases liveIn p size isLive with old | ⟨idx, inArena, eq, fits⟩
    · exact inv.liveIn p size old
    · exact .inl ⟨q, d, idx, isArena, inArena, eq, fits⟩

/-- Only the blocks of its own arena count when a block changes hands. -/
theorem freeIn_update_other {q d idx r e : Nat} (value : Option Nat)
    (inArena : idx < blocksPerArena d) (ne : r ≠ q) :
    freeIn (Function.update live (blockAddr q d idx) value) r e = freeIn live r e := by
  refine freeIn_other value ?_
  rw [block2arena_blockAddr inArena]
  exact fun eq => ne (heapAddr_inj eq).symm

/-- A block of a small arena is not the allocation of a large one. -/
theorem large_update_other {q d idx r n : Nat} (value : Option Nat)
    (isArena : arena q = some (.small d)) (inArena : idx < blocksPerArena d)
    (isOther : arena r = some (.large n)) :
    Function.update live (blockAddr q d idx) value (heapAddr r + arenaSize) =
      live (heapAddr r + arenaSize) := by
  have ne : heapAddr r + arenaSize ≠ blockAddr q d idx := by
    intro same
    have samePage : heapAddr r = heapAddr q := by
      rw [← block2arena_blockAddr inArena q, ← same]
      exact (block2arena_first r).symm
    rw [heapAddr_inj samePage, isArena] at isOther
    cases isOther
  rw [Function.update_of_ne ne]

/-- A block of one list is no block of an arena of another list. -/
theorem block_ne_of_desc_ne {q d idx r e j : Nat} (isArena : arena q = some (.small d))
    (inArena : idx < blocksPerArena d) (isOther : arena r = some (.small e))
    (inJ : j < blocksPerArena e) (ne : e ≠ d) : blockAddr r e j ≠ blockAddr q d idx := by
  intro same
  have samePage := blockAddr_inj inJ inArena same
  subst samePage
  rw [isArena] at isOther
  cases isOther
  exact ne rfl

/-- The lists of the other descriptors do not see it when a block changes hands. -/
theorem HeapInv.freeIff_other (inv : HeapInv start s live arena free) {q d idx e : Nat} (value : Option Nat)
    (isArena : arena q = some (.small d)) (inArena : idx < blocksPerArena d) (inE : e < descCnt) (other : e ≠ d)
    (b : Nat) :
    b ∈ free e ↔ ∃ r j, arena r = some (.small e) ∧ j < blocksPerArena e ∧ b = blockAddr r e j ∧
      Function.update live (blockAddr q d idx) value b = none := by
  rw [inv.freeIff e inE b]
  refine exists_congr fun r => exists_congr fun j => ?_
  refine and_congr_right fun isOther => and_congr_right fun inJ => and_congr_right fun eq => ?_
  have ne := block_ne_of_desc_ne isArena inArena isOther inJ other
  rw [eq, Function.update_of_ne ne]

/-! ### Taking a block -/

/-- The list words of the other free blocks lie outside a block. -/
theorem HeapInv.nodes_outside (inv : HeapInv start s live arena free) (layout : HeapLayout start)
    {q d idx e x : Nat} {elems : List Nat} (isArena : arena q = some (.small d))
    (inArena : idx < blocksPerArena d) (inE : e < descCnt)
    (members : ∀ b ∈ elems, b ∈ free e ∧ b ≠ blockAddr q d idx)
    (mem : x ∈ nodesOf (freeListOf (descAddr start.kBlockDescs e)) elems) :
    ∀ cell, cell = x ∨ cell = x + 4 → cell ≠ heapAddr q + 4 ∧
      (cell < blockAddr q d idx ∨ blockAddr q d idx + blockSize d ≤ cell) := by
  have descsHigh := layout.descsHigh
  have isNode : IsNode start.kBlockDescs x :=
    isNode_of_mem inE (fun b memB => inv.lists.block e inE b (members b memB).1) mem
  have off : OffNodes start.kBlockDescs (heapAddr q + 4) := offNodes_header descsHigh (by decide) q
  have notCnt := off x isNode
  obtain ⟨lowB, _, _, _⟩ := blockAddr_bounds inArena q
  simp only [nodesOf, List.cons_append, List.mem_cons, List.mem_append, List.not_mem_nil,
    or_false] at mem
  intro cell isCell
  refine ⟨by omega, ?_⟩
  simp only [descCnt, kHeapStart] at descsHigh inE
  rcases mem with head | inside | tail
  · simp only [freeListOf, descAddr] at head
    simp only [heapAddr, kHeapStart] at lowB
    omega
  · obtain ⟨memFree, ne⟩ := members x inside
    obtain ⟨r, j, isOther, inJ, rfl, _⟩ := (inv.freeIff e inE x).mp memFree
    obtain ⟨_, _, sizeX, _⟩ := blockAddr_bounds inJ r
    have apart := HeapInv.block_disjoint isOther isArena inJ inArena ne
    omega
  · simp only [freeListOf, descAddr, tailOf] at tail
    simp only [heapAddr, kHeapStart] at lowB
    omega

/-- The end of `sys_malloc` when the free list is not empty. -/
theorem HeapInv.takeBlock (inv : HeapInv start s live arena free) (layout : HeapLayout start)
    {d size : Nat} (inDescs : d < descCnt) (nonempty : free d ≠ []) (fits : size ≤ blockSize d) :
    ∃ q idx m, arena q = some (.small d) ∧ idx < blocksPerArena d ∧
      live (blockAddr q d idx) = none ∧
      Memory.takeBlock s.word (descAddr start.kBlockDescs d) = (m, blockAddr q d idx) ∧
      (∀ cell, blockAddr q d idx ≤ cell → cell < blockAddr q d idx + blockSize d → m cell = 0) ∧
      HeapInv start { s with word := m }
        (Function.update live (blockAddr q d idx) (some size)) arena
        (Function.update free d (free d).tail) := by
  obtain ⟨b, rest, split⟩ := List.exists_cons_of_ne_nil nonempty
  have memB : b ∈ free d := by simp [split]
  obtain ⟨q, idx, isArena, inArena, rfl, isFree⟩ := (inv.freeIff d inDescs b).mp memB
  have descsHigh := layout.descsHigh
  have first : s.word (freeListOf (descAddr start.kBlockDescs d) + 4) = blockAddr q d idx := by
    rw [(inv.lists.isList d inDescs).first, split]
    rfl
  obtain ⟨lists, offNodes⟩ := inv.lists.remove descsHigh inDescs memB
  obtain ⟨lowB, highB, sizeB, _⟩ := blockAddr_bounds inArena q
  have sizeWord : listRemove s.word (blockAddr q d idx) (descAddr start.kBlockDescs d) =
      blockSize d := by
    rw [← (inv.sizes d inDescs).1]
    exact offNodes _ (offNodes_desc descsHigh inDescs (.inl rfl))
  have memFree := mem_freeIn.mpr ⟨inArena, isFree⟩
  have cntPos : 0 < (freeIn live q d).card := Finset.card_pos.mpr ⟨idx, memFree⟩
  have cntLe := freeIn_card_le live q d
  have perLt := blocksPerArena_lt d
  obtain ⟨m, mEq⟩ : ∃ m, m = Function.update
      (memsetZero (listRemove s.word (blockAddr q d idx)) (blockAddr q d idx) (blockSize d))
      (heapAddr q + 4) ((freeIn live q d).card - 1) := ⟨_, rfl⟩
  have outside : ∀ cell, cell ≠ heapAddr q + 4 →
      (cell < blockAddr q d idx ∨ blockAddr q d idx + blockSize d ≤ cell) →
      m cell = listRemove s.word (blockAddr q d idx) cell := by
    intro cell notCnt out
    rw [mEq, Function.update_of_ne notCnt, memsetZero, if_neg (by omega)]
  have nodup := inv.lists.nodup d inDescs
  have tailErase : (free d).tail = (free d).erase (blockAddr q d idx) := by
    simp [split]
  refine ⟨q, idx, m, isArena, inArena, isFree, ?_, ?_, ?_⟩
  · have cntKept : memsetZero (listRemove s.word (blockAddr q d idx)) (blockAddr q d idx)
        (blockSize d) (heapAddr q + 4) = (freeIn live q d).card := by
      rw [memsetZero, if_neg (by omega), offNodes _ (offNodes_header descsHigh (by decide) q),
        (inv.small q d isArena).cnt]
    have wrap : ((freeIn live q d).card + (2 ^ 32 - 1)) % 2 ^ 32 = (freeIn live q d).card - 1 := by
      omega
    simp only [Memory.takeBlock, listPop, first, sizeWord, block2arena_blockAddr inArena, cntKept,
      wrap, mEq]
  · intro cell low high
    rw [mEq, Function.update_of_ne (by omega), memsetZero, if_pos ⟨low, high⟩]
  rw [tailErase]
  refine inv.onArena isArena (HeapInv.onlyArena descsHigh inArena ?_) ?_ ?_ ?_ ?_ ?_ ?_
  · intro cell off notCnt out
    rw [outside cell notCnt out, offNodes cell off]
  · refine lists.congr fun e inE x mem => ?_
    have members : ∀ b ∈ Function.update free d ((free d).erase (blockAddr q d idx)) e,
        b ∈ free e ∧ b ≠ blockAddr q d idx := by
      intro b memE
      by_cases same : e = d
      · subst same
        rw [Function.update_self, nodup.mem_erase_iff] at memE
        exact ⟨memE.2, memE.1⟩
      · rw [Function.update_of_ne same] at memE
        refine ⟨memE, ?_⟩
        rintro rfl
        exact same (inv.lists.disjoint e inE d inDescs _ memE memB)
    have out := inv.nodes_outside layout isArena inArena inE members mem
    exact ⟨outside x (out x (.inl rfl)).1 (out x (.inl rfl)).2,
      outside _ (out _ (.inr rfl)).1 (out _ (.inr rfl)).2⟩
  · rw [freeIn_take, Finset.card_erase_of_mem memFree, mEq, Function.update_self]
  · exact fun r e ne => freeIn_update_other _ inArena ne
  · exact fun r n isOther => large_update_other _ isArena inArena isOther
  · intro e inE x
    by_cases same : e = d
    · subst same
      rw [Function.update_self, nodup.mem_erase_iff, inv.freeIff e inE x]
      constructor
      · rintro ⟨ne, r, j, isOther, inJ, eq, xFree⟩
        exact ⟨r, j, isOther, inJ, eq, by simpa [ne] using xFree⟩
      · rintro ⟨r, j, isOther, inJ, eq, xFree⟩
        have ne : x ≠ blockAddr q e idx := by
          rintro rfl
          simp at xFree
        exact ⟨ne, r, j, isOther, inJ, eq, by simpa [ne] using xFree⟩
    · rw [Function.update_of_ne same]
      exact inv.freeIff_other _ isArena inArena inE same x
  · intro p pSize isLive
    by_cases isB : p = blockAddr q d idx
    · subst isB
      simp only [Function.update_self, Option.some.injEq] at isLive
      subst isLive
      exact .inr ⟨idx, inArena, rfl, fits⟩
    · exact .inl (by simpa [isB] using isLive)

/-! ### Giving a block back -/

/-- `list_append` and `++cnt` of `sys_free`: the block is free again. -/
theorem HeapInv.giveBlock (inv : HeapInv start s live arena free) (layout : HeapLayout start)
    {q d idx : Nat} (isArena : arena q = some (.small d)) (inArena : idx < blocksPerArena d)
    (isLive : live (blockAddr q d idx) ≠ none) :
    ∃ m, m = Function.update
        (listAppend s.word (freeListOf (descAddr start.kBlockDescs d)) (blockAddr q d idx))
        (heapAddr q + 4)
        ((listAppend s.word (freeListOf (descAddr start.kBlockDescs d)) (blockAddr q d idx)
          (heapAddr q + 4) + 1) % 2 ^ 32) ∧
      m (heapAddr q + 4) =
        (freeIn (Function.update live (blockAddr q d idx) none) q d).card ∧
      HeapInv start { s with word := m } (Function.update live (blockAddr q d idx) none) arena
        (Function.update free d (free d ++ [blockAddr q d idx])) := by
  have inDescs := (inv.small q d isArena).inDescs
  have descsHigh := layout.descsHigh
  have isBlock := inv.isBlock layout isArena inArena
  have fresh : ∀ e < descCnt, blockAddr q d idx ∉ free e := by
    intro e inE mem
    obtain ⟨_, _, _, _, _, isFree⟩ := (inv.freeIff e inE _).mp mem
    exact isLive isFree
  obtain ⟨lists, offNodes⟩ := inv.lists.append descsHigh inDescs isBlock fresh
  have notFree : idx ∉ freeIn live q d := fun mem => isLive (mem_freeIn.mp mem).2
  have cntLe := freeIn_card_le live q d
  have perLt := blocksPerArena_lt d
  have cntWord : (listAppend s.word (freeListOf (descAddr start.kBlockDescs d))
      (blockAddr q d idx) (heapAddr q + 4) + 1) % 2 ^ 32 =
      (freeIn (Function.update live (blockAddr q d idx) none) q d).card := by
    rw [offNodes _ (offNodes_header descsHigh (by decide) q), (inv.small q d isArena).cnt,
      freeIn_give inArena, Finset.card_insert_of_notMem notFree]
    omega
  refine ⟨_, rfl, by rw [Function.update_self, cntWord], ?_⟩
  refine inv.onArena isArena (HeapInv.onlyArena descsHigh inArena ?_) ?_ ?_ ?_ ?_ ?_ ?_
  · intro cell off notCnt _
    rw [Function.update_of_ne notCnt, offNodes cell off]
  · refine lists.congr fun e inE x mem => ?_
    have isNode := isNode_of_mem inE (lists.block e inE) mem
    have off : OffNodes start.kBlockDescs (heapAddr q + 4) := offNodes_header descsHigh (by decide) q
    have notCnt := off x isNode
    exact ⟨Function.update_of_ne notCnt.1.symm _ _, Function.update_of_ne notCnt.2.symm _ _⟩
  · rw [Function.update_self, cntWord]
  · exact fun r e ne => freeIn_update_other _ inArena ne
  · exact fun r n isOther => large_update_other _ isArena inArena isOther
  · intro e inE x
    by_cases same : e = d
    · subst same
      rw [Function.update_self, List.mem_append, inv.freeIff e inE x, List.mem_singleton]
      constructor
      · rintro (⟨r, j, isOther, inJ, eq, xFree⟩ | rfl)
        · have ne : x ≠ blockAddr q e idx := by
            rintro rfl
            exact isLive xFree
          exact ⟨r, j, isOther, inJ, eq, by simpa [ne] using xFree⟩
        · exact ⟨q, idx, isArena, inArena, rfl, by simp⟩
      · rintro ⟨r, j, isOther, inJ, eq, xFree⟩
        by_cases isB : x = blockAddr q e idx
        · exact .inr isB
        · exact .inl ⟨r, j, isOther, inJ, eq, by simpa [isB] using xFree⟩
    · rw [Function.update_of_ne same]
      exact inv.freeIff_other _ isArena inArena inE same x
  · intro p pSize pLive
    by_cases isB : p = blockAddr q d idx
    · subst isB
      simp at pLive
    · exact .inl (by simpa [isB] using pLive)

/-! ### New arenas and dissolved ones -/

theorem HeapInv.pages_pos (inv : HeapInv start s live arena free) {q : Nat} {k : Arena}
    (isArena : arena q = some k) : 0 < k.pages := by
  cases k with
  | small d => exact Nat.one_pos
  | large cnt => exact (inv.large q cnt isArena).1.positive

theorem HeapInv.firstPage (inv : HeapInv start s live arena free) {q : Nat} {k : Arena}
    (isArena : arena q = some k) : q ∈ usedPages arena :=
  ⟨q, k, isArena, le_refl _, by have := inv.pages_pos isArena; omega⟩

/-- A live allocation starts on the first page of its arena. -/
theorem HeapInv.live_arena (inv : HeapInv start s live arena free) {p : Nat}
    (isLive : live p ≠ none) : ∃ q k, arena q = some k ∧ block2arena p = heapAddr q := by
  obtain ⟨size, eq⟩ := Option.ne_none_iff_exists'.mp isLive
  rcases inv.liveIn p size eq with ⟨q, d, idx, isArena, inArena, rfl, _⟩ | ⟨q, cnt, isArena, rfl, _⟩
  · exact ⟨q, _, isArena, block2arena_blockAddr inArena q⟩
  · exact ⟨q, _, isArena, block2arena_first q⟩

theorem usedPages_add {q : Nat} {k : Arena} (absent : arena q = none) :
    usedPages (Function.update arena q (some k)) =
      usedPages arena ∪ Set.Ico q (q + k.pages) := by
  ext page
  constructor
  · rintro ⟨r, l, isArena, mem⟩
    by_cases same : r = q
    · subst same
      simp only [Function.update_self, Option.some.injEq] at isArena
      subst isArena
      exact .inr mem
    · exact .inl ⟨r, l, by simpa [same] using isArena, mem⟩
  · rintro (⟨r, l, isArena, mem⟩ | mem)
    · have same : r ≠ q := by
        rintro rfl
        rw [absent] at isArena
        cases isArena
      exact ⟨r, l, by simpa [same] using isArena, mem⟩
    · exact ⟨q, k, by simp, mem⟩

theorem HeapInv.usedPages_remove (inv : HeapInv start s live arena free) {q : Nat} {k : Arena}
    (isArena : arena q = some k) :
    usedPages (Function.update arena q none) = usedPages arena \ Set.Ico q (q + k.pages) := by
  ext page
  constructor
  · rintro ⟨r, l, isOther, mem⟩
    have same : r ≠ q := by
      rintro rfl
      simp at isOther
    rw [Function.update_of_ne same] at isOther
    exact ⟨⟨r, l, isOther, mem⟩, fun inQ => same (inv.sameArena isOther isArena mem inQ)⟩
  · rintro ⟨⟨r, l, isOther, mem⟩, notInQ⟩
    have same : r ≠ q := by
      rintro rfl
      rw [isArena] at isOther
      cases isOther
      exact notInQ mem
    exact ⟨r, l, by simpa [same] using isOther, mem⟩

/-- The pages of a new arena lie apart from those of the others. -/
theorem HeapInv.apart_add (inv : HeapInv start s live arena free) {q r r' : Nat} {k l l' : Arena}
    (positive : 0 < k.pages) (fresh : ∀ page ∈ Set.Ico q (q + k.pages), page ∉ usedPages arena)
    (isArena : Function.update arena q (some k) r = some l)
    (isArena' : Function.update arena q (some k) r' = some l') (lt : r < r') : r + l.pages ≤ r' := by
  by_cases same : r = q
  · subst same
    have ne : r' ≠ r := by omega
    simp only [Function.update_self, Option.some.injEq] at isArena
    subst isArena
    rw [Function.update_of_ne ne] at isArena'
    by_contra tooLow
    exact fresh r' ⟨by omega, by omega⟩ (inv.firstPage isArena')
  · rw [Function.update_of_ne same] at isArena
    by_cases same' : r' = q
    · subst same'
      by_contra tooHigh
      exact fresh r' ⟨le_refl _, by omega⟩ ⟨r, l, isArena, by omega, by omega⟩
    · rw [Function.update_of_ne same'] at isArena'
      exact inv.apart r l r' l' isArena isArena' lt

/-- The invariant after `malloc_page` has provided the pages of a new arena and
its header and blocks have been set up. -/
theorem HeapInv.addArena (inv : HeapInv start s live arena free) {q : Nat} {k : Arena}
    {t : MemState} {live' : Nat → Option Nat} {free' : Nat → List Nat} (positive : 0 < k.pages)
    (fresh : ∀ page ∈ Set.Ico q (q + k.pages), page ∉ usedPages arena)
    (pages : PageInv start t (usedPages arena ∪ Set.Ico q (q + k.pages)))
    (only : OnlyArena start s arena q t.word)
    (lists : FreeLists start.kBlockDescs t.word free')
    (newSmall : ∀ d, k = .small d → SmallHeader start.kBlockDescs t.word live' q d)
    (newLarge : ∀ cnt, k = .large cnt →
      LargeHeader t.word q cnt ∧ live' (heapAddr q + arenaSize) ≠ none)
    (newFree : ∀ e < descCnt, ∀ b, b ∈ free' e ↔ b ∈ free e ∨
      ∃ idx, k = .small e ∧ idx < blocksPerArena e ∧ b = blockAddr q e idx)
    (newLive : ∀ p, live' p = live p ∨ (p = heapAddr q + arenaSize ∧
      ∃ cnt size, k = .large cnt ∧ live' p = some size ∧ size + arenaSize ≤ cnt * pgSize)) :
    HeapInv start t live' (Function.update arena q (some k)) free' := by
  have absent : arena q = none := by
    by_contra present
    obtain ⟨l, isArena⟩ := Option.ne_none_iff_exists'.mp present
    exact fresh q ⟨le_refl _, by omega⟩ (inv.firstPage isArena)
  have notQ : ∀ r l, arena r = some l → r ≠ q := by
    rintro r l isArena rfl
    rw [absent] at isArena
    cases isArena
  -- nothing was live on the new pages
  have deadOn : ∀ p, block2arena p = heapAddr q → live p = none := by
    intro p onQ
    by_contra isLive
    obtain ⟨r, l, isArena, onR⟩ := inv.live_arena isLive
    exact notQ r l isArena (heapAddr_inj (onR.symm.trans onQ))
  have liveOff : ∀ p, block2arena p ≠ heapAddr q → live' p = live p := by
    intro p offQ
    rcases newLive p with same | ⟨rfl, _⟩
    · exact same
    · exact absurd (block2arena_first q) offQ
  have blockLive : ∀ r e j, r ≠ q → j < blocksPerArena e →
      live' (blockAddr r e j) = live (blockAddr r e j) := by
    intro r e j ne inJ
    refine liveOff _ ?_
    rw [block2arena_blockAddr inJ]
    exact fun eq => ne (heapAddr_inj eq)
  constructor
  case pages =>
    rw [usedPages_add absent]
    exact pages
  case apart => exact fun r l r' l' isArena isArena' lt => inv.apart_add positive fresh isArena isArena' lt
  case lists => exact lists
  case sizes => exact fun _ inE => inv.sizes_kept only inE
  case small =>
    intro r e isArena
    by_cases same : r = q
    · subst same
      simp only [Function.update_self, Option.some.injEq] at isArena
      exact newSmall e isArena
    · rw [Function.update_of_ne same] at isArena
      exact inv.smallHeader_kept only isArena
        (inv.cnt_kept only isArena same (freeIn_congr fun j inJ => blockLive r e j same inJ))
  case large =>
    intro r n isArena
    by_cases same : r = q
    · subst same
      simp only [Function.update_self, Option.some.injEq] at isArena
      exact newLarge n isArena
    · rw [Function.update_of_ne same] at isArena
      refine ⟨inv.largeHeader_kept only isArena same, ?_⟩
      rw [liveOff]
      · exact (inv.large r n isArena).2
      · rw [block2arena_first]
        exact fun eq => same (heapAddr_inj eq)
  case freeIff =>
    intro e inE b
    rw [newFree e inE b, inv.freeIff e inE b]
    constructor
    · rintro (⟨r, j, isArena, inJ, rfl, isFree⟩ | ⟨j, isSmall, inJ, rfl⟩)
      · have ne := notQ r _ isArena
        exact ⟨r, j, by simpa [ne] using isArena, inJ, rfl, by rw [blockLive r e j ne inJ, isFree]⟩
      · refine ⟨q, j, by simp [isSmall], inJ, rfl, ?_⟩
        rcases newLive (blockAddr q e j) with same | ⟨_, cnt, _, isLarge, _⟩
        · rw [same]
          exact deadOn _ (block2arena_blockAddr inJ q)
        · rw [isLarge] at isSmall
          cases isSmall
    · rintro ⟨r, j, isArena, inJ, rfl, isFree⟩
      by_cases same : r = q
      · subst same
        simp only [Function.update_self, Option.some.injEq] at isArena
        exact .inr ⟨j, isArena, inJ, rfl⟩
      · rw [Function.update_of_ne same] at isArena
        rw [blockLive r e j same inJ] at isFree
        exact .inl ⟨r, j, isArena, inJ, rfl, isFree⟩
  case liveIn =>
    intro p size isLive
    rcases newLive p with same | ⟨rfl, cnt, newSize, isLarge, eq, fits⟩
    · rw [same] at isLive
      rcases inv.liveIn p size isLive with ⟨r, e, j, isArena, rest⟩ | ⟨r, n, isArena, rest⟩
      · have ne := notQ r _ isArena
        exact .inl ⟨r, e, j, by simpa [ne] using isArena, rest⟩
      · have ne := notQ r _ isArena
        exact .inr ⟨r, n, by simpa [ne] using isArena, rest⟩
    · rw [eq] at isLive
      cases isLive
      exact .inr ⟨q, cnt, by simp [isLarge], rfl, fits⟩

/-- The invariant after `mfree_page` has taken back the pages of an arena with
no live allocation. -/
theorem HeapInv.removeArena (inv : HeapInv start s live arena free) {q : Nat} {k : Arena}
    {t : MemState} {live' : Nat → Option Nat} {free' : Nat → List Nat}
    (isArena : arena q = some k)
    (pages : PageInv start t (usedPages arena \ Set.Ico q (q + k.pages)))
    (only : OnlyArena start s arena q t.word)
    (lists : FreeLists start.kBlockDescs t.word free')
    (newFree : ∀ e < descCnt, ∀ b, b ∈ free' e ↔ b ∈ free e ∧
      ¬ ∃ idx, k = .small e ∧ idx < blocksPerArena e ∧ b = blockAddr q e idx)
    (newLive : ∀ p, live' p = if block2arena p = heapAddr q then none else live p) :
    HeapInv start t live' (Function.update arena q none) free' := by
  have blockLive : ∀ r e j, r ≠ q → j < blocksPerArena e →
      live' (blockAddr r e j) = live (blockAddr r e j) := by
    intro r e j ne inJ
    rw [newLive, if_neg]
    rw [block2arena_blockAddr inJ]
    exact fun eq => ne (heapAddr_inj eq)
  have notQ : ∀ r l, Function.update arena q none r = some l → r ≠ q ∧ arena r = some l := by
    intro r l isOther
    have ne : r ≠ q := by
      rintro rfl
      simp at isOther
    exact ⟨ne, by simpa [ne] using isOther⟩
  constructor
  case pages =>
    rw [inv.usedPages_remove isArena]
    exact pages
  case apart =>
    intro r l r' l' isOther isOther' lt
    exact inv.apart r l r' l' (notQ r l isOther).2 (notQ r' l' isOther').2 lt
  case lists => exact lists
  case sizes => exact fun _ inE => inv.sizes_kept only inE
  case small =>
    intro r e isOther
    obtain ⟨ne, isOld⟩ := notQ r _ isOther
    exact inv.smallHeader_kept only isOld
      (inv.cnt_kept only isOld ne (freeIn_congr fun j inJ => blockLive r e j ne inJ))
  case large =>
    intro r n isOther
    obtain ⟨ne, isOld⟩ := notQ r _ isOther
    refine ⟨inv.largeHeader_kept only isOld ne, ?_⟩
    rw [newLive, if_neg]
    · exact (inv.large r n isOld).2
    · rw [block2arena_first]
      exact fun eq => ne (heapAddr_inj eq)
  case freeIff =>
    intro e inE b
    rw [newFree e inE b, inv.freeIff e inE b]
    constructor
    · rintro ⟨⟨r, j, isOther, inJ, rfl, isFree⟩, notOnQ⟩
      have ne : r ≠ q := by
        rintro rfl
        rw [isArena] at isOther
        cases isOther
        exact notOnQ ⟨j, rfl, inJ, rfl⟩
      exact ⟨r, j, by simpa [ne] using isOther, inJ, rfl, by rw [blockLive r e j ne inJ, isFree]⟩
    · rintro ⟨r, j, isOther, inJ, rfl, isFree⟩
      obtain ⟨ne, isOld⟩ := notQ r _ isOther
      rw [blockLive r e j ne inJ] at isFree
      refine ⟨⟨r, j, isOld, inJ, rfl, isFree⟩, ?_⟩
      rintro ⟨j', _, inJ', same⟩
      exact ne (blockAddr_inj inJ inJ' same)
  case liveIn =>
    intro p size isLive
    rw [newLive] at isLive
    split at isLive
    · cases isLive
    · rename_i offQ
      rcases inv.liveIn p size isLive with ⟨r, e, j, isOld, inJ, rfl, fits⟩ | ⟨r, n, isOld, rfl, fits⟩
      · rw [block2arena_blockAddr inJ] at offQ
        have ne : r ≠ q := by
          rintro rfl
          exact offQ rfl
        exact .inl ⟨r, e, j, by simpa [ne] using isOld, inJ, rfl, fits⟩
      · rw [block2arena_first] at offQ
        have ne : r ≠ q := by
          rintro rfl
          exact offQ rfl
        exact .inr ⟨r, n, by simpa [ne] using isOld, rfl, fits⟩

end

end ZyOs.Memory
