import ZyOs.Memory.HeapAccesses
import ZyOs.Memory.HeapRun

/-!
Contract: the pages that `sys_malloc` and `sys_free` touch.

Every access of the programs of `Memory.HeapAccesses` goes to the descriptors or to a page of an
arena, in every state that the heap invariant describes: a list word is followed only to a
sentinel or to a free block.

Owns:
- the footprint of each list operation on a free list;
- the footprint of each program on a heap.
-/

namespace ZyOs.Memory.Accesses

open ZyOs.Lib ZyOs.Kernel

/-- Both words of a list node lie on the pages. -/
structure NodeOn (pages : Set Nat) (x : Nat) : Prop where
  prev : x / pgSize ∈ pages
  next : (x + 4) / pgSize ∈ pages

section

variable {pages : Set Nat} {m : Words} {plist elem : Nat} {elems : List Nat}

/-! ### One list -/

theorem within_elemFindFrom {objElem : Nat} (linked : Linked m (elems ++ [tailOf plist]))
    (nodes : ∀ x ∈ elems, NodeOn pages x) (steps : Nat) :
    (elemFindFrom plist objElem steps (elems.headD (tailOf plist))).Within pgSize pages m := by
  induction elems generalizing steps with
  | nil =>
      cases steps with
      | zero => trivial
      | succ steps =>
          unfold elemFindFrom
          rw [List.headD_nil, if_pos rfl]
          trivial
  | cons first rest inductionHypothesis =>
      cases steps with
      | zero => trivial
      | succ steps =>
          unfold elemFindFrom
          split_ifs
          · trivial
          · trivial
          · rw [Prog.load_bind, Prog.within_read, List.headD_cons, Linked.next_eq linked]
            refine ⟨(nodes first (List.mem_cons_self ..)).next, ?_⟩
            exact inductionHypothesis linked.tail (fun x mem => nodes x (List.mem_cons_of_mem _ mem)) steps

theorem within_elemFind (isList : IsList m plist elems) (nodes : ∀ x ∈ nodesOf plist elems, NodeOn pages x)
    (objElem : Nat) : (elemFind plist objElem).Within pgSize pages m := by
  unfold elemFind
  rw [Prog.load_bind, Prog.within_read, isList.first]
  refine ⟨(nodes plist (List.mem_cons_self ..)).next, ?_⟩
  refine within_elemFindFrom isList.tail (fun x mem => nodes x ?_) _
  exact List.mem_cons_of_mem _ (List.mem_append_left _ mem)

/-- The node before the tail. -/
theorem prev_tail (isList : IsList m plist elems) :
    ∃ x ∈ nodesOf plist elems, m (tailOf plist) = x := by
  obtain ⟨left, x, split⟩ : ∃ left x, plist :: elems = left ++ [x] :=
    ⟨_, _, (List.dropLast_append_getLast (List.cons_ne_nil plist elems)).symm⟩
  have nodes : nodesOf plist elems = left ++ x :: tailOf plist :: [] := by
    have eq := congrArg (· ++ [tailOf plist]) split
    simpa [nodesOf] using eq
  have linked : Linked m (left ++ x :: tailOf plist :: []) := by
    rw [← nodes]
    exact isList
  refine ⟨x, by simp [nodes], ?_⟩
  exact (linked_append_cons.mp linked).2.1.2

theorem within_listAppend (isList : IsList m plist elems)
    (nodes : ∀ x ∈ nodesOf plist elems, NodeOn pages x) (isElem : NodeOn pages elem) :
    (listAppend plist elem).Within pgSize pages m := by
  obtain ⟨x, mem, prev⟩ := prev_tail isList
  have tail := nodes (tailOf plist) (List.mem_append_right _ (List.mem_singleton_self _))
  simp only [listAppend, listInsertBefore, Prog.load_bind, Prog.store_bind, Prog.within_read,
    Prog.within_write, Prog.within_store, prev]
  exact ⟨tail.prev, (nodes x mem).next, tail.prev, isElem.prev, isElem.next, tail.prev⟩

/-- The nodes around an element. -/
theorem neighbours (isList : IsList m plist elems) (mem : elem ∈ elems) :
    ∃ x ∈ nodesOf plist elems, ∃ y ∈ nodesOf plist elems, m elem = x ∧ m (elem + 4) = y := by
  obtain ⟨before, after, rfl⟩ := List.append_of_mem mem
  obtain ⟨left, x, splitLeft⟩ : ∃ left x, plist :: before = left ++ [x] :=
    ⟨_, _, (List.dropLast_append_getLast (List.cons_ne_nil plist before)).symm⟩
  obtain ⟨y, right, splitRight⟩ : ∃ y right, after ++ [tailOf plist] = y :: right := by
    cases after with
    | nil => exact ⟨_, _, rfl⟩
    | cons y right => exact ⟨_, _, rfl⟩
  have nodes : nodesOf plist (before ++ elem :: after) = left ++ x :: elem :: y :: right := by
    have eq := congrArg (· ++ (elem :: y :: right)) splitLeft
    simpa [nodesOf, splitRight] using eq
  have linked : Linked m (left ++ x :: elem :: y :: right) := by
    rw [← nodes]
    exact isList
  obtain ⟨_, ⟨_, prev⟩, rest⟩ := linked_append_cons.mp linked
  exact ⟨x, by simp [nodes], y, by simp [nodes], prev, (List.isChain_cons_cons.mp rest).1.1⟩

theorem within_listRemove (isList : IsList m plist elems)
    (nodes : ∀ x ∈ nodesOf plist elems, NodeOn pages x) (mem : elem ∈ elems) :
    (listRemove elem).Within pgSize pages m := by
  obtain ⟨x, memX, y, memY, prev, next⟩ := neighbours isList mem
  have isElem := nodes elem (List.mem_append_left _ (List.mem_cons_of_mem _ mem))
  -- the word that is written may be the one that is read again: it holds `y` either way
  have again : Function.update m (x + 4) y (elem + 4) = y := by
    rw [Function.update_apply]
    split_ifs
    · rfl
    · exact next
  simp only [listRemove, Prog.load_bind, Prog.store_bind, Prog.within_read, Prog.within_write,
    Prog.within_store, prev, next, again]
  exact ⟨isElem.prev, isElem.next, (nodes x memX).next, isElem.next, isElem.prev, (nodes y memY).prev⟩

end

/-! ### The free lists -/

/-- The descriptors lie on the pages. -/
def DescsOn (descs : Nat) (pages : Set Nat) : Prop :=
  ∀ cell, descs ≤ cell → cell < descs + 24 * descCnt → cell / pgSize ∈ pages

section

variable {descs d q k left : Nat} {pages : Set Nat} {m : Words} {free : Nat → List Nat}

theorem DescsOn.desc (descsOn : DescsOn descs pages) (inDescs : d < descCnt) {offset : Nat}
    (small : offset < 24) : (descAddr descs d + offset) / pgSize ∈ pages := by
  simp only [descCnt] at inDescs
  refine descsOn _ ?_ ?_
  · unfold descAddr
    omega
  · simp only [descAddr, descCnt]
    omega

/-- A block ends on the page on which it starts. -/
theorem nodeOn_of_block {b : Nat} (isBlock : IsBlock b) (mem : b / pgSize ∈ pages) : NodeOn pages b := by
  refine ⟨mem, ?_⟩
  have inPage := isBlock.inPage
  have same : (b + 4) / pgSize = b / pgSize := by
    simp only [pgSize] at inPage ⊢
    omega
  rw [same]
  exact mem

theorem page_of_blockAddr {idx : Nat} (inArena : idx < blocksPerArena d) :
    blockAddr q d idx / pgSize = heapAddr q / pgSize := by
  obtain ⟨low, high, _, _⟩ := blockAddr_bounds inArena q
  simp only [heapAddr, kHeapStart, pgSize] at low high ⊢
  omega

/-- The free blocks lie on the pages. -/
def BlocksOn (free : Nat → List Nat) (pages : Set Nat) : Prop :=
  ∀ d < descCnt, ∀ b ∈ free d, b / pgSize ∈ pages

theorem BlocksOn.update (blocksOn : BlocksOn free pages) {elems : List Nat}
    (elemsOn : ∀ b ∈ elems, b / pgSize ∈ pages) : BlocksOn (Function.update free d elems) pages := by
  intro e inE b mem
  by_cases same : e = d
  · rw [same, Function.update_self] at mem
    exact elemsOn b mem
  · rw [Function.update_of_ne same] at mem
    exact blocksOn e inE b mem

theorem nodesOn (lists : FreeLists descs m free) (descsOn : DescsOn descs pages)
    (blocksOn : BlocksOn free pages) (inDescs : d < descCnt) :
    ∀ x ∈ nodesOf (freeListOf (descAddr descs d)) (free d), NodeOn pages x := by
  intro x mem
  simp only [nodesOf, List.cons_append, List.mem_cons, List.mem_append, List.not_mem_nil,
    or_false] at mem
  rcases mem with rfl | inside | rfl
  · exact ⟨descsOn.desc inDescs (by decide), descsOn.desc inDescs (by decide : 8 + 4 < 24)⟩
  · exact nodeOn_of_block (lists.block d inDescs x inside) (blocksOn d inDescs x inside)
  · exact ⟨descsOn.desc inDescs (by decide : 8 + 8 < 24), descsOn.desc inDescs (by decide : 8 + 8 + 4 < 24)⟩

theorem within_arena2block (descsOn : DescsOn descs pages) (inDescs : d < descCnt)
    (headerOn : heapAddr q / pgSize ∈ pages) (desc : m (heapAddr q) = descAddr descs d) (idx : Nat) :
    (arena2block (heapAddr q) idx).Within pgSize pages m := by
  simp only [arena2block, Prog.load_bind, Prog.within_read, Prog.within_pure, desc, and_true]
  exact ⟨headerOn, descsOn.desc inDescs (by decide : 0 < 24)⟩

/-- The blocks of an arena go on the free list, or off it, one after the other. -/
theorem within_fillArena (below : descs + 24 * descCnt ≤ kHeapStart) (inDescs : d < descCnt)
    (descsOn : DescsOn descs pages) (headerOn : heapAddr q / pgSize ∈ pages) :
    ∀ {k : Nat} {m : Words} {free : Nat → List Nat}, FreeLists descs m free → BlocksOn free pages →
      m (heapAddr q) = descAddr descs d → m (descAddr descs d) = blockSize d →
      k + left ≤ blocksPerArena d →
      (∀ idx, k ≤ idx → idx < k + left → IsBlock (blockAddr q d idx) ∧
        ∀ e < descCnt, blockAddr q d idx ∉ free e) →
      (fillArena (heapAddr q) left k).Within pgSize pages m := by
  induction left with
  | zero => exact fun _ _ _ _ _ _ => trivial
  | succ left inductionHypothesis =>
      intro k m free lists blocksOn desc size inArena blocks
      obtain ⟨isBlock, fresh⟩ := blocks k (le_refl _) (by omega)
      obtain ⟨lists', offNodes⟩ := lists.append below inDescs isBlock fresh
      have onPage : blockAddr q d k / pgSize ∈ pages := by
        rw [page_of_blockAddr (by omega)]
        exact headerOn
      have offHeader : OffNodes descs (heapAddr q) := by
        simpa using offNodes_header below (by decide : 0 < arenaSize) q
      have offSize : OffNodes descs (descAddr descs d) := by
        simpa using offNodes_desc below inDescs (.inl rfl : 0 = 0 ∨ 0 = 4)
      have nodes := nodesOn lists descsOn blocksOn inDescs
      unfold fillArena
      refine (within_arena2block descsOn inDescs headerOn desc k).bind fun b m₁ isRun => ?_
      rw [run_arena2block, arena2block_eq desc size] at isRun
      cases isRun
      rw [Prog.load_bind, Prog.within_read, desc]
      refine ⟨headerOn, (within_elemFind (lists.isList d inDescs) nodes _).bind fun found m₁ isRun => ?_⟩
      rw [run_elemFind, lists.elemFind below inDescs, decide_eq_false (fresh d inDescs)] at isRun
      cases isRun
      dsimp only
      rw [Prog.load_bind, Prog.within_read, desc]
      refine ⟨headerOn, (within_listAppend (lists.isList d inDescs) nodes
        (nodeOn_of_block isBlock onPage)).bind fun _ m₁ isRun => ?_⟩
      rw [run_listAppend] at isRun
      cases isRun
      refine inductionHypothesis lists' (blocksOn.update fun b mem => ?_) (by rw [offNodes _ offHeader, desc])
        (by rw [offNodes _ offSize, size]) (by omega) fun idx low high => ?_
      · rcases List.mem_append.mp mem with old | new
        · exact blocksOn d inDescs b old
        · rw [List.mem_singleton.mp new]
          exact onPage
      · obtain ⟨isBlock', fresh'⟩ := blocks idx (by omega) (by omega)
        refine ⟨isBlock', fun e inE => ?_⟩
        by_cases same : e = d
        · subst same
          rw [Function.update_self, List.mem_append, List.mem_singleton, not_or]
          refine ⟨fresh' e inE, fun eq => ?_⟩
          have := blockAddr_inj_idx eq
          omega
        · rw [Function.update_of_ne same]
          exact fresh' e inE

theorem within_drainArena (below : descs + 24 * descCnt ≤ kHeapStart) (inDescs : d < descCnt)
    (descsOn : DescsOn descs pages) (headerOn : heapAddr q / pgSize ∈ pages) :
    ∀ {k : Nat} {m : Words} {free : Nat → List Nat}, FreeLists descs m free → BlocksOn free pages →
      m (heapAddr q) = descAddr descs d → m (descAddr descs d) = blockSize d →
      (∀ idx, k ≤ idx → idx < k + left → blockAddr q d idx ∈ free d) →
      (drainArena (heapAddr q) left k).Within pgSize pages m := by
  induction left with
  | zero => exact fun _ _ _ _ _ => trivial
  | succ left inductionHypothesis =>
      intro k m free lists blocksOn desc size blocks
      have mem := blocks k (le_refl _) (by omega)
      obtain ⟨lists', offNodes⟩ := lists.remove below inDescs mem
      have offHeader : OffNodes descs (heapAddr q) := by
        simpa using offNodes_header below (by decide : 0 < arenaSize) q
      have offSize : OffNodes descs (descAddr descs d) := by
        simpa using offNodes_desc below inDescs (.inl rfl : 0 = 0 ∨ 0 = 4)
      have nodes := nodesOn lists descsOn blocksOn inDescs
      unfold drainArena
      refine (within_arena2block descsOn inDescs headerOn desc k).bind fun b m₁ isRun => ?_
      rw [run_arena2block, arena2block_eq desc size] at isRun
      cases isRun
      rw [Prog.load_bind, Prog.within_read, desc]
      refine ⟨headerOn, (within_elemFind (lists.isList d inDescs) nodes _).bind fun found m₁ isRun => ?_⟩
      rw [run_elemFind, lists.elemFind below inDescs, decide_eq_true mem] at isRun
      cases isRun
      refine (within_listRemove (lists.isList d inDescs) nodes mem).bind fun _ m₁ isRun => ?_
      rw [run_listRemove] at isRun
      cases isRun
      refine inductionHypothesis lists' (blocksOn.update fun b memB => ?_) (by rw [offNodes _ offHeader, desc])
        (by rw [offNodes _ offSize, size]) fun idx low high => ?_
      · exact blocksOn d inDescs b (List.mem_of_mem_erase memB)
      · rw [Function.update_self, (lists.nodup d inDescs).mem_erase_iff]
        refine ⟨fun eq => ?_, blocks idx (by omega) (by omega)⟩
        have := blockAddr_inj_idx eq
        omega

end

/-! ### The programs on a heap -/

/-- The pages of the arenas lie among the pages. -/
def ArenasOn (arena : Nat → Option Arena) (pages : Set Nat) : Prop :=
  ∀ page ∈ usedPages arena, 0xc0100 + page ∈ pages

theorem div_heapAddr {page offset : Nat} (small : offset < 4096) :
    (heapAddr page + offset) / pgSize = 0xc0100 + page := by
  simp only [heapAddr, kHeapStart, pgSize]
  omega

section

variable {start s : MemState} {live : Nat → Option Nat} {arena : Nat → Option Arena}
  {free : Nat → List Nat} {pages : Set Nat} {q d n : Nat} {m : Words}

theorem within_findDesc {descs : Nat} (descsOn : DescsOn descs pages) (size : Nat) :
    (findDesc descs size).Within pgSize pages m := by
  have from_ : ∀ left idx, idx + left = descCnt → (findDescFrom descs size left idx).Within pgSize pages m := by
    intro left
    induction left with
    | zero => exact fun _ _ => trivial
    | succ left inductionHypothesis =>
        intro idx total
        unfold findDescFrom
        rw [Prog.load_bind, Prog.within_read]
        refine ⟨descsOn.desc (by omega) (by decide : 0 < 24), ?_⟩
        split
        · trivial
        · exact inductionHypothesis (idx + 1) (by omega)
  exact from_ descCnt 0 (Nat.zero_add _)

theorem within_blockDescInit {descs : Nat} (descsOn : DescsOn descs pages) :
    (blockDescInit descs).Within pgSize pages m := by
  have from_ : ∀ left idx blockSize m, idx + left = descCnt →
      (blockDescInitFrom descs left idx blockSize).Within pgSize pages m := by
    intro left
    induction left with
    | zero => exact fun _ _ _ _ => trivial
    | succ left inductionHypothesis =>
        intro idx blockSize m total
        have on {offset : Nat} (small : offset < 24) := descsOn.desc (d := idx) (by omega) small
        unfold blockDescInitFrom listInit
        rw [Prog.store_bind, Prog.within_write, Prog.store_bind, Prog.within_write]
        refine ⟨on (by decide : 0 < 24), on (by decide : 4 < 24), Prog.Within.bind ?_ fun _ _ _ => ?_⟩
        · simp only [Prog.store_bind, Prog.within_write, Prog.within_store]
          exact ⟨on (by decide : 8 < 24), on (by decide : 8 + 4 < 24), on (by decide : 8 + 8 < 24),
            on (by decide : 8 + 8 + 4 < 24)⟩
        · exact inductionHypothesis (idx + 1) (blockSize * 2) _ (by omega)
  exact from_ descCnt 0 16 m (Nat.zero_add _)

theorem within_listEmpty {descs : Nat} (descsOn : DescsOn descs pages) (inDescs : d < descCnt) :
    (listEmpty (freeListOf (descAddr descs d))).Within pgSize pages m :=
  ⟨descsOn.desc inDescs (by decide : 8 + 4 < 24), trivial⟩

theorem ArenasOn.header (arenasOn : ArenasOn arena pages) (inv : HeapInv start s live arena free) {k : Arena}
    (isArena : arena q = some k) {offset : Nat} (small : offset < 4096) :
    (heapAddr q + offset) / pgSize ∈ pages := by
  rw [div_heapAddr small]
  exact arenasOn q (inv.firstPage isArena)

/-- Free blocks lie in arenas. -/
theorem ArenasOn.blocks (arenasOn : ArenasOn arena pages) (inv : HeapInv start s live arena free) :
    BlocksOn free pages := by
  intro d inDescs b mem
  obtain ⟨r, idx, isArena, inArena, rfl, _⟩ := (inv.freeIff d inDescs b).mp mem
  rw [page_of_blockAddr inArena]
  exact arenasOn.header inv isArena (by decide : 0 < 4096)

theorem within_memset {dst size : Nat} (inside : ∀ cell, dst ≤ cell → cell < dst + size → cell / pgSize ∈ pages) :
    (memset dst size).Within pgSize pages m :=
  Prog.within_zero (by decide) inside

/-- A new arena is set up on its page and in the free list of its descriptor. -/
theorem within_initArena (inv : HeapInv start s live arena free) (layout : HeapLayout start)
    (descsOn : DescsOn start.kBlockDescs pages) (arenasOn : ArenasOn arena pages) (inDescs : d < descCnt)
    (fresh : ∀ page ∈ Set.Ico q (q + 1), page ∉ usedPages arena) (pageOn : 0xc0100 + q ∈ pages)
    (below : heapAddr q + 4096 ≤ 0xffc00000) :
    (initArena (heapAddr q) (descAddr start.kBlockDescs d)).Within pgSize pages s.word := by
  obtain ⟨perRead, header⟩ := inv.newHeader layout inDescs fresh
  have onPage : ∀ {offset}, offset < 4096 → (heapAddr q + offset) / pgSize ∈ pages := by
    intro offset small
    rw [div_heapAddr small]
    exact pageOn
  have headerOn : heapAddr q / pgSize ∈ pages := onPage (by decide : 0 < 4096)
  have perOn := descsOn.desc inDescs (by decide : 4 < 24)
  unfold initArena
  refine (within_memset fun cell low high => ?_).bind fun _ m₁ isRun => ?_
  · obtain ⟨offset, rfl⟩ := Nat.exists_eq_add_of_le low
    simp only [pgSize] at high
    exact onPage (by omega)
  · rw [run_memset] at isRun
    cases isRun
    simp only [Prog.store_bind, Prog.load_bind, Prog.within_write, Prog.within_read, perRead, header.per]
    refine ⟨headerOn, onPage (by decide), perOn, onPage (by decide), perOn, ?_⟩
    exact within_fillArena layout.descsHigh inDescs descsOn headerOn header.lists (arenasOn.blocks inv)
      header.desc header.size (by omega) fun idx _ lt => inv.newBlocks below fresh idx (by omega)

/-- Taking a block touches its list, its page and its descriptor. -/
theorem within_takeBlock (inv : HeapInv start s live arena free) (layout : HeapLayout start)
    (descsOn : DescsOn start.kBlockDescs pages) (arenasOn : ArenasOn arena pages) (inDescs : d < descCnt)
    (nonempty : free d ≠ []) :
    (takeBlock (descAddr start.kBlockDescs d)).Within pgSize pages s.word := by
  obtain ⟨b, rest, split⟩ := List.exists_cons_of_ne_nil nonempty
  have memB : b ∈ free d := by simp [split]
  obtain ⟨q, idx, isArena, inArena, rfl, _⟩ := (inv.freeIff d inDescs b).mp memB
  have first : s.word (freeListOf (descAddr start.kBlockDescs d) + 4) = blockAddr q d idx := by
    rw [(inv.lists.isList d inDescs).first, split]
    rfl
  have nodes := nodesOn inv.lists descsOn (arenasOn.blocks inv) inDescs
  obtain ⟨_, offNodes⟩ := inv.lists.remove layout.descsHigh inDescs memB
  have sizeWord : Kernel.listRemove s.word (blockAddr q d idx) (descAddr start.kBlockDescs d) = blockSize d := by
    rw [← (inv.sizes d inDescs).1]
    exact offNodes _ (offNodes_desc layout.descsHigh inDescs (.inl rfl))
  obtain ⟨lowB, highB, _, _⟩ := blockAddr_bounds inArena q
  have popWithin : (listPop (freeListOf (descAddr start.kBlockDescs d))).Within pgSize pages s.word := by
    unfold listPop
    rw [Prog.load_bind, Prog.within_read, first]
    refine ⟨descsOn.desc inDescs (by decide : 8 + 4 < 24), ?_⟩
    exact (within_listRemove (inv.lists.isList d inDescs) nodes memB).bind fun _ _ _ => trivial
  unfold takeBlock
  refine popWithin.bind fun b m₁ isRun => ?_
  rw [run_listPop] at isRun
  simp only [Kernel.listPop, first] at isRun
  cases isRun
  rw [Prog.load_bind, Prog.within_read, sizeWord]
  refine ⟨descsOn.desc inDescs (by decide : 0 < 24), (within_memset fun cell low high => ?_).bind fun _ m₁ _ => ?_⟩
  · obtain ⟨offset, rfl⟩ := Nat.exists_eq_add_of_le (show heapAddr q ≤ cell by omega)
    exact arenasOn.header inv isArena (by omega)
  · have cntOn := arenasOn.header inv isArena (by decide : 4 < 4096)
    rw [block2arena_blockAddr inArena]
    simp only [Prog.load_bind, Prog.store_bind, Prog.within_read, Prog.within_write, Prog.within_pure, and_true]
    exact ⟨cntOn, cntOn⟩

theorem within_largeArena (positive : 0 < n) (pagesOn : ∀ page ∈ Set.Ico q (q + n), 0xc0100 + page ∈ pages) :
    (largeArena (heapAddr q) n).Within pgSize pages m := by
  have inside : ∀ cell, heapAddr q ≤ cell → cell < heapAddr q + n * pgSize → cell / pgSize ∈ pages := by
    intro cell low high
    have isPage : cell / pgSize = 0xc0100 + (cell / pgSize - 0xc0100) := by
      simp only [heapAddr, kHeapStart, pgSize] at low ⊢
      omega
    rw [isPage]
    refine pagesOn _ ⟨?_, ?_⟩ <;>
    · simp only [heapAddr, kHeapStart, pgSize] at low high ⊢
      omega
  have atLeast : 1 * pgSize ≤ n * pgSize := Nat.mul_le_mul_right _ positive
  simp only [pgSize] at atLeast
  unfold largeArena
  refine (within_memset inside).bind fun _ m₁ _ => ?_
  simp only [Prog.store_bind, Prog.within_write, Prog.within_store]
  refine ⟨inside _ (by omega) ?_, inside _ (by omega) ?_, inside _ (by omega) ?_⟩ <;>
  · simp only [pgSize]
    omega

/-- Giving a block back touches its list, its header and its descriptor, and the blocks of its
arena when the arena is dissolved. -/
theorem within_freeBlock (inv : HeapInv start s live arena free) (layout : HeapLayout start)
    (descsOn : DescsOn start.kBlockDescs pages) (arenasOn : ArenasOn arena pages) {idx : Nat}
    (isArena : arena q = some (.small d)) (inArena : idx < blocksPerArena d)
    (isLive : live (blockAddr q d idx) ≠ none) :
    (freeBlock (heapAddr q) (blockAddr q d idx)).Within pgSize pages s.word := by
  obtain ⟨inDescs, desc, _, _⟩ := inv.small q d isArena
  obtain ⟨m, mEq, cnt, after⟩ := inv.giveBlock layout isArena inArena isLive
  obtain ⟨_, descAfter, _, _⟩ := after.small q d isArena
  obtain ⟨size, per⟩ := after.sizes d inDescs
  simp only at descAfter size per
  have headerOn : ∀ {offset}, offset < 4096 → (heapAddr q + offset) / pgSize ∈ pages :=
    fun small => arenasOn.header inv isArena small
  have first : heapAddr q / pgSize ∈ pages := headerOn (by decide : 0 < 4096)
  have blockOn : NodeOn pages (blockAddr q d idx) := by
    refine nodeOn_of_block (inv.isBlock layout isArena inArena) ?_
    rw [page_of_blockAddr inArena]
    exact first
  have perOn := descsOn.desc inDescs (by decide : 4 < 24)
  unfold freeBlock
  rw [Prog.load_bind, Prog.within_read, desc]
  refine ⟨first, (within_listAppend (inv.lists.isList d inDescs)
    (nodesOn inv.lists descsOn (arenasOn.blocks inv) inDescs) blockOn).bind fun _ m₁ isRun => ?_⟩
  rw [run_listAppend] at isRun
  cases isRun
  simp only [Prog.load_bind, Prog.store_bind, Prog.within_read, Prog.within_write]
  rw [← mEq, descAfter, cnt, per]
  refine ⟨headerOn (by decide), headerOn (by decide), headerOn (by decide), first, perOn, ?_⟩
  by_cases full : (freeIn (Function.update live (blockAddr q d idx) none) q d).card = blocksPerArena d
  · rw [if_pos full, Prog.within_read, descAfter, Prog.within_read, per]
    refine ⟨first, perOn, Prog.Within.bind ?_ fun _ _ _ => trivial⟩
    refine within_drainArena layout.descsHigh inDescs descsOn first after.lists (arenasOn.blocks after)
      descAfter size fun j _ lt => (after.freeIff d inDescs _).mpr ⟨q, j, isArena, by omega, rfl, ?_⟩
    exact all_free_of_card full j (by omega)
  · rw [if_neg full]
    trivial

end

end ZyOs.Memory.Accesses
