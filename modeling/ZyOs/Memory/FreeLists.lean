import ZyOs.Kernel.ListHeap
import ZyOs.Memory.Heap

/-!
Contract: the seven free lists of the heap as they lie in memory.

A node of a free list is a sentinel inside a descriptor or a block inside an
arena. Blocks start 12 bytes after a multiple of 16 and end within their page,
so the words of different nodes never meet, and neither do they meet an arena
header or the sizes in a descriptor. `FreeLists` collects what holds of all
lists at once; every list operation is described by what it does to one list
and by the words it leaves alone.
-/

namespace ZyOs.Memory

open ZyOs.Lib ZyOs.Kernel

/-- An address at which a block of some arena can start. -/
structure IsBlock (b : Nat) : Prop where
  high : kHeapStart ≤ b
  below : b < 2 ^ 32
  aligned : b % 16 = 12
  inPage : b % pgSize ≤ 4080

/-- A node of a free list. -/
def IsNode (descs x : Nat) : Prop :=
  (∃ d < descCnt, x = freeListOf (descAddr descs d) ∨
    x = tailOf (freeListOf (descAddr descs d))) ∨ IsBlock x

/-- A word that no list operation writes. -/
def OffNodes (descs cell : Nat) : Prop :=
  ∀ x, IsNode descs x → cell ≠ x ∧ cell ≠ x + 4

/-- Two nodes share a word only when they are one. -/
theorem IsNode.words {descs x y : Nat} (below : descs + 24 * descCnt ≤ kHeapStart)
    (nodeX : IsNode descs x) (nodeY : IsNode descs y) : x + 4 ≠ y := by
  simp only [descCnt, kHeapStart] at below
  rcases nodeX with ⟨d, dLt, eqX⟩ | blockX <;> rcases nodeY with ⟨e, eLt, eqY⟩ | blockY
  · simp only [freeListOf, descAddr, tailOf] at eqX eqY
    omega
  · have high := blockY.high
    simp only [freeListOf, descAddr, tailOf, descCnt, kHeapStart] at eqX dLt high
    omega
  · have high := blockX.high
    simp only [freeListOf, descAddr, tailOf, descCnt, kHeapStart] at eqY eLt high
    omega
  · have alignedX := blockX.aligned
    have alignedY := blockY.aligned
    omega

theorem IsNode.inside {descs x : Nat} (below : descs + 24 * descCnt ≤ kHeapStart) (node : IsNode descs x) :
    x + 8 ≤ 2 ^ 32 := by
  simp only [descCnt, kHeapStart] at below
  rcases node with ⟨d, dLt, eqX⟩ | ⟨-, small, aligned, inPage⟩
  · simp only [freeListOf, descAddr, tailOf, descCnt] at eqX dLt
    omega
  · simp only [pgSize] at inPage
    omega

/-- A block is no sentinel. -/
theorem IsBlock.notSentinel {descs d b : Nat} (below : descs + 24 * descCnt ≤ kHeapStart) (inDescs : d < descCnt)
    (isBlock : IsBlock b) : b ≠ freeListOf (descAddr descs d) ∧ b ≠ tailOf (freeListOf (descAddr descs d)) := by
  have high := isBlock.high
  simp only [descCnt, kHeapStart] at below inDescs high
  simp only [freeListOf, descAddr, tailOf]
  omega

/-- The header of an arena is off the nodes. -/
theorem offNodes_header {descs offset : Nat} (below : descs + 24 * descCnt ≤ kHeapStart)
    (small : offset < arenaSize) (page : Nat) : OffNodes descs (heapAddr page + offset) := by
  simp only [descCnt, kHeapStart, arenaSize] at below small
  rintro x (⟨d, dLt, eqX⟩ | block)
  · simp only [freeListOf, descAddr, tailOf, descCnt, heapAddr, kHeapStart, pgSize] at *
    omega
  · obtain ⟨high, _, aligned, inPage⟩ := block
    simp only [heapAddr, kHeapStart, pgSize] at *
    omega

/-- The sizes in a descriptor are off the nodes. -/
theorem offNodes_desc {descs d offset : Nat} (below : descs + 24 * descCnt ≤ kHeapStart)
    (inDescs : d < descCnt) (isSize : offset = 0 ∨ offset = 4) :
    OffNodes descs (descAddr descs d + offset) := by
  simp only [descCnt, kHeapStart] at below inDescs
  rintro x (⟨e, eLt, eqX⟩ | block)
  · simp only [freeListOf, descAddr, tailOf, descCnt] at *
    omega
  · have high := block.high
    simp only [descAddr, kHeapStart] at *
    omega

/-- The free lists in memory; `free d` are the elements of list `d`. -/
structure FreeLists (descs : Nat) (m : Words) (free : Nat → List Nat) : Prop where
  isList : ∀ d < descCnt, IsList m (freeListOf (descAddr descs d)) (free d)
  nodup : ∀ d < descCnt, (free d).Nodup
  disjoint : ∀ d < descCnt, ∀ e < descCnt, ∀ b, b ∈ free d → b ∈ free e → d = e
  block : ∀ d < descCnt, ∀ b ∈ free d, IsBlock b

section

variable {descs : Nat} {m : Words} {free : Nat → List Nat}

theorem isNode_of_mem {d b : Nat} {elems : List Nat} (inDescs : d < descCnt)
    (block : ∀ x ∈ elems, IsBlock x) (mem : b ∈ nodesOf (freeListOf (descAddr descs d)) elems) :
    IsNode descs b := by
  simp only [nodesOf, List.cons_append, List.mem_cons, List.mem_append, List.not_mem_nil,
    or_false] at mem
  rcases mem with head | inside | tail
  · exact .inl ⟨d, inDescs, .inl head⟩
  · exact .inr (block b inside)
  · exact .inl ⟨d, inDescs, .inr tail⟩

/-- The heads of the free lists. -/
def headOf (descs : Nat) (d : Fin descCnt) : Nat := freeListOf (descAddr descs d)

/-- Lists of different blocks share no word. -/
theorem placed_of_blocks (below : descs + 24 * descCnt ≤ kHeapStart) {seq : Fin descCnt → List Nat}
    (block : ∀ d, ∀ b ∈ seq d, IsBlock b) (nodup : ∀ d, (seq d).Nodup)
    (disjoint : ∀ d e, d ≠ e → ∀ b ∈ seq d, b ∉ seq e) : Placed (headOf descs) seq := by
  have isNode (d : Fin descCnt) : ∀ x ∈ nodesOf (headOf descs d) (seq d), IsNode descs x :=
    fun _ mem => isNode_of_mem d.isLt (block d) mem
  have notSentinel (d e : Fin descCnt) : ∀ x ∈ seq d, x ≠ headOf descs e ∧ x ≠ tailOf (headOf descs e) :=
    fun x mem => (block d x mem).notSentinel below e.isLt
  refine ⟨fun d => ?_, fun d e ne x memD memE => ?_,
    fun d e x memX y memY => (isNode d x memX).words below (isNode e y memY),
    fun d x mem => (isNode d x mem).inside below⟩
  · simp only [nodesOf, List.cons_append, List.nodup_cons, List.mem_append, List.mem_cons,
      List.not_mem_nil, or_false, not_or, List.nodup_append]
    refine ⟨⟨fun mem => (notSentinel d d _ mem).1 rfl, ?_⟩, nodup d, by simp, ?_⟩
    · simp [tailOf]
    · rintro x mem y rfl
      exact (notSentinel d d x mem).2
  · simp only [nodesOf, List.cons_append, List.mem_cons, List.mem_append, List.not_mem_nil,
      or_false] at memD memE
    have apart : d.val ≠ e.val := fun same => ne (Fin.ext same)
    rcases memD with head | inside | tail <;> rcases memE with head' | inside' | tail'
    · simp only [headOf, freeListOf, descAddr] at head head'
      omega
    · exact (notSentinel e d x inside').1 head
    · simp only [headOf, freeListOf, descAddr, tailOf] at head tail'
      omega
    · exact (notSentinel d e x inside).1 head'
    · exact disjoint d e ne x inside inside'
    · exact (notSentinel d e x inside).2 tail'
    · simp only [headOf, freeListOf, descAddr, tailOf] at tail head'
      omega
    · exact (notSentinel e d x inside').2 tail
    · simp only [headOf, freeListOf, descAddr, tailOf] at tail tail'
      omega

/-- The free lists are lists in one memory. -/
theorem FreeLists.holds (lists : FreeLists descs m free) (below : descs + 24 * descCnt ≤ kHeapStart) :
    HoldsLists m (headOf descs) (fun d => free d) where
  isList d := lists.isList d d.isLt
  placed := placed_of_blocks below (fun d => lists.block d d.isLt) (fun d => lists.nodup d d.isLt)
    fun d e ne b memD memE => ne (Fin.ext (lists.disjoint d d.isLt e e.isLt b memD memE))

theorem FreeLists.of_holds (holds : HoldsLists m (headOf descs) (fun d => free d))
    (block : ∀ d < descCnt, ∀ b ∈ free d, IsBlock b) : FreeLists descs m free where
  isList d inDescs := holds.isList ⟨d, inDescs⟩
  nodup d inDescs := by
    have nodup := holds.placed.nodup ⟨d, inDescs⟩
    rw [nodesOf, List.cons_append] at nodup
    exact (List.nodup_append.mp (List.nodup_cons.mp nodup).2).1
  disjoint d inD e inE b memD memE := by
    by_contra ne
    refine holds.placed.disjoint ⟨d, inD⟩ ⟨e, inE⟩ (fun same => ne (Fin.mk.inj same)) b ?_ ?_
    · exact List.mem_append_left _ (List.mem_cons_of_mem _ memD)
    · exact List.mem_append_left _ (List.mem_cons_of_mem _ memE)
  block := block

theorem FreeLists.apart (lists : FreeLists descs m free)
    (below : descs + 24 * descCnt ≤ kHeapStart) {d : Nat} (inDescs : d < descCnt) :
    Apart (nodesOf (freeListOf (descAddr descs d)) (free d)) :=
  (lists.holds below).placed.apart ⟨d, inDescs⟩

/-- `elem_find` on a free list decides membership. -/
theorem FreeLists.elemFind (lists : FreeLists descs m free)
    (below : descs + 24 * descCnt ≤ kHeapStart) {d : Nat} (inDescs : d < descCnt) (b : Nat) :
    elemFind m (freeListOf (descAddr descs d)) b = some (decide (b ∈ free d)) :=
  (lists.isList d inDescs).elemFind (lists.apart below inDescs)
    ((lists.holds below).placed.length_lt ⟨d, inDescs⟩)

/-- Lists survive writes off their nodes. -/
theorem FreeLists.congr {m' : Words} (lists : FreeLists descs m free)
    (same : ∀ d < descCnt, ∀ x ∈ nodesOf (freeListOf (descAddr descs d)) (free d),
      m' x = m x ∧ m' (x + 4) = m (x + 4)) : FreeLists descs m' free where
  isList d inDescs := (lists.isList d inDescs).congr
    (fun x mem => (same d inDescs x mem).2) (fun x mem => (same d inDescs x mem).1)
  nodup := lists.nodup
  disjoint := lists.disjoint
  block := lists.block

/-- One list changes, the others stay. -/
theorem update_lists {d : Nat} (inDescs : d < descCnt) (elems : List Nat) :
    (fun e : Fin descCnt => Function.update free d elems e) =
      Function.update (fun e : Fin descCnt => free e) ⟨d, inDescs⟩ elems := by
  funext e
  by_cases same : e = ⟨d, inDescs⟩
  · subst same
    rw [Function.update_self, Function.update_self]
  · rw [Function.update_of_ne same, Function.update_of_ne fun isD => same (Fin.ext isD)]

/-- After a change of one list, the elements are blocks. -/
theorem block_update (block : ∀ e < descCnt, ∀ x ∈ free e, IsBlock x) {d : Nat} {elems : List Nat}
    (blocks : ∀ x ∈ elems, IsBlock x) :
    ∀ e < descCnt, ∀ x ∈ Function.update free d elems e, IsBlock x := by
  intro e inE x mem
  by_cases same : e = d
  · rw [same, Function.update_self] at mem
    exact blocks x mem
  · rw [Function.update_of_ne same] at mem
    exact block e inE x mem

/-- `list_append` of a block that is on no free list. -/
theorem FreeLists.append (lists : FreeLists descs m free)
    (below : descs + 24 * descCnt ≤ kHeapStart) {d b : Nat} (inDescs : d < descCnt)
    (isBlock : IsBlock b) (fresh : ∀ e < descCnt, b ∉ free e) :
    FreeLists descs (listAppend m (freeListOf (descAddr descs d)) b)
      (Function.update free d (free d ++ [b])) ∧
    ∀ cell, OffNodes descs cell →
      listAppend m (freeListOf (descAddr descs d)) b cell = m cell := by
  have blocks : ∀ x ∈ free d ++ [b], IsBlock x := by
    intro x mem
    rcases List.mem_append.mp mem with old | new
    · exact lists.block d inDescs x old
    · rw [List.mem_singleton.mp new]
      exact isBlock
  have isNode : ∀ e : Fin descCnt, ∀ x ∈ nodesOf (headOf descs e) (free e), IsNode descs x :=
    fun e _ mem => isNode_of_mem e.isLt (lists.block e e.isLt) mem
  have isFresh : Fresh (headOf descs) (fun e => free e) b := by
    refine ⟨fun e mem => ?_, fun e x mem => ?_, IsNode.inside below (.inr isBlock)⟩
    · obtain ⟨notHead, notTail⟩ := isBlock.notSentinel below e.isLt
      rcases List.mem_append.mp mem with mem | isTail
      · rcases List.mem_cons.mp mem with isHead | inside
        · exact notHead isHead
        · exact fresh e e.isLt inside
      · exact notTail (List.mem_singleton.mp isTail)
    · exact ⟨IsNode.words below (.inr isBlock) (isNode e x mem), (isNode e x mem).words below (.inr isBlock)⟩
  obtain ⟨holds, off⟩ := (lists.holds below).append isFresh ⟨d, inDescs⟩
  refine ⟨.of_holds ?_ (block_update lists.block blocks), fun cell offNodes => ?_⟩
  · rw [update_lists inDescs]
    exact holds
  · exact off cell fun z mem => offNodes z (isNode_of_mem inDescs blocks mem)

/-- `list_remove` of a member of a free list. -/
theorem FreeLists.remove (lists : FreeLists descs m free)
    (below : descs + 24 * descCnt ≤ kHeapStart) {d b : Nat} (inDescs : d < descCnt)
    (mem : b ∈ free d) :
    FreeLists descs (listRemove m b) (Function.update free d ((free d).erase b)) ∧
    ∀ cell, OffNodes descs cell → listRemove m b cell = m cell := by
  have blocks : ∀ x ∈ (free d).erase b, IsBlock x :=
    fun x member => lists.block d inDescs x (List.mem_of_mem_erase member)
  have inList : b ∈ (fun e : Fin descCnt => free e) ⟨d, inDescs⟩ := mem
  obtain ⟨holds, off⟩ := (lists.holds below).remove inList
  refine ⟨.of_holds ?_ (block_update lists.block blocks), fun cell offNodes => ?_⟩
  · rw [update_lists inDescs]
    exact holds
  · exact off cell fun z mem => offNodes z (isNode_of_mem inDescs (lists.block d inDescs) mem)

end

end ZyOs.Memory
