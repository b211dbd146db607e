import ZyOs.Lib.Accesses
import ZyOs.Memory.Heap

/-!
Contract: the words that `sys_malloc` and `sys_free` read and write, access by access.

Owns:
- the loops and list operations of `Memory.Heap` as programs, in the order of the C statements;
- for each of them, that on a flat memory it is the function of that name.

Does not own: the calls of `malloc_page` and `mfree_page` between these programs, and what an
access finds behind the TLB.
-/

namespace ZyOs.Memory.Accesses

open ZyOs.Lib ZyOs.Kernel

abbrev HeapProg (α : Type) : Type := Prog MemPanic α

/-! ### `lib/kernel/list.c` -/

/-- `list_init`. -/
def listInit (list : Nat) : HeapProg Unit := do
  Prog.store list 0
  Prog.store (list + 4) (tailOf list)
  Prog.store (tailOf list) list
  Prog.store (tailOf list + 4) 0

/-- `list_insert_before`. -/
def listInsertBefore (before elem : Nat) : HeapProg Unit := do
  let prev ← Prog.load before
  Prog.store (prev + 4) elem
  let prev ← Prog.load before
  Prog.store elem prev
  Prog.store (elem + 4) before
  Prog.store before elem

/-- `list_append`. -/
def listAppend (plist elem : Nat) : HeapProg Unit := listInsertBefore (tailOf plist) elem

/-- `list_remove`. -/
def listRemove (pelem : Nat) : HeapProg Unit := do
  let prev ← Prog.load pelem
  let next ← Prog.load (pelem + 4)
  Prog.store (prev + 4) next
  let next ← Prog.load (pelem + 4)
  let prev ← Prog.load pelem
  Prog.store next prev

/-- `list_pop`. -/
def listPop (plist : Nat) : HeapProg Nat := do
  let elem ← Prog.load (plist + 4)
  listRemove elem
  pure elem

/-- `list_empty`. -/
def listEmpty (plist : Nat) : HeapProg Bool := do
  let first ← Prog.load (plist + 4)
  pure (first == tailOf plist)

/-- The loop of `elem_find`. -/
def elemFindFrom (plist objElem : Nat) : Nat → Nat → HeapProg (Option Bool)
  | 0, _ => pure none
  | steps + 1, elem =>
      if elem = tailOf plist then
        pure (some false)
      else if elem = objElem then
        pure (some true)
      else do
        let next ← Prog.load (elem + 4)
        elemFindFrom plist objElem steps next

/-- `elem_find`. -/
def elemFind (plist objElem : Nat) : HeapProg (Option Bool) := do
  let first ← Prog.load (plist + 4)
  elemFindFrom plist objElem (2 ^ 32) first

theorem run_listInit (list : Nat) (m : Words) :
    (listInit list).run m = .ok ((), Kernel.listInit m list) := rfl

theorem run_listAppend (plist elem : Nat) (m : Words) :
    (listAppend plist elem).run m = .ok ((), Kernel.listAppend m plist elem) := rfl

theorem run_listRemove (pelem : Nat) (m : Words) :
    (listRemove pelem).run m = .ok ((), Kernel.listRemove m pelem) := rfl

theorem run_listPop (plist : Nat) (m : Words) :
    (listPop plist).run m = .ok ((Kernel.listPop m plist).2, (Kernel.listPop m plist).1) := rfl

theorem run_listEmpty (plist : Nat) (m : Words) :
    (listEmpty plist).run m = .ok (Kernel.listEmpty m plist, m) := rfl

theorem run_elemFindFrom (plist objElem : Nat) (m : Words) (steps : Nat) :
    ∀ elem, (elemFindFrom plist objElem steps elem).run m =
      .ok (Kernel.elemFindFrom m plist objElem steps elem, m) := by
  induction steps with
  | zero => exact fun _ => rfl
  | succ steps inductionHypothesis =>
      intro elem
      unfold elemFindFrom Kernel.elemFindFrom
      split_ifs
      · rfl
      · rfl
      · rw [Prog.load_bind, Prog.run_read]
        exact inductionHypothesis (m (elem + 4))

theorem run_elemFind (plist objElem : Nat) (m : Words) :
    (elemFind plist objElem).run m = .ok (Kernel.elemFind m plist objElem, m) := by
  unfold elemFind
  rw [Prog.load_bind, Prog.run_read, run_elemFindFrom]
  rfl

/-! ### Descriptors and arenas -/

/-- The loop of `block_desc_init`. -/
def blockDescInitFrom (descArray : Nat) : Nat → Nat → Nat → HeapProg Unit
  | 0, _, _ => pure ()
  | left + 1, descIdx, blockSize => do
      let desc := descAddr descArray descIdx
      Prog.store desc blockSize
      Prog.store (desc + 4) ((pgSize - arenaSize) / blockSize)
      listInit (freeListOf desc)
      blockDescInitFrom descArray left (descIdx + 1) (blockSize * 2)

/-- `block_desc_init`. -/
def blockDescInit (descArray : Nat) : HeapProg Unit := blockDescInitFrom descArray descCnt 0 16

/-- `memset(dst, 0, size)`. -/
def memset (dst size : Nat) : HeapProg Unit := Prog.zero pgSize size dst (dst + size)

/-- `arena2block`. -/
def arena2block (a idx : Nat) : HeapProg Nat := do
  let desc ← Prog.load a
  let blockSize ← Prog.load desc
  pure (a + arenaSize + idx * blockSize)

/-- The search for the descriptor in `sys_malloc`. -/
def findDescFrom (descs size : Nat) : Nat → Nat → HeapProg Nat
  | 0, descIdx => pure descIdx
  | left + 1, descIdx => do
      let blockSize ← Prog.load (descAddr descs descIdx)
      if size ≤ blockSize then
        pure descIdx
      else
        findDescFrom descs size left (descIdx + 1)

def findDesc (descs size : Nat) : HeapProg Nat := findDescFrom descs size descCnt 0

/-- The loop of `sys_malloc` over the blocks of a new arena. -/
def fillArena (a : Nat) : Nat → Nat → HeapProg Unit
  | 0, _ => pure ()
  | left + 1, blockIdx => do
      let b ← arena2block a blockIdx
      let desc ← Prog.load a
      match ← elemFind (freeListOf desc) b with
      | none => Prog.fail .elemFindLoop
      | some true => Prog.fail .mallocElemFind
      | some false => do
          let desc ← Prog.load a
          listAppend (freeListOf desc) b
          fillArena a left (blockIdx + 1)

/-- The loop of `sys_free` over the blocks of an arena. -/
def drainArena (a : Nat) : Nat → Nat → HeapProg Unit
  | 0, _ => pure ()
  | left + 1, blockIdx => do
      let b ← arena2block a blockIdx
      let desc ← Prog.load a
      match ← elemFind (freeListOf desc) b with
      | none => Prog.fail .elemFindLoop
      | some false => Prog.fail .freeElemFind
      | some true => do
          listRemove b
          drainArena a left (blockIdx + 1)

/-- The header and the blocks of a new arena at `a`. -/
def initArena (a desc : Nat) : HeapProg Unit := do
  memset a pgSize
  Prog.store a desc
  Prog.store (a + 8) 0
  let per ← Prog.load (desc + 4)
  Prog.store (a + 4) per
  let per ← Prog.load (desc + 4)
  fillArena a per 0

/-- The end of `sys_malloc`: the first free block, cleared. -/
def takeBlock (desc : Nat) : HeapProg Nat := do
  let b ← listPop (freeListOf desc)
  let blockSize ← Prog.load desc
  memset b blockSize
  let cnt ← Prog.load (block2arena b + 4)
  Prog.store (block2arena b + 4) ((cnt + (2 ^ 32 - 1)) % 2 ^ 32)
  pure b

/-- The header of a large arena. -/
def largeArena (a pageCnt : Nat) : HeapProg Unit := do
  memset a (pageCnt * pgSize)
  Prog.store a 0
  Prog.store (a + 4) pageCnt
  Prog.store (a + 8) 1

/-- The branch of `sys_free` for a small arena, up to `mfree_page`: whether the arena is
dissolved. -/
def freeBlock (a b : Nat) : HeapProg Bool := do
  let desc ← Prog.load a
  listAppend (freeListOf desc) b
  let cnt ← Prog.load (a + 4)
  Prog.store (a + 4) ((cnt + 1) % 2 ^ 32)
  let cnt ← Prog.load (a + 4)
  let desc ← Prog.load a
  let per ← Prog.load (desc + 4)
  if cnt = per then do
    let desc ← Prog.load a
    let per ← Prog.load (desc + 4)
    drainArena a per 0
    pure true
  else
    pure false

theorem run_blockDescInitFrom (descArray left : Nat) :
    ∀ (descIdx blockSize : Nat) (m : Words), (blockDescInitFrom descArray left descIdx blockSize).run m =
      .ok ((), Memory.blockDescInitFrom descArray left descIdx blockSize m) := by
  induction left with
  | zero => exact fun _ _ _ => rfl
  | succ left inductionHypothesis =>
      intro descIdx blockSize m
      unfold blockDescInitFrom
      rw [Prog.store_bind, Prog.run_write, Prog.store_bind, Prog.run_write, Prog.run_bind_ok _ (run_listInit _ _)]
      exact inductionHypothesis _ _ _

theorem run_blockDescInit (descArray : Nat) (m : Words) :
    (blockDescInit descArray).run m = .ok ((), Memory.blockDescInit m descArray) :=
  run_blockDescInitFrom descArray descCnt 0 16 m

theorem run_memset (dst size : Nat) (m : Words) :
    (memset dst size).run m = .ok ((), memsetZero m dst size) := by
  refine (Prog.run_zero (by decide) dst (dst + size) m (Nat.le_refl _)).trans ?_
  rw [Nat.add_sub_cancel_left]
  rfl

theorem run_arena2block (a idx : Nat) (m : Words) :
    (arena2block a idx).run m = .ok (Memory.arena2block m a idx, m) := rfl

/-- Searching on from descriptor `idx`. -/
theorem run_findDescFrom (descs size : Nat) (m : Words) (left : Nat) :
    ∀ idx, (findDescFrom descs size left idx).run m =
      .ok (((List.range' idx left).find? fun descIdx => size ≤ m (descAddr descs descIdx)).getD (idx + left), m) := by
  induction left with
  | zero => exact fun _ => rfl
  | succ left inductionHypothesis =>
      intro idx
      unfold findDescFrom
      rw [Prog.load_bind, Prog.run_read, List.range'_succ, List.find?_cons]
      by_cases fits : size ≤ m (descAddr descs idx)
      · rw [if_pos fits, decide_eq_true fits]
        rfl
      · rw [if_neg fits, decide_eq_false fits, inductionHypothesis (idx + 1), Nat.add_right_comm idx 1 left]
        rfl

theorem run_findDesc (descs size : Nat) (m : Words) :
    (findDesc descs size).run m = .ok (Memory.findDesc m descs size, m) := by
  unfold findDesc Memory.findDesc
  rw [run_findDescFrom, List.range_eq_range', Nat.zero_add]

/-- What a program returns on a flat memory, next to the words that a function leaves. -/
def returns (outcome : Except MemPanic Words) : Except MemPanic (Unit × Words) :=
  outcome.map fun m => ((), m)

theorem run_fillArena (a left : Nat) :
    ∀ (blockIdx : Nat) (m : Words),
      (fillArena a left blockIdx).run m = returns (Memory.fillArena a left blockIdx m) := by
  induction left with
  | zero => exact fun _ _ => rfl
  | succ left inductionHypothesis =>
      intro blockIdx m
      unfold fillArena Memory.fillArena
      rw [Prog.run_bind_ok _ (run_arena2block a blockIdx m), Prog.load_bind, Prog.run_read,
        Prog.run_bind_ok _ (run_elemFind _ _ m)]
      dsimp only
      generalize Kernel.elemFind m (freeListOf (m a)) (Memory.arena2block m a blockIdx) = found
      rcases found with _ | _ | _
      · rfl
      · rw [Prog.load_bind, Prog.run_read, Prog.run_bind_ok _ (run_listAppend _ _ m)]
        exact inductionHypothesis _ _
      · rfl

theorem run_drainArena (a left : Nat) :
    ∀ (blockIdx : Nat) (m : Words),
      (drainArena a left blockIdx).run m = returns (Memory.drainArena a left blockIdx m) := by
  induction left with
  | zero => exact fun _ _ => rfl
  | succ left inductionHypothesis =>
      intro blockIdx m
      unfold drainArena Memory.drainArena
      rw [Prog.run_bind_ok _ (run_arena2block a blockIdx m), Prog.load_bind, Prog.run_read,
        Prog.run_bind_ok _ (run_elemFind _ _ m)]
      dsimp only
      generalize Kernel.elemFind m (freeListOf (m a)) (Memory.arena2block m a blockIdx) = found
      rcases found with _ | _ | _
      · rfl
      · rfl
      · rw [Prog.run_bind_ok _ (run_listRemove _ m)]
        exact inductionHypothesis _ _

theorem run_initArena (a desc : Nat) (m : Words) :
    (initArena a desc).run m = returns (Memory.initArena m a desc) := by
  unfold initArena
  rw [Prog.run_bind_ok _ (run_memset a pgSize m)]
  exact run_fillArena a _ 0 _

theorem run_takeBlock (desc : Nat) (m : Words) :
    (takeBlock desc).run m = .ok ((Memory.takeBlock m desc).2, (Memory.takeBlock m desc).1) := by
  unfold takeBlock
  rw [Prog.run_bind_ok _ (run_listPop _ m), Prog.load_bind, Prog.run_read,
    Prog.run_bind_ok _ (run_memset _ _ _)]
  rfl

theorem run_largeArena (a pageCnt : Nat) (m : Words) :
    (largeArena a pageCnt).run m = .ok ((), Function.update (Function.update (Function.update
      (memsetZero m a (pageCnt * pgSize)) a 0) (a + 4) pageCnt) (a + 8) 1) := by
  unfold largeArena
  rw [Prog.run_bind_ok _ (run_memset a _ m)]
  rfl

/-- The words before the test of `sys_free`. -/
def gaveBlock (m : Words) (a b : Nat) : Words :=
  let m := Kernel.listAppend m (freeListOf (m a)) b
  Function.update m (a + 4) ((m (a + 4) + 1) % 2 ^ 32)

/-- The arena keeps its descriptor while the block goes back. -/
theorem run_freeBlock {a b desc : Nat} {m : Words} (kept : gaveBlock m a b a = desc) :
    (freeBlock a b).run m =
      if gaveBlock m a b (a + 4) = gaveBlock m a b (desc + 4) then
        (returns (Memory.drainArena a (gaveBlock m a b (desc + 4)) 0 (gaveBlock m a b))).map
          fun result => (true, result.2)
      else
        .ok (false, gaveBlock m a b) := by
  unfold freeBlock
  rw [Prog.load_bind, Prog.run_read, Prog.run_bind_ok _ (run_listAppend _ _ m)]
  simp only [Prog.load_bind, Prog.run_read, Prog.store_bind, Prog.run_write]
  have isGiven : Function.update (Kernel.listAppend m (freeListOf (m a)) b) (a + 4)
      ((Kernel.listAppend m (freeListOf (m a)) b (a + 4) + 1) % 2 ^ 32) = gaveBlock m a b := rfl
  rw [isGiven, kept]
  split
  · rw [Prog.run_read, kept, Prog.run_read, Prog.run_bind, run_drainArena]
    cases Memory.drainArena a (gaveBlock m a b (desc + 4)) 0 (gaveBlock m a b) with
    | ok m' => rfl
    | error panic => rfl
  · rfl

end ZyOs.Memory.Accesses
