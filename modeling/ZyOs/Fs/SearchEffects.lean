import ZyOs.Fs.HeapRuns

/-!
Contract: what a call that searches for a path does to open files and inodes.

Owns:
- what `inode_open` and `inode_close` do, case by case;
- `Searched`: the volume, the tables of files and descriptors and the inodes that were
  open are as before; the counts of the inodes are those from before and what the call
  has opened since;
- the account of a search in these terms.

Does not own: the blocks of the heap.
-/

namespace ZyOs.Fs.Calls

open ZyOs.Kernel ZyOs.Memory ZyOs.Lib

variable {s₀ s₁ s s' : State} {blocks refs : List Ptr} {ptr : Ptr} {inodeNo : Nat}

/-! ### Blocks and inodes -/

/-- What `sys_malloc` does: it answers `NULL`, or it takes a free block of the heap. -/
theorem sysMalloc_cases {pgdirNull : Bool} {answer : Option Ptr}
    (isRun : sysMalloc pgdirNull s = some (answer, s')) :
    (answer = none ∧ s' = { s with asked := s.asked + 1 }) ∨
      ∃ ptr, answer = some ptr ∧ s.heap ptr = none ∧ OpenFiles.inHeap pgdirNull ptr = true ∧
        s' = { s with
          asked := s.asked + 1
          heap := Function.update s.heap ptr (some (if pgdirNull then .kernel else .user)) } := by
  unfold sysMalloc at isRun
  split at isRun
  · cases isRun
    exact .inl ⟨rfl, rfl⟩
  · split at isRun
    · rename_i isFree
      cases isRun
      exact .inr ⟨_, rfl, isFree.1, isFree.2, rfl⟩
    · cases isRun
      exact .inl ⟨rfl, rfl⟩

theorem sysMalloc_eq_some {pgdirNull : Bool} {answer : Option Ptr}
    (isRun : sysMalloc pgdirNull s = some (answer, s')) :
    ∃ heap, s' = { s with heap := heap, asked := s.asked + 1 } ∧
      ∀ ptr, answer = some ptr → s.heap ptr = none := by
  rcases sysMalloc_cases isRun with ⟨isNone, isAfter⟩ | ⟨found, isFound, isFree, _, isAfter⟩
  · refine ⟨s.heap, isAfter, fun ptr isSome => ?_⟩
    cases isNone.symm.trans isSome
  · refine ⟨_, isAfter, fun ptr isSome => ?_⟩
    cases isFound.symm.trans isSome
    exact isFree

theorem malloc_cases {answer : Option Ptr} (isRun : malloc s = some (answer, s')) :
    (answer = none ∧ s' = { s with asked := s.asked + 1 }) ∨
      ∃ ptr, answer = some ptr ∧ s.heap ptr = none ∧ OpenFiles.inHeap (s.pgdirNull s.cur) ptr = true ∧
        s' = { s with
          asked := s.asked + 1
          heap := Function.update s.heap ptr (some (if s.pgdirNull s.cur then .kernel else .user)) } := by
  obtain ⟨read, s₁, isRead, isRest⟩ := bind_eq_some isRun
  cases isRead
  exact sysMalloc_cases isRest

theorem malloc_eq_some {answer : Option Ptr} (isRun : malloc s = some (answer, s')) :
    ∃ heap, s' = { s with heap := heap, asked := s.asked + 1 } ∧
      ∀ ptr, answer = some ptr → s.heap ptr = none := by
  obtain ⟨read, s₁, isRead, isRest⟩ := bind_eq_some isRun
  cases isRead
  exact sysMalloc_eq_some isRest

theorem free_eq_some {a : Unit} (isRun : free ptr s = some (a, s')) :
    s' = { s with heap := Function.update s.heap ptr none } := by
  obtain ⟨read, s₁, isRead, isRest⟩ := bind_eq_some isRun
  cases isRead
  exact (sysFree_eq_some isRest).2

theorem deref_eq_some {found : Ptr} {answer : Option Ptr} (isRun : deref answer s = some (found, s')) :
    answer = some found ∧ s' = s := by
  obtain ⟨_, isSome, isPair⟩ := Option.map_eq_some_iff.mp isRun
  cases isPair
  exact ⟨isSome, rfl⟩

/-- The inode is on the list and is counted once more. -/
def countedUp (s : State) (ptr : Ptr) : State :=
  { s with inode := Function.update s.inode ptr { s.inode ptr with iOpenCnts := (s.inode ptr).iOpenCnts + 1 } }

/-- What `inode_open` does: it counts an inode of the list once more, or it puts a new
one there, as it is read from the disk. -/
inductive Opened (inodeNo : Nat) (ptr : Ptr) (s s' : State) : Prop where
  | found (mem : ptr ∈ s.openInodes) (isNo : (s.inode ptr).iNo = inodeNo)
      (isFound : (s.openInodes.find? fun ptr => (s.inode ptr).iNo = inodeNo) = some ptr)
      (after : s' = countedUp s ptr)
  | loaded (node : InodeTable.Inode) (asked : Nat)
      (notFound : (s.openInodes.find? fun ptr => (s.inode ptr).iNo = inodeNo) = none)
      (isRead : s.part.readInode inodeNo = some node) (isFree : s.heap ptr = none)
      (inHeap : OpenFiles.inHeap true ptr = true)
      (after : s' = { s with
        heap := Function.update s.heap ptr (some .kernel)
        asked := asked
        inode := Function.update s.inode ptr ⟨node, 1, node.writeDeny != 0⟩
        openInodes := ptr :: s.openInodes })

/-- A block that is taken and given back. -/
theorem update_undo {heap : Ptr → Option PoolFlags} {buf : Ptr} (isFree : heap buf = none)
    (taken : Option PoolFlags) : Function.update (Function.update heap buf taken) buf none = heap := by
  rw [Function.update_idem, ← isFree, Function.update_eq_self]

theorem inodeOpen_opened (isRun : inodeOpen inodeNo s = some (ptr, s')) : Opened inodeNo ptr s s' := by
  obtain ⟨read, s₁, isGet, isRest⟩ := bind_eq_some isRun
  cases isGet
  cases found : s.openInodes.find? fun ptr => (s.inode ptr).iNo = inodeNo with
  | some other =>
      rw [found] at isRest
      cases isRest
      exact .found (List.mem_of_find?_eq_some found) (by simpa using List.find?_some found) found rfl
  | none =>
      rw [found] at isRest
      obtain ⟨node, s₁, isNode, isRest⟩ := bind_eq_some isRest
      obtain ⟨part, isStep, isFirst⟩ := onPart_eq_some isNode
      obtain ⟨_, isRead, isPair⟩ := Option.map_eq_some_iff.mp isStep
      cases isPair
      obtain ⟨inodeFound, s₂, isInode, isRest⟩ := bind_eq_some isRest
      obtain ⟨inodeBuf, s₃, isBuf, isRest⟩ := bind_eq_some isRest
      obtain ⟨answer, s₄, isMalloc, isDeref⟩ := bind_eq_some isBuf
      obtain ⟨isAnswer, isFourth⟩ := deref_eq_some isDeref
      obtain ⟨pushed, s₅, isPtr, isRest⟩ := bind_eq_some isRest
      obtain ⟨isSome, isFifth⟩ := deref_eq_some isPtr
      obtain ⟨_, s₆, isPush, isRest⟩ := bind_eq_some isRest
      obtain ⟨_, s₇, isFreed, isRest⟩ := bind_eq_some isRest
      have isLast := free_eq_some isFreed
      cases isRest
      -- both blocks are there, and the second one is given back
      rcases sysMalloc_cases isInode with ⟨isNull, _⟩ | ⟨block, isBlock, isFree, inHeap, isSecond⟩
      · cases isNull.symm.trans isSome
      rcases malloc_cases isMalloc with ⟨isNull, _⟩ | ⟨buf, isBuf, bufFree, _, isThird⟩
      · cases isNull.symm.trans isAnswer
      cases isBlock.symm.trans isSome
      cases isBuf.symm.trans isAnswer
      cases isPush
      rw [isFirst] at isFree
      rw [isSecond] at bufFree
      rw [isLast, isFifth, isFourth, isThird, isSecond]
      dsimp only at bufFree ⊢
      rw [update_undo bufFree, isFirst]
      exact .loaded node _ found isRead isFree inHeap rfl

/-- What `inode_close` does. -/
theorem inodeClose_eq_some {a : Unit} (isRun : inodeClose ptr s = some (a, s')) :
    ∃ heap, s' = { countedDown s ptr with
      heap := heap
      openInodes :=
        if OpenFiles.countDown (s.inode ptr).iOpenCnts = 0 then s.openInodes.erase ptr
        else s.openInodes } := by
  rw [inodeClose_eq] at isRun
  by_cases isZero : OpenFiles.countDown (s.inode ptr).iOpenCnts = 0
  · rw [if_pos isZero] at isRun
    rw [if_pos isZero]
    exact ⟨_, (sysFree_eq_some isRun).2⟩
  · rw [if_neg isZero] at isRun
    rw [if_neg isZero]
    cases isRun
    exact ⟨s.heap, rfl⟩

theorem dirClose_part {dir : Dir} {a : Unit} (isRun : dirClose dir s = some (a, s')) : s'.part = s.part := by
  obtain ⟨block, inode⟩ := dir
  cases block with
  | none =>
      cases isRun
      rfl
  | some block =>
      obtain ⟨_, s₁, isClosed, isFreed⟩ := bind_eq_some isRun
      obtain ⟨heap, isAfter₁⟩ := inodeClose_eq_some isClosed
      rw [free_eq_some isFreed, isAfter₁]
      rfl

/-! ### The search -/

/-- A state of a call that began in `s₁` and has opened these inodes since. -/
structure Searched (s₁ : State) (refs : List Ptr) (s : State) : Prop where
  part : s.part = s₁.part
  fileTable : s.fileTable = s₁.fileTable
  fdTable : s.fdTable = s₁.fdTable
  cur : s.cur = s₁.cur
  rootInode : s.rootInode = s₁.rootInode
  counts : ∀ ptr, openings s ptr = openings s₁ ptr + refs.count ptr
  node : ∀ ptr, 0 < openings s₁ ptr → (s.inode ptr).node = (s₁.inode ptr).node
  writeDeny : ∀ ptr, 0 < openings s₁ ptr → (s.inode ptr).writeDeny = (s₁.inode ptr).writeDeny

theorem Searched.refl (s : State) : Searched s [] s :=
  ⟨rfl, rfl, rfl, rfl, rfl, fun _ => rfl, fun _ _ => rfl, fun _ _ => rfl⟩

/-- Only the heap changes. -/
theorem Searched.withHeap (searched : Searched s₁ refs s) (heap : Ptr → Option PoolFlags) (asked : Nat) :
    Searched s₁ refs { s with heap := heap, asked := asked } :=
  ⟨searched.part, searched.fileTable, searched.fdTable, searched.cur, searched.rootInode,
    searched.counts, searched.node, searched.writeDeny⟩

theorem openings_countedUp (mem : ptr ∈ s.openInodes) (other : Ptr) :
    openings (countedUp s ptr) other = openings s other + if other = ptr then 1 else 0 := by
  unfold openings countedUp
  dsimp only
  by_cases same : other = ptr
  · rw [same, Function.update_self, if_pos mem, if_pos rfl, if_pos mem]
  · rw [Function.update_of_ne same, if_neg same]
    rfl

theorem countedUp_kept (s : State) (ptr other : Ptr) :
    ((countedUp s ptr).inode other).node = (s.inode other).node ∧
      ((countedUp s ptr).inode other).writeDeny = (s.inode other).writeDeny := by
  unfold countedUp
  dsimp only
  by_cases same : other = ptr
  · rw [same, Function.update_self]
    exact ⟨rfl, rfl⟩
  · rw [Function.update_of_ne same]
    exact ⟨rfl, rfl⟩

theorem countedDown_kept (s : State) (ptr other : Ptr) :
    ((countedDown s ptr).inode other).node = (s.inode other).node ∧
      ((countedDown s ptr).inode other).writeDeny = (s.inode other).writeDeny := by
  unfold countedDown
  dsimp only
  by_cases same : other = ptr
  · rw [same, Function.update_self]
    exact ⟨rfl, rfl⟩
  · rw [Function.update_of_ne same]
    exact ⟨rfl, rfl⟩

theorem count_cons_eq (other : Ptr) : (ptr :: refs).count other = refs.count other + if other = ptr then 1 else 0 := by
  by_cases same : other = ptr
  · rw [same, List.count_cons_self, if_pos rfl]
  · rw [count_cons_other same, if_neg same, Nat.add_zero]

/-- A new inode is put where no inode is open. -/
theorem Searched.opened (searched : Searched s₁ refs s) (live : ∀ ptr ∈ s.openInodes, s.heap ptr ≠ none)
    (opened : Opened inodeNo ptr s s') : Searched s₁ (ptr :: refs) s' := by
  cases opened with
  | found mem _ _ after =>
      rw [after]
      refine ⟨searched.part, searched.fileTable, searched.fdTable, searched.cur, searched.rootInode,
        fun other => ?_, fun other isOpen => ?_, fun other isOpen => ?_⟩
      · rw [openings_countedUp mem, searched.counts, count_cons_eq, Nat.add_assoc]
      · rw [(countedUp_kept s ptr other).1]
        exact searched.node other isOpen
      · rw [(countedUp_kept s ptr other).2]
        exact searched.writeDeny other isOpen
  | loaded node asked _ _ isFree _ after =>
      have notMem : ptr ∉ s.openInodes := fun mem => live ptr mem isFree
      have notOpen : openings s ptr = 0 := if_neg notMem
      have counts := searched.counts ptr
      have others : ∀ other, 0 < openings s₁ other → other ≠ ptr := by
        intro other isOpen same
        rw [same] at isOpen
        omega
      rw [after]
      refine ⟨searched.part, searched.fileTable, searched.fdTable, searched.cur, searched.rootInode,
        fun other => ?_, fun other isOpen => ?_, fun other isOpen => ?_⟩
      · rw [count_cons_eq, ← Nat.add_assoc, ← searched.counts]
        unfold openings
        dsimp only
        by_cases same : other = ptr
        · rw [same, Function.update_self, if_pos List.mem_cons_self, if_neg notMem, if_pos rfl]
        · have sameMem : other ∈ ptr :: s.openInodes ↔ other ∈ s.openInodes :=
            ⟨fun mem => (List.mem_cons.mp mem).resolve_left same, List.mem_cons_of_mem ptr⟩
          rw [Function.update_of_ne same, if_neg same, Nat.add_zero]
          simp only [sameMem]
      · dsimp only
        rw [Function.update_of_ne (others other isOpen)]
        exact searched.node other isOpen
      · dsimp only
        rw [Function.update_of_ne (others other isOpen)]
        exact searched.writeDeny other isOpen

/-- An inode that the call has opened is closed. -/
theorem Searched.closed (searched : Searched s₁ (ptr :: refs) s) (nodup : s.openInodes.Nodup)
    (heap : Ptr → Option PoolFlags) :
    Searched s₁ refs { countedDown s ptr with
      heap := heap
      openInodes :=
        if OpenFiles.countDown (s.inode ptr).iOpenCnts = 0 then s.openInodes.erase ptr
        else s.openInodes } := by
  have counts := searched.counts ptr
  rw [List.count_cons_self] at counts
  have mem : ptr ∈ s.openInodes := by
    by_contra notMem
    rw [openings, if_neg notMem] at counts
    omega
  rw [openings, if_pos mem] at counts
  have isDown : OpenFiles.countDown (s.inode ptr).iOpenCnts = (s.inode ptr).iOpenCnts - 1 :=
    if_neg (by omega)
  refine ⟨searched.part, searched.fileTable, searched.fdTable, searched.cur, searched.rootInode,
    fun other => ?_, fun other isOpen => ?_, fun other isOpen => ?_⟩
  · rw [isDown]
    unfold openings countedDown
    dsimp only
    by_cases same : other = ptr
    · rw [same, Function.update_self]
      by_cases isZero : (s.inode ptr).iOpenCnts - 1 = 0
      · rw [if_pos isZero, if_neg nodup.not_mem_erase]
        unfold openings at counts
        omega
      · rw [if_neg isZero, if_pos mem]
        dsimp only
        rw [isDown]
        unfold openings at counts
        omega
    · have unchanged := searched.counts other
      rw [count_cons_other same] at unchanged
      unfold openings at unchanged
      rw [Function.update_of_ne same, ← unchanged]
      by_cases isZero : (s.inode ptr).iOpenCnts - 1 = 0
      · rw [if_pos isZero]
        simp only [List.mem_erase_of_ne same]
      · rw [if_neg isZero]
  · rw [← searched.node other isOpen]
    exact (countedDown_kept s ptr other).1
  · rw [← searched.writeDeny other isOpen]
    exact (countedDown_kept s ptr other).2

/-- A call that has held to the ledger, and has done nothing but to search. -/
def Searching (s₀ s₁ : State) (blocks refs : List Ptr) (s : State) : Prop :=
  Ledger s₀ blocks refs s ∧ Searched s₁ refs s

theorem Ledger.openLive (ledger : Ledger s₀ blocks refs s) : ∀ ptr ∈ s.openInodes, s.heap ptr ≠ none :=
  fun ptr mem => ledger.live ptr (List.mem_append_right _ (List.mem_append_right _ mem))

theorem Ledger.openNodup (ledger : Ledger s₀ blocks refs s) : s.openInodes.Nodup :=
  (List.nodup_append.mp (List.nodup_append.mp ledger.nodup).2.1).2.1

theorem searching_accounts (s₀ s₁ : State) : Accounts (Searching s₀ s₁) where
  perm := by
    rintro blocks blocks' refs refs' s ⟨ledger, searched⟩ sameBlocks sameRefs
    refine ⟨ledger.perm sameBlocks sameRefs, searched.part, searched.fileTable, searched.fdTable,
      searched.cur, searched.rootInode, fun ptr => ?_, searched.node, searched.writeDeny⟩
    rw [← sameRefs.count_eq]
    exact searched.counts ptr
  ofMalloc blocks refs := by
    constructor
    rintro s answer s' ⟨ledger, searched⟩ isRun
    refine ⟨malloc_ensures.returns ledger isRun, ?_⟩
    obtain ⟨heap, isAfter, _⟩ := malloc_eq_some isRun
    rw [isAfter]
    exact searched.withHeap _ _
  ofFree ptr blocks refs := by
    constructor
    rintro s a s' ⟨ledger, searched⟩ isRun
    refine ⟨(free_ensures ptr).returns ledger isRun, ?_⟩
    rw [free_eq_some isRun]
    exact searched.withHeap _ _
  ofInodeOpen inodeNo blocks refs := by
    constructor
    rintro s ptr s' ⟨ledger, searched⟩ isRun
    exact ⟨(inodeOpen_ensures inodeNo).returns ledger isRun,
      searched.opened ledger.openLive (inodeOpen_opened isRun)⟩
  ofInodeClose ptr blocks refs := by
    constructor
    rintro s a s' ⟨ledger, searched⟩ isRun
    refine ⟨(inodeClose_ensures ptr).returns ledger isRun, ?_⟩
    obtain ⟨heap, isAfter⟩ := inodeClose_eq_some isRun
    rw [isAfter]
    exact searched.closed ledger.openNodup heap

end ZyOs.Fs.Calls
