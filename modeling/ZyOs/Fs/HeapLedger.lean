import ZyOs.Fs.Calls
import ZyOs.Lib.Returns
import Mathlib.Data.List.Perm.Basic

/-!
Contract: what a call owes the heap while it runs.

Owns:
- `Ledger`: the blocks in use are those from before the call, those that the call
  holds, and inodes on the list; an inode is on the list for every reference to it;
- the entry of every function that allocates, frees, opens or closes.
-/

namespace ZyOs.Fs.Calls

open ZyOs.Kernel ZyOs.Memory ZyOs.Lib

/-! ### References to inodes -/

/-- The slots of `file_table` with this inode. -/
def fileRefs (s : State) (ptr : Ptr) : Nat :=
  (List.range maxFileOpen).countP fun fdIdx => (s.fileTable fdIdx).fdInode = some ptr

/-- The block of a directory, unless it is `root_dir`. -/
def Dir.ownBlock (dir : Dir) : List Ptr := dir.block.toList

/-- The reference of a directory to its inode; `root_dir` is never closed. -/
def Dir.ownRef (dir : Dir) : List Ptr := dir.block.toList.map fun _ => dir.inode

/-- The references of the open directories to an inode. -/
def dirRefs (s : State) (ptr : Ptr) : Nat := (s.dirs.flatMap Dir.ownRef).count ptr

/-- The references to an inode from outside a call. -/
def references (s : State) (ptr : Ptr) : Nat :=
  fileRefs s ptr + dirRefs s ptr + if ptr = s.rootInode then 1 else 0

/-- How often an inode may be closed. -/
def openings (s : State) (ptr : Ptr) : Nat :=
  if ptr ∈ s.openInodes then (s.inode ptr).iOpenCnts else 0

/-- The blocks of the open directories. -/
def dirBlocks (s : State) : List Ptr := s.dirs.flatMap Dir.ownBlock

/-- The state in a call that started in `s₀`, holds these blocks and has opened
these inodes. -/
structure Ledger (s₀ : State) (blocks refs : List Ptr) (s : State) : Prop where
  nodup : (blocks ++ (dirBlocks s ++ s.openInodes)).Nodup
  live : ∀ ptr ∈ blocks ++ (dirBlocks s ++ s.openInodes), s.heap ptr ≠ none
  old : ∀ ptr, ptr ∈ blocks ∨ ptr ∈ s.openInodes → s₀.heap ptr ≠ none → ptr ∈ s₀.openInodes
  gained : ∀ ptr, s.heap ptr ≠ none → s₀.heap ptr ≠ none ∨ ptr ∈ blocks ∨ ptr ∈ s.openInodes
  lost : ∀ ptr, s₀.heap ptr ≠ none → s.heap ptr ≠ none ∨ ptr ∈ s₀.openInodes
  counted : ∀ ptr, refs.count ptr + references s ptr ≤ openings s ptr

variable {s₀ s s' : State} {blocks blocks' refs refs' : List Ptr} {ptr : Ptr}

theorem Ledger.perm (ledger : Ledger s₀ blocks refs s) (sameBlocks : blocks.Perm blocks')
    (sameRefs : refs.Perm refs') : Ledger s₀ blocks' refs' s where
  nodup := (sameBlocks.append_right _).nodup_iff.mp ledger.nodup
  live ptr mem := ledger.live ptr ((sameBlocks.append_right _).mem_iff.mpr mem)
  old ptr mem := ledger.old ptr (mem.imp_left sameBlocks.mem_iff.mpr)
  gained ptr isLive := (ledger.gained ptr isLive).imp_right (Or.imp_left sameBlocks.mem_iff.mp)
  lost := ledger.lost
  counted ptr := by
    rw [← sameRefs.count_eq]
    exact ledger.counted ptr

/-- What a call has left is nothing that the next one owes. -/
theorem Ledger.settled (ledger : Ledger s₀ blocks refs s) : Ledger s [] [] s where
  nodup := (List.nodup_append.mp ledger.nodup).2.1
  live ptr mem := ledger.live ptr (List.mem_append_right _ mem)
  old _ mem _ := mem.resolve_left List.not_mem_nil
  gained _ isLive := .inl isLive
  lost _ isLive := .inl isLive
  counted ptr := (Nat.add_le_add_right (Nat.zero_le _) _).trans (ledger.counted ptr)

/-- A state whose tables and blocks are the same. -/
structure SameTables (s s' : State) : Prop where
  heap : s'.heap = s.heap
  openInodes : s'.openInodes = s.openInodes
  rootInode : s'.rootInode = s.rootInode
  dirs : s'.dirs = s.dirs
  fdInode : ∀ fdIdx, (s'.fileTable fdIdx).fdInode = (s.fileTable fdIdx).fdInode
  iOpenCnts : ∀ ptr, (s'.inode ptr).iOpenCnts = (s.inode ptr).iOpenCnts

theorem SameTables.references (same : SameTables s s') (ptr : Ptr) :
    references s' ptr = references s ptr := by
  unfold Calls.references fileRefs dirRefs
  simp only [same.fdInode, same.dirs, same.rootInode]

theorem SameTables.openings (same : SameTables s s') (ptr : Ptr) : openings s' ptr = openings s ptr := by
  unfold Calls.openings
  rw [same.openInodes, same.iOpenCnts]

theorem Ledger.congr (ledger : Ledger s₀ blocks refs s) (same : SameTables s s') :
    Ledger s₀ blocks refs s' := by
  have sameBlocks : dirBlocks s' = dirBlocks s := by rw [dirBlocks, same.dirs]; rfl
  refine ⟨?_, ?_, ?_, ?_, ?_, fun ptr => ?_⟩
  · rw [sameBlocks, same.openInodes]
    exact ledger.nodup
  · rw [sameBlocks, same.openInodes, same.heap]
    exact ledger.live
  · rw [same.openInodes]
    exact ledger.old
  · rw [same.openInodes, same.heap]
    exact ledger.gained
  · rw [same.heap]
    exact ledger.lost
  · rw [same.references, same.openings]
    exact ledger.counted ptr

/-- A function that leaves the tables and the blocks alone. -/
def Quiet {α : Type} (call : Call α) : Prop := ∀ s a s', call s = some (a, s') → SameTables s s'

theorem Quiet.ensures {α : Type} {call : Call α} (quiet : Quiet call) :
    Ensures (Ledger s₀ blocks refs) call fun _ => Ledger s₀ blocks refs :=
  ⟨fun ledger isRun => ledger.congr (quiet _ _ _ isRun)⟩

theorem SameTables.trans {s'' : State} (first : SameTables s s') (second : SameTables s' s'') :
    SameTables s s'' :=
  ⟨second.heap.trans first.heap, second.openInodes.trans first.openInodes,
    second.rootInode.trans first.rootInode, second.dirs.trans first.dirs,
    fun fdIdx => (second.fdInode fdIdx).trans (first.fdInode fdIdx),
    fun ptr => (second.iOpenCnts ptr).trans (first.iOpenCnts ptr)⟩

theorem Quiet.bind {α β : Type} {call : Call α} {next : α → Call β} (first : Quiet call)
    (rest : ∀ a, Quiet (next a)) : Quiet (call >>= next) := by
  intro s b s' isRun
  obtain ⟨a, s₁, isFirst, isNext⟩ := bind_eq_some isRun
  exact (first s a s₁ isFirst).trans (rest a s₁ b s' isNext)

theorem quiet_pure {α : Type} (a : α) : Quiet (pure a) := by
  intro s b s' isRun
  cases isRun
  exact ⟨rfl, rfl, rfl, rfl, fun _ => rfl, fun _ => rfl⟩

theorem quiet_get : Quiet (get : Call State) := by
  intro s b s' isRun
  cases isRun
  exact ⟨rfl, rfl, rfl, rfl, fun _ => rfl, fun _ => rfl⟩

theorem quiet_failure {α : Type} : Quiet (failure : Call α) := by
  intro s b s' isRun
  cases isRun

theorem quiet_check (condition : Prop) [Decidable condition] : Quiet (check condition) := by
  intro s a s' isRun
  unfold check at isRun
  split at isRun
  · cases isRun
    exact ⟨rfl, rfl, rfl, rfl, fun _ => rfl, fun _ => rfl⟩
  · cases isRun

theorem quiet_deref (ptr : Option Ptr) : Quiet (deref ptr) := by
  intro s a s' isRun
  unfold deref at isRun
  obtain ⟨_, _, isPair⟩ := Option.map_eq_some_iff.mp isRun
  cases isPair
  exact ⟨rfl, rfl, rfl, rfl, fun _ => rfl, fun _ => rfl⟩

theorem quiet_onPart {α : Type} (step : Volume → Option (Volume × α)) : Quiet (onPart step) := by
  intro s a s' isRun
  unfold onPart at isRun
  obtain ⟨_, _, isPair⟩ := Option.map_eq_some_iff.mp isRun
  cases isPair
  exact ⟨rfl, rfl, rfl, rfl, fun _ => rfl, fun _ => rfl⟩

/-- The inode keeps its count. -/
theorem quiet_setInode {inode : MemInode} {a : Unit} (isRun : setInode ptr inode s = some (a, s'))
    (sameCnts : inode.iOpenCnts = (s.inode ptr).iOpenCnts) : SameTables s s' := by
  cases isRun
  refine ⟨rfl, rfl, rfl, rfl, fun _ => rfl, fun other => ?_⟩
  show (Function.update s.inode ptr inode other).iOpenCnts = _
  by_cases same : other = ptr
  · rw [same, Function.update_self, sameCnts]
  · rw [Function.update_of_ne same]

theorem quiet_setNode (ptr : Ptr) (node : InodeTable.Inode) : Quiet (setNode ptr node) := by
  intro s a s' isRun
  obtain ⟨read, s₁, isRead, isSet⟩ := bind_eq_some isRun
  cases isRead
  exact quiet_setInode isSet rfl

theorem quiet_setWriteDeny (ptr : Ptr) (value : Bool) : Quiet (setWriteDeny ptr value) := by
  intro s a s' isRun
  obtain ⟨read, s₁, isRead, isSet⟩ := bind_eq_some isRun
  cases isRead
  exact quiet_setInode isSet rfl

theorem quiet_setFd (fd : Nat) (globalFd : Option Nat) : Quiet (setFd fd globalFd) := by
  intro s a s' isRun
  cases isRun
  exact ⟨rfl, rfl, rfl, rfl, fun _ => rfl, fun _ => rfl⟩

/-! ### Blocks -/

/-- A block of the heap is allocated. -/
theorem Ledger.alloc (ledger : Ledger s₀ blocks refs s) (isFree : s.heap ptr = none)
    {pool : PoolFlags} (heap : s'.heap = Function.update s.heap ptr (some pool))
    (openInodes : s'.openInodes = s.openInodes) (rootInode : s'.rootInode = s.rootInode)
    (dirs : s'.dirs = s.dirs) (fileTable : s'.fileTable = s.fileTable) (inode : s'.inode = s.inode) :
    Ledger s₀ (ptr :: blocks) refs s' := by
  have sameBlocks : dirBlocks s' = dirBlocks s := by rw [dirBlocks, dirs]; rfl
  have notIn : ptr ∉ blocks ++ (dirBlocks s ++ s.openInodes) := fun mem => ledger.live ptr mem isFree
  have live : ∀ other, s.heap other ≠ none → s'.heap other ≠ none := by
    intro other isLive
    rw [heap]
    by_cases same : other = ptr
    · rw [same, Function.update_self]
      exact Option.some_ne_none pool
    · rw [Function.update_of_ne same]
      exact isLive
  have isLive : s'.heap ptr ≠ none := by
    rw [heap, Function.update_self]
    exact Option.some_ne_none pool
  refine ⟨?_, ?_, ?_, ?_, ?_, fun other => ?_⟩
  · rw [sameBlocks, openInodes]
    exact List.nodup_cons.mpr ⟨notIn, ledger.nodup⟩
  · rw [sameBlocks, openInodes]
    intro other mem
    rcases List.mem_cons.mp mem with rfl | mem
    · exact isLive
    · exact live other (ledger.live other mem)
  · intro other mem wasLive
    rw [openInodes] at mem
    rcases mem with mem | mem
    · rcases List.mem_cons.mp mem with rfl | mem
      · exact (ledger.lost other wasLive).resolve_left fun isLive => isLive isFree
      · exact ledger.old other (.inl mem) wasLive
    · exact ledger.old other (.inr mem) wasLive
  · intro other isLive
    rw [openInodes]
    by_cases same : other = ptr
    · exact .inr (.inl (List.mem_cons.mpr (.inl same)))
    · rw [heap, Function.update_of_ne same] at isLive
      exact (ledger.gained other isLive).imp_right (Or.imp_left (List.mem_cons_of_mem ptr))
  · intro other wasLive
    exact (ledger.lost other wasLive).imp_left (live other)
  · have sameRefs : references s' other = references s other := by
      unfold references fileRefs dirRefs
      rw [fileTable, dirs, rootInode]
    have sameOpen : openings s' other = openings s other := by
      unfold openings
      rw [openInodes, inode]
    rw [sameRefs, sameOpen]
    exact ledger.counted other

theorem sysMalloc_ensures (pgdirNull : Bool) :
    Ensures (Ledger s₀ blocks refs) (sysMalloc pgdirNull) fun ptr =>
      Ledger s₀ (ptr.toList ++ blocks) refs := by
  constructor
  intro s ptr s' ledger isRun
  unfold sysMalloc at isRun
  have same : SameTables s { s with asked := s.asked + 1 } :=
    ⟨rfl, rfl, rfl, rfl, fun _ => rfl, fun _ => rfl⟩
  split at isRun
  · cases isRun
    exact ledger.congr same
  · split at isRun
    · rename_i isFree
      cases isRun
      exact ledger.alloc isFree.1 rfl rfl rfl rfl rfl rfl
    · cases isRun
      exact ledger.congr same

theorem malloc_ensures :
    Ensures (Ledger s₀ blocks refs) malloc fun ptr => Ledger s₀ (ptr.toList ++ blocks) refs := by
  unfold malloc
  apply Ensures.bind quiet_get.ensures
  intro s
  exact sysMalloc_ensures _

theorem deref_ensures {pre : State → Prop} (ptr : Option Ptr) :
    Ensures pre (deref ptr) fun found s => pre s ∧ ptr = some found := by
  constructor
  intro s found s' holds isRun
  unfold deref at isRun
  obtain ⟨_, isSome, isPair⟩ := Option.map_eq_some_iff.mp isRun
  cases isPair
  exact ⟨holds, isSome⟩

theorem mallocUnchecked_ensures :
    Ensures (Ledger s₀ blocks refs) mallocUnchecked fun ptr => Ledger s₀ (ptr :: blocks) refs := by
  unfold mallocUnchecked
  apply Ensures.bind malloc_ensures
  intro answer
  refine (deref_ensures answer).mono (fun _ holds => holds) fun ptr s holds => ?_
  rw [holds.2] at holds
  exact holds.1

/-- A block that the call holds, or an inode off the list, is freed. -/
theorem Ledger.release (ledger : Ledger s₀ (ptr :: blocks) refs s)
    (heap : s'.heap = Function.update s.heap ptr none)
    (openInodes : s'.openInodes = s.openInodes) (rootInode : s'.rootInode = s.rootInode)
    (dirs : s'.dirs = s.dirs) (fileTable : s'.fileTable = s.fileTable) (inode : s'.inode = s.inode) :
    Ledger s₀ blocks refs s' := by
  have sameBlocks : dirBlocks s' = dirBlocks s := by rw [dirBlocks, dirs]; rfl
  obtain ⟨notIn, nodup⟩ := List.nodup_cons.mp ledger.nodup
  refine ⟨?_, ?_, ?_, ?_, ?_, fun other => ?_⟩
  · rw [sameBlocks, openInodes]
    exact nodup
  · rw [sameBlocks, openInodes]
    intro other mem
    have ne : other ≠ ptr := fun same => notIn (same ▸ mem)
    rw [heap, Function.update_of_ne ne]
    exact ledger.live other (List.mem_cons_of_mem ptr mem)
  · rw [openInodes]
    intro other mem
    exact ledger.old other (mem.imp_left (List.mem_cons_of_mem ptr))
  · intro other isLive
    rw [openInodes]
    by_cases same : other = ptr
    · rw [heap, same, Function.update_self] at isLive
      exact absurd rfl isLive
    · rw [heap, Function.update_of_ne same] at isLive
      rcases ledger.gained other isLive with wasLive | mem | mem
      · exact .inl wasLive
      · exact .inr (.inl ((List.mem_cons.mp mem).resolve_left same))
      · exact .inr (.inr mem)
  · intro other wasLive
    by_cases same : other = ptr
    · rw [same] at wasLive ⊢
      exact .inr (ledger.old ptr (.inl List.mem_cons_self) wasLive)
    · rw [heap, Function.update_of_ne same]
      exact ledger.lost other wasLive
  · have sameRefs : references s' other = references s other := by
      unfold references fileRefs dirRefs
      rw [fileTable, dirs, rootInode]
    have sameOpen : openings s' other = openings s other := by
      unfold openings
      rw [openInodes, inode]
    rw [sameRefs, sameOpen]
    exact ledger.counted other

/-- What `sys_free` asks of the block. -/
def MayFree (pgdirNull : Bool) (ptr : Ptr) (s : State) : Prop :=
  (pgdirNull → kHeapStart ≤ ptr) ∧ s.heap ptr = some (if pgdirNull then .kernel else .user)

theorem sysFree_eq {pgdirNull : Bool} (may : MayFree pgdirNull ptr s) :
    sysFree pgdirNull ptr s = some ((), { s with heap := Function.update s.heap ptr none }) :=
  if_pos may

theorem sysFree_eq_some {pgdirNull : Bool} {a : Unit} (isRun : sysFree pgdirNull ptr s = some (a, s')) :
    MayFree pgdirNull ptr s ∧ s' = { s with heap := Function.update s.heap ptr none } := by
  by_cases may : MayFree pgdirNull ptr s
  · rw [sysFree_eq may] at isRun
    cases isRun
    exact ⟨may, rfl⟩
  · have isNone : sysFree pgdirNull ptr s = none := if_neg may
    rw [isNone] at isRun
    cases isRun

theorem sysFree_ensures (pgdirNull : Bool) (ptr : Ptr) :
    Ensures (Ledger s₀ (ptr :: blocks) refs) (sysFree pgdirNull ptr) fun _ => Ledger s₀ blocks refs := by
  constructor
  intro s _ s' ledger isRun
  obtain ⟨_, rfl⟩ := sysFree_eq_some isRun
  exact ledger.release rfl rfl rfl rfl rfl rfl

theorem free_ensures (ptr : Ptr) :
    Ensures (Ledger s₀ (ptr :: blocks) refs) (free ptr) fun _ => Ledger s₀ blocks refs := by
  unfold free
  apply Ensures.bind quiet_get.ensures
  intro s
  exact sysFree_ensures _ ptr

/-! ### Inodes -/

theorem Ledger.mem_openInodes (ledger : Ledger s₀ blocks (ptr :: refs) s) : ptr ∈ s.openInodes := by
  by_contra notIn
  have counted := ledger.counted ptr
  rw [openings, if_neg notIn, List.count_cons_self] at counted
  omega

/-- The references that a call has to an inode change with the count of the inode. -/
theorem Ledger.recount (ledger : Ledger s₀ blocks refs s) {inode : MemInode}
    (others : ∀ other, other ≠ ptr → refs'.count other = refs.count other)
    (counted : refs'.count ptr + references s ptr ≤ if ptr ∈ s.openInodes then inode.iOpenCnts else 0) :
    Ledger s₀ blocks refs' { s with inode := Function.update s.inode ptr inode } := by
  refine ⟨ledger.nodup, ledger.live, ledger.old, ledger.gained, ledger.lost, fun other => ?_⟩
  show refs'.count other + references s other ≤
    if other ∈ s.openInodes then (Function.update s.inode ptr inode other).iOpenCnts else 0
  by_cases same : other = ptr
  · rw [same, Function.update_self]
    exact counted
  · rw [Function.update_of_ne same, others other same]
    exact ledger.counted other

/-- A block that the call holds is put on the list as an inode. -/
theorem Ledger.link (ledger : Ledger s₀ (ptr :: blocks) refs s) {inode : MemInode} {count : Nat}
    (others : ∀ other, other ≠ ptr → refs'.count other = refs.count other)
    (referenced : references s ptr ≤ count)
    (counted : refs'.count ptr + count ≤ inode.iOpenCnts) :
    Ledger s₀ blocks refs' { s with
      inode := Function.update s.inode ptr inode
      openInodes := ptr :: s.openInodes } := by
  have toEnd : (ptr :: (blocks ++ (dirBlocks s ++ s.openInodes))).Perm
      (blocks ++ (dirBlocks s ++ ptr :: s.openInodes)) := by
    rw [← List.append_assoc, ← List.append_assoc]
    exact List.perm_middle.symm
  refine ⟨toEnd.nodup_iff.mp ledger.nodup, fun other mem => ledger.live other (toEnd.mem_iff.mpr mem),
    ?_, ?_, ledger.lost, fun other => ?_⟩
  · intro other mem
    apply ledger.old other
    rcases mem with mem | mem
    · exact .inl (List.mem_cons_of_mem ptr mem)
    · rcases List.mem_cons.mp mem with rfl | mem
      · exact .inl List.mem_cons_self
      · exact .inr mem
  · intro other isLive
    rcases ledger.gained other isLive with wasLive | mem | mem
    · exact .inl wasLive
    · rcases List.mem_cons.mp mem with rfl | mem
      · exact .inr (.inr List.mem_cons_self)
      · exact .inr (.inl mem)
    · exact .inr (.inr (List.mem_cons_of_mem ptr mem))
  · show refs'.count other + references s other ≤
      if other ∈ ptr :: s.openInodes then (Function.update s.inode ptr inode other).iOpenCnts else 0
    by_cases same : other = ptr
    · rw [same, Function.update_self, if_pos List.mem_cons_self]
      omega
    · have sameMem : other ∈ ptr :: s.openInodes ↔ other ∈ s.openInodes :=
        ⟨fun mem => (List.mem_cons.mp mem).resolve_left same, List.mem_cons_of_mem ptr⟩
      have old := ledger.counted other
      rw [Function.update_of_ne same, others other same]
      simp only [openings, sameMem] at old ⊢
      exact old

theorem count_cons_other {other : Ptr} (ne : other ≠ ptr) : (ptr :: refs).count other = refs.count other :=
  List.count_cons_of_ne ne.symm

/-- Nothing refers to a block that the call holds. -/
theorem Ledger.references_eq_zero (ledger : Ledger s₀ blocks refs s) (notIn : ptr ∉ s.openInodes) :
    refs.count ptr = 0 ∧ references s ptr = 0 := by
  have counted := ledger.counted ptr
  rw [openings, if_neg notIn] at counted
  omega

theorem Ledger.notMem_openInodes (ledger : Ledger s₀ (ptr :: blocks) refs s) : ptr ∉ s.openInodes := by
  intro mem
  apply (List.nodup_cons.mp ledger.nodup).1
  exact List.mem_append_right _ (List.mem_append_right _ mem)

theorem pushInode_ensures (ptr : Ptr) (node : InodeTable.Inode) (writeDeny : Bool) :
    Ensures (Ledger s₀ (ptr :: blocks) refs) (pushInode ptr node writeDeny) fun _ =>
      Ledger s₀ blocks (ptr :: refs) := by
  constructor
  intro s _ s' ledger isRun
  obtain ⟨noRefs, noReferences⟩ := ledger.references_eq_zero ledger.notMem_openInodes
  cases isRun
  apply ledger.link (fun other ne => count_cons_other ne) (Nat.le_of_eq noReferences)
  rw [List.count_cons_self, noRefs]

theorem inodeOpen_ensures (inodeNo : Nat) :
    Ensures (Ledger s₀ blocks refs) (inodeOpen inodeNo) fun ptr => Ledger s₀ blocks (ptr :: refs) := by
  unfold inodeOpen
  apply Ensures.bind Ensures.get
  intro s
  cases found : s.openInodes.find? fun ptr => (s.inode ptr).iNo = inodeNo with
  | some ptr =>
      constructor
      intro s₁ a s' holds isRun
      obtain ⟨ledger, rfl⟩ := holds
      cases isRun
      have mem : ptr ∈ s.openInodes := List.mem_of_find?_eq_some found
      have counted := ledger.counted ptr
      apply ledger.recount (fun other ne => count_cons_other ne)
      rw [openings, if_pos mem] at counted
      rw [if_pos mem, List.count_cons_self]
      show _ ≤ (s.inode ptr).iOpenCnts + 1
      omega
  | none =>
      apply Ensures.bind ((quiet_onPart _).ensures.strengthen fun _ holds => holds.1)
      intro node
      apply Ensures.bind (sysMalloc_ensures true)
      intro inodeFound
      apply Ensures.bind mallocUnchecked_ensures
      intro inodeBuf
      apply Ensures.bind (deref_ensures inodeFound)
      intro ptr
      have push := @pushInode_ensures s₀ (inodeBuf :: blocks) refs ptr node (node.writeDeny != 0)
      apply Ensures.bind (push.strengthen fun s holds => ?_)
      · intro _
        apply Ensures.bind (free_ensures inodeBuf)
        intro _
        exact Ensures.pure fun s ledger => ledger
      · obtain ⟨ledger, rfl⟩ := holds
        exact ledger.perm (List.Perm.swap _ _ _) (.refl _)

/-- An inode to which nothing refers leaves the list; the call holds its block. -/
theorem Ledger.unlink (ledger : Ledger s₀ blocks refs s) (mem : ptr ∈ s.openInodes)
    (noCnts : (s.inode ptr).iOpenCnts = 0) :
    Ledger s₀ (ptr :: blocks) refs { s with openInodes := s.openInodes.erase ptr } := by
  have isPerm : s.openInodes.Perm (ptr :: s.openInodes.erase ptr) := List.perm_cons_erase mem
  have toFront : (blocks ++ (dirBlocks s ++ s.openInodes)).Perm
      (ptr :: (blocks ++ (dirBlocks s ++ s.openInodes.erase ptr))) := by
    refine ((isPerm.append_left _).append_left _).trans ?_
    rw [← List.append_assoc, ← List.append_assoc]
    exact List.perm_middle
  refine ⟨toFront.nodup_iff.mp ledger.nodup,
    fun other isIn => ledger.live other (toFront.mem_iff.mpr isIn), ?_, ?_, ledger.lost,
    fun other => ?_⟩
  · intro other isIn
    apply ledger.old other
    rcases isIn with isIn | isIn
    · rcases List.mem_cons.mp isIn with rfl | isIn
      · exact .inr mem
      · exact .inl isIn
    · exact .inr (List.mem_of_mem_erase isIn)
  · intro other isLive
    rcases ledger.gained other isLive with wasLive | isIn | isIn
    · exact .inl wasLive
    · exact .inr (.inl (List.mem_cons_of_mem ptr isIn))
    · rcases List.mem_cons.mp (isPerm.mem_iff.mp isIn) with rfl | isIn
      · exact .inr (.inl List.mem_cons_self)
      · exact .inr (.inr isIn)
  · have counted := ledger.counted other
    show refs.count other + references s other ≤
      if other ∈ s.openInodes.erase ptr then (s.inode other).iOpenCnts else 0
    by_cases same : other = ptr
    · rw [openings, same, if_pos mem, noCnts] at counted
      rw [same]
      exact counted.trans (Nat.zero_le _)
    · simp only [openings, List.mem_erase_of_ne same] at counted ⊢
      exact counted

/-- The inode with one opening less. -/
def countedDown (s : State) (ptr : Ptr) : State :=
  { s with
    inode := Function.update s.inode ptr
      { s.inode ptr with iOpenCnts := OpenFiles.countDown (s.inode ptr).iOpenCnts } }

/-- What `inode_close` does: at zero the inode leaves the list and is freed. -/
theorem inodeClose_eq (ptr : Ptr) (s : State) :
    inodeClose ptr s =
      if OpenFiles.countDown (s.inode ptr).iOpenCnts = 0 then
        sysFree true ptr { countedDown s ptr with openInodes := s.openInodes.erase ptr }
      else
        some ((), countedDown s ptr) := by
  have first : inodeClose ptr s =
      (if OpenFiles.countDown (s.inode ptr).iOpenCnts = 0 then do
        unlinkInode ptr
        sysFree true ptr
      else
        pure () : Call Unit) (countedDown s ptr) := rfl
  rw [first]
  split <;> rfl

theorem inodeClose_ensures (ptr : Ptr) :
    Ensures (Ledger s₀ blocks (ptr :: refs)) (inodeClose ptr) fun _ => Ledger s₀ blocks refs := by
  constructor
  intro s _ s' ledger isRun
  have mem := ledger.mem_openInodes
  have counted := ledger.counted ptr
  rw [openings, if_pos mem, List.count_cons_self] at counted
  have isDown : OpenFiles.countDown (s.inode ptr).iOpenCnts = (s.inode ptr).iOpenCnts - 1 :=
    if_neg (by omega)
  have closed : Ledger s₀ blocks refs (countedDown s ptr) := by
    apply ledger.recount (fun other ne => (count_cons_other ne).symm)
    rw [if_pos mem]
    show _ ≤ OpenFiles.countDown (s.inode ptr).iOpenCnts
    omega
  rw [inodeClose_eq] at isRun
  by_cases isZero : OpenFiles.countDown (s.inode ptr).iOpenCnts = 0
  · rw [if_pos isZero] at isRun
    have noCnts : ((countedDown s ptr).inode ptr).iOpenCnts = 0 := by
      simp only [countedDown, Function.update_self]
      exact isZero
    exact (sysFree_ensures true ptr).returns (closed.unlink mem noCnts) isRun
  · rw [if_neg isZero] at isRun
    cases isRun
    exact closed

/-- The inode is opened and closed, and a buffer allocated and freed. -/
theorem inodeRelease_ensures (inodeNo : Nat) :
    Ensures (Ledger s₀ blocks refs) (inodeRelease inodeNo) fun _ => Ledger s₀ blocks refs := by
  unfold inodeRelease
  apply Ensures.bind (inodeOpen_ensures inodeNo)
  intro inodeToDel
  apply Ensures.bind quiet_get.ensures
  intro s
  apply Ensures.bind (quiet_check _).ensures
  intro _
  apply Ensures.bind (quiet_onPart _).ensures
  intro _
  apply Ensures.bind mallocUnchecked_ensures
  intro ioBuf
  apply Ensures.bind (quiet_onPart _).ensures
  intro _
  apply Ensures.bind (free_ensures ioBuf)
  intro _
  exact inodeClose_ensures inodeToDel

/-! ### Directories -/

/-- An account of the blocks that a call holds and of the inodes that it has opened. -/
structure Accounts (held : List Ptr → List Ptr → State → Prop) : Prop where
  perm : ∀ {blocks blocks' refs refs' s}, held blocks refs s → blocks.Perm blocks' → refs.Perm refs' →
    held blocks' refs' s
  ofMalloc : ∀ blocks refs, Ensures (held blocks refs) malloc fun ptr => held (ptr.toList ++ blocks) refs
  ofFree : ∀ ptr blocks refs, Ensures (held (ptr :: blocks) refs) (free ptr) fun _ => held blocks refs
  ofInodeOpen : ∀ inodeNo blocks refs,
    Ensures (held blocks refs) (inodeOpen inodeNo) fun ptr => held blocks (ptr :: refs)
  ofInodeClose : ∀ ptr blocks refs,
    Ensures (held blocks (ptr :: refs)) (inodeClose ptr) fun _ => held blocks refs

section Accounts

variable {held : List Ptr → List Ptr → State → Prop}

theorem Accounts.mallocUnchecked (accounts : Accounts held) :
    Ensures (held blocks refs) mallocUnchecked fun ptr => held (ptr :: blocks) refs := by
  unfold Calls.mallocUnchecked
  apply Ensures.bind (accounts.ofMalloc blocks refs)
  intro answer
  refine (deref_ensures answer).mono (fun _ holds => holds) fun ptr s holds => ?_
  rw [holds.2] at holds
  exact holds.1

theorem Accounts.dirOpen (accounts : Accounts held) (inodeNo : Nat) :
    Ensures (held blocks refs) (dirOpen inodeNo) fun dir =>
      held (dir.ownBlock ++ blocks) (dir.ownRef ++ refs) := by
  unfold Calls.dirOpen
  apply Ensures.bind (accounts.ofMalloc blocks refs)
  intro answer
  apply Ensures.bind (accounts.ofInodeOpen inodeNo _ _)
  intro inode
  apply Ensures.bind (deref_ensures answer)
  intro pdir
  apply Ensures.pure
  rintro s ⟨holds, rfl⟩
  exact holds

theorem Accounts.dirClose (accounts : Accounts held) (dir : Dir) :
    Ensures (held (dir.ownBlock ++ blocks) (dir.ownRef ++ refs)) (dirClose dir) fun _ =>
      held blocks refs := by
  obtain ⟨block, inode⟩ := dir
  cases block with
  | none => exact Ensures.pure fun s holds => holds
  | some block =>
      apply Ensures.bind (accounts.ofInodeClose inode _ _)
      intro _
      exact accounts.ofFree block _ _

theorem Accounts.searchDirEntry (accounts : Accounts held) (pdir : Dir) (name : List UInt8) :
    Ensures (held blocks refs) (searchDirEntry pdir name) fun _ => held blocks refs := by
  unfold Calls.searchDirEntry
  apply Ensures.bind (accounts.ofMalloc blocks refs)
  intro answer
  cases answer with
  | none => exact Ensures.pure fun s holds => holds
  | some allBlocks =>
      apply Ensures.bind accounts.mallocUnchecked
      intro buf
      apply Ensures.bind Ensures.read
      intro s
      apply Ensures.bind (accounts.ofFree buf _ _)
      intro _
      apply Ensures.bind (accounts.ofFree allBlocks _ _)
      intro _
      exact Ensures.pure fun s holds => holds

end Accounts

theorem ledger_accounts (s₀ : State) : Accounts (Ledger s₀) where
  perm := Ledger.perm
  ofMalloc _ _ := malloc_ensures
  ofFree ptr _ _ := free_ensures ptr
  ofInodeOpen inodeNo _ _ := inodeOpen_ensures inodeNo
  ofInodeClose ptr _ _ := inodeClose_ensures ptr

theorem dirOpen_ensures (inodeNo : Nat) :
    Ensures (Ledger s₀ blocks refs) (dirOpen inodeNo) fun dir =>
      Ledger s₀ (dir.ownBlock ++ blocks) (dir.ownRef ++ refs) :=
  (ledger_accounts s₀).dirOpen inodeNo

theorem dirClose_ensures (dir : Dir) :
    Ensures (Ledger s₀ (dir.ownBlock ++ blocks) (dir.ownRef ++ refs)) (dirClose dir) fun _ =>
      Ledger s₀ blocks refs :=
  (ledger_accounts s₀).dirClose dir

theorem quiet_syncDirEntry (parentDir : Dir) (pDe : DirEntry) : Quiet (syncDirEntry parentDir pDe) :=
  quiet_get.bind fun _ => (quiet_onPart _).bind fun _ => (quiet_setNode _ _).bind fun _ => quiet_pure _

theorem quiet_deleteDirEntry (fuel : Nat) (pdir : Dir) (inodeNo : Nat) :
    Quiet (deleteDirEntry fuel pdir inodeNo) :=
  quiet_get.bind fun _ => (quiet_onPart _).bind fun _ => (quiet_setNode _ _).bind fun _ => quiet_pure _

theorem dirRemove_ensures (fuel : Nat) (parentDir childDir : Dir) :
    Ensures (Ledger s₀ blocks refs) (dirRemove fuel parentDir childDir) fun _ =>
      Ledger s₀ blocks refs := by
  unfold dirRemove
  apply Ensures.bind quiet_get.ensures
  intro s
  apply Ensures.bind (quiet_check _).ensures
  intro _
  apply Ensures.bind malloc_ensures
  intro answer
  cases answer with
  | none => exact Ensures.pure fun s ledger => ledger
  | some ioBuf =>
      apply Ensures.bind (quiet_deleteDirEntry _ _ _).ensures
      intro _
      apply Ensures.bind (inodeRelease_ensures _)
      intro _
      apply Ensures.bind (free_ensures ioBuf)
      intro _
      exact Ensures.pure fun s ledger => ledger

end ZyOs.Fs.Calls
