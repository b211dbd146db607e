import ZyOs.Fs.OpenFiles
import ZyOs.Lib.OnePlace
import Mathlib.Data.List.Count

/-!
Contract: the references to open inodes.

`Tables s held` says that every reference, from a slot of `file_table`, from a
`struct dir` or from the call that is running (`held`), is to an inode on the
open list, and that `i_open_cnts` is at least the number of references. It may
be more: `sys_fork` counts descriptors and not slots.
-/

namespace ZyOs.Fs

open ZyOs.Memory ZyOs.Lib

namespace OpenFiles

/-- The slots that refer to an inode. -/
def slotRefs (s : OpenFiles) (ptr : InodePtr) : Nat :=
  (List.range maxFileOpen).countP fun fdIdx => decide ((s.fileTable fdIdx).fdInode = some ptr)

structure Tables (s : OpenFiles) (held : List InodePtr) : Prop where
  nodup : s.openInodes.Nodup
  live : ∀ ptr ∈ s.openInodes, s.heap ptr ≠ none
  slotLt : ∀ fdIdx, (s.fileTable fdIdx).fdInode ≠ none → fdIdx < maxFileOpen
  slot : ∀ fdIdx ptr, (s.fileTable fdIdx).fdInode = some ptr → ptr ∈ s.openInodes
  dir : ∀ ptr ∈ s.dirs, ptr ∈ s.openInodes
  heldOpen : ∀ ptr ∈ held, ptr ∈ s.openInodes
  counts : ∀ ptr ∈ s.openInodes,
    s.slotRefs ptr + s.dirs.count ptr + held.count ptr ≤ (s.inode ptr).iOpenCnts

variable {s s' : OpenFiles} {held : List InodePtr} {ptr : InodePtr}

/-- A change that touches neither the references nor the counts. -/
theorem Tables.congr (tables : s.Tables held) (openInodes : s'.openInodes = s.openInodes)
    (heap : ∀ ptr ∈ s.openInodes, s'.heap ptr ≠ none) (fileTable : s'.fileTable = s.fileTable)
    (dirs : s'.dirs = s.dirs)
    (counts : ∀ ptr ∈ s.openInodes, (s.inode ptr).iOpenCnts ≤ (s'.inode ptr).iOpenCnts) :
    s'.Tables held := by
  have sameRefs : ∀ ptr, s'.slotRefs ptr = s.slotRefs ptr := by
    intro ptr
    simp only [slotRefs, fileTable]
  constructor
  case nodup =>
    rw [openInodes]
    exact tables.nodup
  case live =>
    rw [openInodes]
    exact heap
  case slotLt =>
    rw [fileTable]
    exact tables.slotLt
  case slot =>
    rw [fileTable, openInodes]
    exact tables.slot
  case dir =>
    rw [dirs, openInodes]
    exact tables.dir
  case heldOpen =>
    rw [openInodes]
    exact tables.heldOpen
  case counts =>
    intro ptr mem
    rw [openInodes] at mem
    rw [sameRefs, dirs]
    exact (tables.counts ptr mem).trans (counts ptr mem)

theorem Tables.setWriteDeny (tables : s.Tables held) (ptr : InodePtr) (value : Bool) :
    (s.setWriteDeny ptr value).Tables held := by
  refine tables.congr rfl tables.live rfl rfl fun other _ => ?_
  by_cases same : other = ptr
  · subst same
    simp [OpenFiles.setWriteDeny, setInode]
  · simp [OpenFiles.setWriteDeny, setInode, same]

/-- A block that is not in use is no inode of the list. -/
theorem Tables.not_mem (tables : s.Tables held) (notLive : s.heap ptr = none) :
    ptr ∉ s.openInodes :=
  fun mem => tables.live ptr mem notLive

/-- Nothing refers to an inode that is not on the list. -/
theorem Tables.refs_eq_zero (tables : s.Tables held) (notOpen : ptr ∉ s.openInodes) :
    s.slotRefs ptr = 0 ∧ s.dirs.count ptr = 0 ∧ held.count ptr = 0 := by
  refine ⟨?_, ?_, ?_⟩
  · rw [slotRefs, List.countP_eq_zero]
    intro fdIdx _ isRef
    exact notOpen (tables.slot fdIdx ptr (of_decide_eq_true isRef))
  · exact List.count_eq_zero.mpr fun mem => notOpen (tables.dir ptr mem)
  · exact List.count_eq_zero.mpr fun mem => notOpen (tables.heldOpen ptr mem)

/-- An inode on the list is opened once more. -/
theorem Tables.countUp (tables : s.Tables held) (isOpen : ptr ∈ s.openInodes) :
    (s.countUp ptr).Tables (ptr :: held) := by
  have counts : ∀ other, ((s.countUp ptr).inode other).iOpenCnts =
      (s.inode other).iOpenCnts + if other = ptr then 1 else 0 := by
    intro other
    by_cases same : other = ptr
    · subst same
      simp [OpenFiles.countUp, setInode]
    · simp [OpenFiles.countUp, setInode, same]
  refine ⟨tables.nodup, tables.live, tables.slotLt, tables.slot, tables.dir, ?_, ?_⟩
  · intro other mem
    rcases List.mem_cons.mp mem with rfl | mem
    · exact isOpen
    · exact tables.heldOpen other mem
  · intro other mem
    have sum := tables.counts other mem
    have sameRefs : (s.countUp ptr).slotRefs other = s.slotRefs other := rfl
    have sameDirs : (s.countUp ptr).dirs = s.dirs := rfl
    rw [counts, sameRefs, sameDirs]
    by_cases same : other = ptr
    · subst same
      rw [List.count_cons_self, if_pos rfl]
      omega
    · rw [List.count_cons_of_ne (Ne.symm same), if_neg same]
      exact sum

/-- A new inode at the front of the list. -/
theorem Tables.newInode (tables : s.Tables held) (notLive : s.heap ptr = none) (pool : PoolFlags)
    (inode : Inode) (counted : 1 ≤ inode.iOpenCnts) :
    Tables { s with
      heap := Function.update s.heap ptr (some pool)
      inode := Function.update s.inode ptr inode
      openInodes := ptr :: s.openInodes } (ptr :: held) := by
  have notOpen := tables.not_mem notLive
  obtain ⟨noSlot, noDir, noHeld⟩ := tables.refs_eq_zero notOpen
  constructor
  case nodup => exact List.nodup_cons.mpr ⟨notOpen, tables.nodup⟩
  case live =>
    intro other mem
    by_cases same : other = ptr
    · subst same
      simp
    · have mem : other ∈ s.openInodes := (List.mem_cons.mp mem).resolve_left same
      simpa [same] using tables.live other mem
  case slotLt => exact tables.slotLt
  case slot => exact fun fdIdx other isRef => List.mem_cons_of_mem _ (tables.slot fdIdx other isRef)
  case dir => exact fun other mem => List.mem_cons_of_mem _ (tables.dir other mem)
  case heldOpen =>
    intro other mem
    rcases List.mem_cons.mp mem with rfl | mem
    · exact List.mem_cons_self
    · exact List.mem_cons_of_mem _ (tables.heldOpen other mem)
  case counts =>
    intro other mem
    by_cases same : other = ptr
    · subst same
      simp only [slotRefs, Function.update_self, List.count_cons_self] at noSlot ⊢
      omega
    · have mem : other ∈ s.openInodes := (List.mem_cons.mp mem).resolve_left same
      have := tables.counts other mem
      simpa [slotRefs, Function.update_of_ne same, List.count_cons_of_ne (Ne.symm same)] using this

/-! ### Slots -/

/-- The slots that refer to an inode, when one slot changes. -/
theorem slotRefs_setFile (s : OpenFiles) {fdIdx : Nat} (inTable : fdIdx < maxFileOpen) (file : File)
    (ptr : InodePtr) :
    (s.setFile fdIdx file).slotRefs ptr + (if (s.fileTable fdIdx).fdInode = some ptr then 1 else 0) =
      s.slotRefs ptr + if file.fdInode = some ptr then 1 else 0 := by
  have one := @countP_one_place _ _ List.nodup_range fdIdx (List.mem_range.mpr inTable)
    (fun idx => decide ((s.fileTable idx).fdInode = some ptr))
    (fun idx => decide ((Function.update s.fileTable fdIdx file idx).fdInode = some ptr))
    fun other _ ne => by rw [Function.update_of_ne ne]
  rw [Function.update_self] at one
  simp only [decide_eq_true_eq] at one
  exact one

/-- A free slot takes over a reference. -/
theorem Tables.setFile_some (tables : s.Tables (ptr :: held)) {fdIdx : Nat}
    (inTable : fdIdx < maxFileOpen) (isFree : (s.fileTable fdIdx).fdInode = none) {file : File}
    (refers : file.fdInode = some ptr) : (s.setFile fdIdx file).Tables held := by
  have refs := s.slotRefs_setFile inTable file
  refine ⟨tables.nodup, tables.live, fun idx taken => ?_, fun idx other isRef => ?_, tables.dir,
    fun other mem => tables.heldOpen other (List.mem_cons_of_mem _ mem), fun other mem => ?_⟩
  · by_cases same : idx = fdIdx
    · rw [same]
      exact inTable
    · simp only [OpenFiles.setFile, Function.update_of_ne same] at taken
      exact tables.slotLt idx taken
  · by_cases same : idx = fdIdx
    · subst same
      simp only [OpenFiles.setFile, Function.update_self, refers, Option.some.injEq] at isRef
      subst isRef
      exact tables.heldOpen ptr List.mem_cons_self
    · simp only [OpenFiles.setFile, Function.update_of_ne same] at isRef
      exact tables.slot idx other isRef
  · have sum := tables.counts other mem
    have := refs other
    rw [List.count_cons] at sum
    simp only [isFree, refers, Option.some.injEq, reduceCtorEq, if_false] at this
    simp only [OpenFiles.setFile] at this ⊢
    by_cases same : ptr = other
    · simp only [same, if_true, beq_self_eq_true] at this sum
      omega
    · have notSame : (ptr == other) = false := by simpa using same
      simp only [same, notSame, if_false, Bool.false_eq_true] at this sum
      omega

/-- A slot gives up its reference. -/
theorem Tables.setFile_none (tables : s.Tables held) {fdIdx : Nat}
    (refers : (s.fileTable fdIdx).fdInode = some ptr) {file : File}
    (isNone : file.fdInode = none) : (s.setFile fdIdx file).Tables (ptr :: held) := by
  have inTable := tables.slotLt fdIdx (by simp [refers])
  have refs := s.slotRefs_setFile inTable file
  refine ⟨tables.nodup, tables.live, fun idx taken => ?_, fun idx other isRef => ?_, tables.dir,
    fun other mem => ?_, fun other mem => ?_⟩
  · by_cases same : idx = fdIdx
    · rw [same]
      exact inTable
    · simp only [OpenFiles.setFile, Function.update_of_ne same] at taken
      exact tables.slotLt idx taken
  · by_cases same : idx = fdIdx
    · subst same
      simp [OpenFiles.setFile, isNone] at isRef
    · simp only [OpenFiles.setFile, Function.update_of_ne same] at isRef
      exact tables.slot idx other isRef
  · rcases List.mem_cons.mp mem with rfl | mem
    · exact tables.slot fdIdx other refers
    · exact tables.heldOpen other mem
  · have sum := tables.counts other mem
    have := refs other
    rw [List.count_cons]
    simp only [isNone, refers, Option.some.injEq, reduceCtorEq, if_false] at this
    simp only [OpenFiles.setFile] at this ⊢
    by_cases same : ptr = other
    · simp only [same, if_true, beq_self_eq_true] at this ⊢
      omega
    · have notSame : (ptr == other) = false := by simpa using same
      simp only [same, notSame, if_false, Bool.false_eq_true] at this ⊢
      omega

/-! ### `inode_open` and `inode_close` -/

/-- Either an inode of the list is opened once more, or a new one is put on the
list. -/
theorem inodeOpen_cases {iNo : Nat} {found : InodePtr}
    (opened : s.inodeOpen iNo ptr = some (s', found)) :
    (found ∈ s.openInodes ∧ (s.inode found).iNo = iNo ∧ s' = s.countUp found) ∨
    (found = ptr ∧ s.heap ptr = none ∧ kHeapStart ≤ ptr ∧
      (∀ other ∈ s.openInodes, (s.inode other).iNo ≠ iNo) ∧ s' = { s with
        heap := Function.update s.heap ptr (some .kernel)
        inode := Function.update s.inode ptr ⟨iNo, 1, false⟩
        openInodes := ptr :: s.openInodes }) := by
  unfold inodeOpen at opened
  split at opened
  · rename_i other isFound
    cases opened
    have isNo := List.find?_some isFound
    exact .inl ⟨List.mem_of_find?_eq_some isFound, by simpa using isNo, rfl⟩
  · rename_i notFound
    split at opened
    · simp only [sysMalloc, Option.bind_eq_bind] at opened
      split at opened
      · rename_i notLive
        cases opened
        refine .inr ⟨rfl, notLive.1, by simpa [inHeap] using notLive.2,
          fun other mem same => ?_, rfl⟩
        have := List.find?_eq_none.mp notFound other mem
        simp [same] at this
      · cases opened
    · cases opened

theorem Tables.inodeOpen (tables : s.Tables held) {iNo : Nat} {found : InodePtr}
    (opened : s.inodeOpen iNo ptr = some (s', found)) : s'.Tables (found :: held) := by
  rcases inodeOpen_cases opened with ⟨mem, _, rfl⟩ | ⟨rfl, notLive, _, _, rfl⟩
  · exact tables.countUp mem
  · exact tables.newInode notLive .kernel _ (le_refl 1)

/-- A block can be freed with the `pgdir` it was allocated with. -/
theorem sysFree_of_heap {pgdirNull : Bool} (isIn : inHeap pgdirNull ptr = true)
    (heap : s.heap ptr = some (if pgdirNull then .kernel else .user)) :
    s.sysFree pgdirNull ptr = some { s with heap := Function.update s.heap ptr none } := by
  refine if_pos ⟨fun isKernel => ?_, heap⟩
  simpa [inHeap, isKernel] using isIn

theorem sysFree_kernel (s : OpenFiles) (ptr : InodePtr) :
    s.sysFree true ptr = if kHeapStart ≤ ptr ∧ s.heap ptr = some .kernel then
      some { s with heap := Function.update s.heap ptr none } else none := by
  simp [sysFree]

/-- Either the count goes down, or the inode leaves the list and its block is
freed to the kernel pool. -/
theorem inodeClose_cases (closed : s.inodeClose ptr = some s') :
    (countDown (s.inode ptr).iOpenCnts ≠ 0 ∧
      s' = s.setInode ptr { s.inode ptr with iOpenCnts := countDown (s.inode ptr).iOpenCnts }) ∨
    (countDown (s.inode ptr).iOpenCnts = 0 ∧ (kHeapStart ≤ ptr ∧ s.heap ptr = some .kernel) ∧
      s' = { s with
        heap := Function.update s.heap ptr none
        inode := Function.update s.inode ptr { s.inode ptr with iOpenCnts := 0 }
        openInodes := s.openInodes.erase ptr }) := by
  simp only [inodeClose, sysFree_kernel] at closed
  split at closed
  · rename_i isZero
    by_cases isKernel : kHeapStart ≤ ptr ∧ s.heap ptr = some .kernel
    · rw [if_pos (by exact isKernel)] at closed
      cases closed
      refine .inr ⟨isZero, isKernel, ?_⟩
      simp [setInode, isZero]
    · rw [if_neg (by exact isKernel)] at closed
      cases closed
  · rename_i notZero
    cases closed
    exact .inl ⟨notZero, rfl⟩

theorem Tables.inodeClose (tables : s.Tables (ptr :: held))
    (closed : s.inodeClose ptr = some s') : s'.Tables held := by
  have isOpen := tables.heldOpen ptr List.mem_cons_self
  have sum := tables.counts ptr isOpen
  rw [List.count_cons_self] at sum
  have heldOpen : ∀ other ∈ held, other ∈ s.openInodes := fun other mem =>
    tables.heldOpen other (List.mem_cons_of_mem _ mem)
  have down : countDown (s.inode ptr).iOpenCnts = (s.inode ptr).iOpenCnts - 1 := by
    rw [countDown, if_neg (by omega)]
  rcases inodeClose_cases closed with ⟨_, rfl⟩ | ⟨isZero, _, rfl⟩
  · refine ⟨tables.nodup, tables.live, tables.slotLt, tables.slot, tables.dir, heldOpen,
      fun other mem => ?_⟩
    have sum' := tables.counts other mem
    show s.slotRefs other + s.dirs.count other + held.count other ≤ _
    by_cases same : other = ptr
    · subst same
      simp only [setInode, Function.update_self, down]
      omega
    · rw [List.count_cons_of_ne (Ne.symm same)] at sum'
      simpa [setInode, same] using sum'
  · -- it was the last reference
    have noSlot : s.slotRefs ptr = 0 := by omega
    have noDir : s.dirs.count ptr = 0 := by omega
    have noHeld : held.count ptr = 0 := by omega
    rw [slotRefs, List.countP_eq_zero] at noSlot
    rw [List.count_eq_zero] at noDir noHeld
    have stays : ∀ other, other ≠ ptr → other ∈ s.openInodes → other ∈ s.openInodes.erase ptr :=
      fun other ne mem => (List.mem_erase_of_ne ne).mpr mem
    have notPtr : ∀ other ∈ s.openInodes.erase ptr, other ≠ ptr := by
      rintro other mem rfl
      exact (List.Nodup.mem_erase_iff tables.nodup).mp mem |>.1 rfl
    constructor
    case nodup => exact tables.nodup.erase ptr
    case live =>
      intro other mem
      simpa [notPtr other mem] using tables.live other (List.mem_of_mem_erase mem)
    case slotLt => exact tables.slotLt
    case slot =>
      intro fdIdx other isRef
      refine stays other ?_ (tables.slot fdIdx other isRef)
      rintro rfl
      refine noSlot fdIdx (List.mem_range.mpr (tables.slotLt fdIdx ?_)) (by simpa using isRef)
      rw [isRef]
      simp
    case dir =>
      intro other mem
      refine stays other ?_ (tables.dir other mem)
      rintro rfl
      exact noDir mem
    case heldOpen =>
      intro other mem
      refine stays other ?_ (heldOpen other mem)
      rintro rfl
      exact noHeld mem
    case counts =>
      intro other mem
      have ne := notPtr other mem
      have sum' := tables.counts other (List.mem_of_mem_erase mem)
      rw [List.count_cons_of_ne (Ne.symm ne)] at sum'
      simpa [slotRefs, ne] using sum'

/-- An inode of the kernel pool can be closed. -/
theorem inodeClose_isSome (isKernel : kHeapStart ≤ ptr ∧ s.heap ptr = some .kernel) :
    ∃ s', s.inodeClose ptr = some s' := by
  simp only [OpenFiles.inodeClose, sysFree_kernel]
  split
  · exact ⟨_, if_pos isKernel⟩
  · exact ⟨_, rfl⟩

/-! ### Directories -/

theorem Tables.pushDir (tables : s.Tables (ptr :: held)) :
    Tables { s with dirs := ptr :: s.dirs } held := by
  refine ⟨tables.nodup, tables.live, tables.slotLt, tables.slot, fun other mem => ?_,
    fun other mem => tables.heldOpen other (List.mem_cons_of_mem _ mem), fun other mem => ?_⟩
  · rcases List.mem_cons.mp mem with rfl | mem
    · exact tables.heldOpen other List.mem_cons_self
    · exact tables.dir other mem
  · have sum := tables.counts other mem
    rw [List.count_cons] at sum ⊢
    show s.slotRefs other + _ + _ ≤ (s.inode other).iOpenCnts
    omega

theorem Tables.popDir (tables : s.Tables held) (mem : ptr ∈ s.dirs) :
    Tables { s with dirs := s.dirs.erase ptr } (ptr :: held) := by
  refine ⟨tables.nodup, tables.live, tables.slotLt, tables.slot,
    fun other mem => tables.dir other (List.mem_of_mem_erase mem), fun other mem' => ?_,
    fun other mem' => ?_⟩
  · rcases List.mem_cons.mp mem' with rfl | mem'
    · exact tables.dir other mem
    · exact tables.heldOpen other mem'
  · have sum := tables.counts other mem'
    show s.slotRefs other + (s.dirs.erase ptr).count other + (ptr :: held).count other ≤
      (s.inode other).iOpenCnts
    by_cases same : other = ptr
    · subst same
      have := List.count_pos_iff.mpr mem
      rw [List.count_erase_self, List.count_cons_self]
      omega
    · rw [List.count_erase_of_ne same, List.count_cons_of_ne (Ne.symm same)]
      exact sum

/-! ### Cases of the calls -/

/-- What a call leaves alone that fails or is rolled back. -/
structure Unchanged (s s' : OpenFiles) : Prop where
  pgdirNull : s'.pgdirNull = s.pgdirNull
  openInodes : s'.openInodes = s.openInodes
  dirs : s'.dirs = s.dirs
  inodeBitmap : s'.inodeBitmap = s.inodeBitmap
  fdTable : s'.fdTable = s.fdTable
  heap : s'.heap = s.heap
  inode : ∀ ptr, s.heap ptr ≠ none → s'.inode ptr = s.inode ptr
  fdInode : ∀ fdIdx, (s'.fileTable fdIdx).fdInode = (s.fileTable fdIdx).fdInode
  fileTable : ∀ fdIdx, (s.fileTable fdIdx).fdInode ≠ none → s'.fileTable fdIdx = s.fileTable fdIdx

theorem Unchanged.refl (s : OpenFiles) : Unchanged s s :=
  ⟨rfl, rfl, rfl, rfl, rfl, rfl, fun _ _ => rfl, fun _ => rfl, fun _ _ => rfl⟩

theorem Tables.unchanged (tables : s.Tables held) (same : Unchanged s s') : s'.Tables held := by
  have sameRefs : ∀ ptr, s'.slotRefs ptr = s.slotRefs ptr := by
    intro ptr
    simp only [slotRefs, same.fdInode]
  constructor
  case nodup =>
    rw [same.openInodes]
    exact tables.nodup
  case live =>
    rw [same.openInodes, same.heap]
    exact tables.live
  case slotLt => exact fun fdIdx taken => tables.slotLt fdIdx (by rwa [same.fdInode] at taken)
  case slot =>
    intro fdIdx ptr isRef
    rw [same.fdInode] at isRef
    rw [same.openInodes]
    exact tables.slot fdIdx ptr isRef
  case dir =>
    rw [same.dirs, same.openInodes]
    exact tables.dir
  case heldOpen =>
    rw [same.openInodes]
    exact tables.heldOpen
  case counts =>
    intro ptr mem
    rw [same.openInodes] at mem
    rw [sameRefs, same.dirs, same.inode ptr (tables.live ptr mem)]
    exact tables.counts ptr mem

theorem getFreeSlot_some {fdIdx : Nat} (found : s.getFreeSlotInGlobal = some fdIdx) :
    3 ≤ fdIdx ∧ fdIdx < maxFileOpen ∧ (s.fileTable fdIdx).fdInode = none := by
  have mem := List.mem_of_find?_eq_some found
  have isFree := List.find?_some found
  simp only [List.mem_range'_1, maxFileOpen] at mem
  exact ⟨by omega, by simp only [maxFileOpen]; omega, by simpa using isFree⟩

/-- Either there is no descriptor left, or the first free one is used. -/
theorem pcbFdInstall_cases {pid : Pid} {globalFdIdx : Nat} {fd : Option Nat}
    (installed : s.pcbFdInstall pid globalFdIdx = (s', fd)) :
    (fd = none ∧ s' = s) ∨
    ∃ localFdIdx, fd = some localFdIdx ∧ 3 ≤ localFdIdx ∧ localFdIdx < maxFilesOpenPerProc ∧
      s.fdTable pid localFdIdx = none ∧
      s' = { s with
        fdTable := Function.update s.fdTable pid
          (Function.update (s.fdTable pid) localFdIdx (some globalFdIdx)) } := by
  unfold pcbFdInstall at installed
  split at installed
  · cases installed
    exact .inl ⟨rfl, rfl⟩
  · rename_i localFdIdx found
    cases installed
    have mem := List.mem_of_find?_eq_some found
    have isFree := List.find?_some found
    simp only [List.mem_range'_1, maxFilesOpenPerProc] at mem
    exact .inr ⟨localFdIdx, rfl, by omega, by simp only [maxFilesOpenPerProc]; omega,
      by simpa using isFree, rfl⟩

/-- How `file_open` ends: without a free slot, refused, or with what
`pcb_fd_install` returns. -/
inductive FileOpenResult (s : OpenFiles) (pid : Pid) (iNo flag : Nat) (ptr : InodePtr) :
    OpenFiles × Option Nat → Prop where
  | full : FileOpenResult s pid iNo flag ptr (s, none)
  | refused {s₁ : OpenFiles} {found : InodePtr} {fdIdx : Nat}
      (slot : s.getFreeSlotInGlobal = some fdIdx)
      (opened : s.inodeOpen iNo ptr = some (s₁, found)) (writes : opensForWriting flag = true)
      (busy : (s₁.inode found).writeDeny = true) :
      FileOpenResult s pid iNo flag ptr (s₁.setFile fdIdx ⟨0, flag, some found⟩, none)
  | writer {s₁ : OpenFiles} {found : InodePtr} {fdIdx : Nat} {result : OpenFiles × Option Nat}
      (slot : s.getFreeSlotInGlobal = some fdIdx)
      (opened : s.inodeOpen iNo ptr = some (s₁, found)) (writes : opensForWriting flag = true)
      (notBusy : (s₁.inode found).writeDeny = false)
      (installed : ((s₁.setFile fdIdx ⟨0, flag, some found⟩).setWriteDeny found true).pcbFdInstall
        pid fdIdx = result) :
      FileOpenResult s pid iNo flag ptr result
  | reader {s₁ : OpenFiles} {found : InodePtr} {fdIdx : Nat} {result : OpenFiles × Option Nat}
      (slot : s.getFreeSlotInGlobal = some fdIdx)
      (opened : s.inodeOpen iNo ptr = some (s₁, found)) (reads : opensForWriting flag = false)
      (installed : (s₁.setFile fdIdx ⟨0, flag, some found⟩).pcbFdInstall pid fdIdx = result) :
      FileOpenResult s pid iNo flag ptr result

theorem fileOpen_cases {pid : Pid} {iNo flag : Nat} {result : OpenFiles × Option Nat}
    (opened : s.fileOpen pid iNo flag ptr = some result) :
    FileOpenResult s pid iNo flag ptr result := by
  unfold fileOpen at opened
  split at opened
  · cases opened
    exact .full
  · rename_i fdIdx slot
    simp only [Option.bind_eq_bind, Option.bind_eq_some_iff] at opened
    obtain ⟨⟨s₁, found⟩, isOpen, rest⟩ := opened
    by_cases writes : opensForWriting flag = true
    · rw [if_pos writes] at rest
      by_cases busy : (s₁.inode found).writeDeny = true
      · rw [if_pos (by exact busy)] at rest
        cases rest
        exact .refused slot isOpen writes busy
      · rw [if_neg (by exact busy)] at rest
        cases rest
        exact .writer slot isOpen writes (by simpa using busy) rfl
    · rw [if_neg writes] at rest
      cases rest
      exact .reader slot isOpen (by simpa using writes) rfl

/-- The state in which `file_create` installs the descriptor. -/
def created (s : OpenFiles) (pid : Pid) (iNo flag : Nat) (ptr : InodePtr) (fdIdx : Nat) : OpenFiles :=
  { s with
    heap := Function.update s.heap ptr (some (if s.pgdirNull pid then .kernel else .user))
    inode := Function.update s.inode ptr ⟨iNo, 1, false⟩
    openInodes := ptr :: s.openInodes
    inodeBitmap := Function.update s.inodeBitmap iNo true }.setFile fdIdx ⟨0, flag, some ptr⟩

theorem fileCreate_cases {pid : Pid} {iNo flag : Nat} {block : Option InodePtr} {synced : Bool}
    {fd : Option Nat} (result : s.fileCreate pid iNo flag block synced = some (s', fd)) :
    s.inodeBitmap iNo = false ∧
      ((fd = none ∧ Unchanged s s' ∧
        (block = none ∨ s.getFreeSlotInGlobal = none ∨ synced = false)) ∨
      ∃ ptr fdIdx, block = some ptr ∧ synced = true ∧ s.heap ptr = none ∧
        inHeap (s.pgdirNull pid) ptr = true ∧ s.getFreeSlotInGlobal = some fdIdx ∧
        (s.created pid iNo flag ptr fdIdx).pcbFdInstall pid fdIdx = (s', fd)) := by
  unfold fileCreate at result
  split at result
  · rename_i isFree
    refine ⟨isFree.1, ?_⟩
    have bitmapBack : Function.update s.inodeBitmap iNo false = s.inodeBitmap := by
      rw [← isFree.1, Function.update_eq_self]
    cases block with
    | none =>
        simp only [setInodeBitmap, Function.update_idem] at result
        cases result
        exact .inl ⟨rfl, ⟨rfl, rfl, rfl, bitmapBack, rfl, rfl, fun _ _ => rfl, fun _ => rfl,
          fun _ _ => rfl⟩, .inl rfl⟩
    | some ptr =>
        by_cases placed : s.heap ptr = none ∧ inHeap (s.pgdirNull pid) ptr
        · obtain ⟨notLive, isIn⟩ := placed
          have heapBack : Function.update s.heap ptr none = s.heap := by
            rw [← notLive, Function.update_eq_self]
          have inodeSame : ∀ inode other, s.heap other ≠ none →
              Function.update s.inode ptr inode other = s.inode other := by
            intro inode other isLive
            refine Function.update_of_ne (fun same => isLive ?_) _ _
            rw [same]
            exact notLive
          simp only [sysMalloc, setInodeBitmap, notLive, isIn, and_self, if_true, Option.bind_eq_bind,
            Option.bind_some] at result
          split at result
          · rename_i noSlot
            have noSlot : s.getFreeSlotInGlobal = none := noSlot
            rw [sysFree_of_heap (by exact isIn) (by exact Function.update_self _ _ _)] at result
            simp only [setInode, Function.update_idem, Option.bind_some] at result
            cases result
            exact .inl ⟨rfl, ⟨rfl, rfl, rfl, bitmapBack, rfl, heapBack, inodeSame _,
              fun _ => rfl, fun _ _ => rfl⟩, .inr (.inl noSlot)⟩
          · rename_i fdIdx slot
            have slot : s.getFreeSlotInGlobal = some fdIdx := slot
            split at result
            · rename_i isSynced
              refine .inr ⟨ptr, fdIdx, rfl, isSynced, notLive, isIn, slot, ?_⟩
              simp only [Option.pure_def, Option.some.injEq, setInode, setFile,
                Function.update_idem] at result
              exact result
            · -- `sync_dir_entry` failed
              rename_i notSynced
              rw [sysFree_of_heap (by exact isIn) (by exact Function.update_self _ _ _)] at result
              simp only [setInode, setFile, Function.update_idem, Option.bind_some] at result
              cases result
              have isFreeSlot := (getFreeSlot_some slot).2.2
              refine .inl ⟨rfl, ⟨rfl, rfl, rfl, bitmapBack, rfl, heapBack, inodeSame _,
                fun idx => ?_, fun idx taken => ?_⟩, .inr (.inr (by simpa using notSynced))⟩
              · by_cases same : idx = fdIdx
                · subst same
                  simp [isFreeSlot]
                · simp [same]
              · refine Function.update_of_ne (fun same => taken ?_) _ _
                rw [same]
                exact isFreeSlot
        · simp only [sysMalloc, setInodeBitmap, placed, if_false, Option.bind_eq_bind,
            Option.bind_none] at result
          cases result
  · cases result

theorem inodeClose_setFile (s : OpenFiles) (ptr : InodePtr) (fdIdx : Nat) (file : File) :
    (s.setFile fdIdx file).inodeClose ptr = (s.inodeClose ptr).map (·.setFile fdIdx file) := by
  simp only [OpenFiles.inodeClose, sysFree_kernel, setFile, setInode]
  split
  · split <;> rfl
  · rfl

/-- `file_close` clears the slot and closes its inode. -/
theorem fileClose_cases {fdIdx : Nat} (closed : s.fileClose fdIdx = some s') :
    ∃ found, (s.fileTable fdIdx).fdInode = some found ∧
      ((s.setFile fdIdx { s.fileTable fdIdx with fdInode := none }).setWriteDeny found
        false).inodeClose found = some s' := by
  simp only [fileClose, Option.bind_eq_bind, Option.bind_eq_some_iff] at closed
  obtain ⟨found, isRef, s₁, closed, result⟩ := closed
  cases result
  have sameTable : s₁.fileTable = s.fileTable := by
    rcases inodeClose_cases closed with ⟨_, rfl⟩ | ⟨_, _, rfl⟩ <;> rfl
  refine ⟨found, isRef, ?_⟩
  have commuted := inodeClose_setFile (s.setWriteDeny found false) found fdIdx
    { s.fileTable fdIdx with fdInode := none }
  rw [closed, Option.map_some] at commuted
  rw [sameTable]
  exact commuted

/-- `sys_close` of a descriptor. -/
theorem sysClose_cases {pid : Pid} {fd : Nat} (closed : s.sysClose pid fd = some s') :
    (fd ≤ 2 ∧ s' = s) ∨
    ∃ globalFd found s₁, 2 < fd ∧ s.fdTable pid fd = some globalFd ∧ globalFd < maxFileOpen ∧
      (s.fileTable globalFd).fdInode = some found ∧
      ((s.setFile globalFd { s.fileTable globalFd with fdInode := none }).setWriteDeny found
        false).inodeClose found = some s₁ ∧
      s' = { s₁ with
        fdTable := Function.update s₁.fdTable pid (Function.update (s₁.fdTable pid) fd none) } := by
  unfold sysClose at closed
  split at closed
  · rename_i above
    simp only [Option.bind_eq_bind, Option.bind_eq_some_iff] at closed
    obtain ⟨globalFd, isFd, rest⟩ := closed
    split at rest
    · rename_i inTable
      simp only [Option.bind_eq_some_iff] at rest
      obtain ⟨s₁, closedFile, result⟩ := rest
      cases result
      obtain ⟨found, isRef, closedInode⟩ := fileClose_cases closedFile
      exact .inr ⟨globalFd, found, s₁, above, isFd, inTable, isRef, closedInode, rfl⟩
    · cases rest
  · cases closed
    exact .inl ⟨by omega, rfl⟩

/-- Only counts have gone up. -/
structure CountedUp (s s' : OpenFiles) : Prop where
  pgdirNull : s'.pgdirNull = s.pgdirNull
  heap : s'.heap = s.heap
  openInodes : s'.openInodes = s.openInodes
  dirs : s'.dirs = s.dirs
  inodeBitmap : s'.inodeBitmap = s.inodeBitmap
  fileTable : s'.fileTable = s.fileTable
  fdTable : s'.fdTable = s.fdTable
  iNo : ∀ ptr, (s'.inode ptr).iNo = (s.inode ptr).iNo
  writeDeny : ∀ ptr, (s'.inode ptr).writeDeny = (s.inode ptr).writeDeny
  counts : ∀ ptr, (s.inode ptr).iOpenCnts ≤ (s'.inode ptr).iOpenCnts

theorem CountedUp.refl (s : OpenFiles) : CountedUp s s :=
  ⟨rfl, rfl, rfl, rfl, rfl, rfl, rfl, fun _ => rfl, fun _ => rfl, fun _ => le_refl _⟩

theorem CountedUp.countUp {s'' : OpenFiles} (ptr : InodePtr) (rest : CountedUp (s.countUp ptr) s'') :
    CountedUp s s'' := by
  obtain ⟨pgdirNull, heap, openInodes, dirs, inodeBitmap, fileTable, fdTable, iNo, writeDeny,
    counts⟩ := rest
  refine ⟨pgdirNull, heap, openInodes, dirs, inodeBitmap, fileTable, fdTable, fun other => ?_,
    fun other => ?_, fun other => ?_⟩
  · rw [iNo]
    by_cases same : other = ptr
    · subst same
      simp [OpenFiles.countUp, setInode]
    · simp [OpenFiles.countUp, setInode, same]
  · rw [writeDeny]
    by_cases same : other = ptr
    · subst same
      simp [OpenFiles.countUp, setInode]
    · simp [OpenFiles.countUp, setInode, same]
  · refine le_trans ?_ (counts other)
    by_cases same : other = ptr
    · subst same
      simp [OpenFiles.countUp, setInode]
    · simp [OpenFiles.countUp, setInode, same]

/-- The loop fails on a descriptor whose slot is empty. -/
theorem updateInodeOpenCnts_spec {pid : Pid} {localFds : List Nat} :
    ∀ {s : OpenFiles}, updateInodeOpenCnts pid localFds s = some s' →
      CountedUp s s' ∧ ∀ localFd ∈ localFds, ∀ globalFd, s.fdTable pid localFd = some globalFd →
        (s.fileTable globalFd).fdInode ≠ none := by
  induction localFds with
  | nil =>
      intro s updated
      cases updated
      exact ⟨CountedUp.refl _, by simp⟩
  | cons localFd rest inductionHypothesis =>
      intro s updated
      unfold updateInodeOpenCnts at updated
      split at updated
      · rename_i isNone
        obtain ⟨counted, slots⟩ := inductionHypothesis updated
        refine ⟨counted, fun other mem globalFd isFd => ?_⟩
        rcases List.mem_cons.mp mem with rfl | mem
        · rw [isNone] at isFd
          cases isFd
        · exact slots other mem globalFd isFd
      · rename_i globalFd isFd
        split at updated
        · simp only [Option.bind_eq_bind, Option.bind_eq_some_iff] at updated
          obtain ⟨found, isRef, updated⟩ := updated
          obtain ⟨counted, slots⟩ := inductionHypothesis updated
          refine ⟨.countUp found counted, fun other mem globalFd' isFd' => ?_⟩
          rcases List.mem_cons.mp mem with rfl | mem
          · rw [isFd] at isFd'
            cases isFd'
            simp [isRef]
          · exact slots other mem globalFd' isFd'
        · cases updated

theorem fork_cases {parent child : Pid} (forked : s.fork parent child = some s') :
    CountedUp { s with
      pgdirNull := Function.update s.pgdirNull child false
      fdTable := Function.update s.fdTable child (s.fdTable parent) } s' ∧
    ∀ fd, 3 ≤ fd → fd < maxFilesOpenPerProc → ∀ globalFd, s.fdTable parent fd = some globalFd →
      (s.fileTable globalFd).fdInode ≠ none := by
  obtain ⟨counted, slots⟩ := updateInodeOpenCnts_spec forked
  refine ⟨counted, fun fd low high globalFd isFd => ?_⟩
  refine slots fd ?_ globalFd (by simpa using isFd)
  simp only [maxFilesOpenPerProc, List.mem_range'_1] at *
  omega

/-! ### Every call keeps the tables -/

theorem Tables.setFdTable (tables : s.Tables held) (fdTable : Pid → Nat → Option Nat) :
    Tables { s with fdTable := fdTable } held :=
  tables.congr rfl tables.live rfl rfl fun _ _ => le_refl _

theorem Tables.pcbFdInstall (tables : s.Tables held) {pid : Pid} {globalFdIdx : Nat}
    {fd : Option Nat} (installed : s.pcbFdInstall pid globalFdIdx = (s', fd)) :
    s'.Tables held := by
  rcases pcbFdInstall_cases installed with ⟨_, rfl⟩ | ⟨_, _, _, _, _, rfl⟩
  · exact tables
  · exact tables.setFdTable _

/-- The inodes keep their slots free when one is opened. -/
theorem inodeOpen_fileTable {iNo : Nat} {found : InodePtr}
    (opened : s.inodeOpen iNo ptr = some (s', found)) :
    s'.fileTable = s.fileTable ∧ s'.fdTable = s.fdTable ∧ s'.dirs = s.dirs ∧
      s'.inodeBitmap = s.inodeBitmap ∧ s'.pgdirNull = s.pgdirNull := by
  rcases inodeOpen_cases opened with ⟨_, _, rfl⟩ | ⟨_, _, _, _, rfl⟩ <;>
    exact ⟨rfl, rfl, rfl, rfl, rfl⟩

/-- `file_open` up to the slot. -/
theorem Tables.openSlot (tables : s.Tables held) {iNo fdIdx flag : Nat} {found : InodePtr}
    (slot : s.getFreeSlotInGlobal = some fdIdx)
    (opened : s.inodeOpen iNo ptr = some (s', found)) :
    (s'.setFile fdIdx ⟨0, flag, some found⟩).Tables held := by
  obtain ⟨_, inTable, isFree⟩ := getFreeSlot_some slot
  refine (tables.inodeOpen opened).setFile_some inTable ?_ rfl
  rw [(inodeOpen_fileTable opened).1]
  exact isFree

theorem Tables.fileOpen (tables : s.Tables held) {pid : Pid} {iNo flag : Nat}
    {result : OpenFiles × Option Nat} (isOpen : s.fileOpen pid iNo flag ptr = some result) :
    result.1.Tables held := by
  cases fileOpen_cases isOpen with
  | full => exact tables
  | refused slot opened _ _ => exact tables.openSlot slot opened
  | writer slot opened _ _ installed =>
      exact ((tables.openSlot slot opened).setWriteDeny _ _).pcbFdInstall installed
  | reader slot opened _ installed => exact (tables.openSlot slot opened).pcbFdInstall installed

theorem Tables.created (tables : s.Tables held) {pid : Pid} {iNo flag fdIdx : Nat}
    (notLive : s.heap ptr = none) (slot : s.getFreeSlotInGlobal = some fdIdx) :
    (s.created pid iNo flag ptr fdIdx).Tables held := by
  obtain ⟨_, inTable, isFree⟩ := getFreeSlot_some slot
  have new := tables.newInode notLive (if s.pgdirNull pid then .kernel else .user) ⟨iNo, 1, false⟩
    (le_refl 1)
  have marked : Tables { s with
      heap := Function.update s.heap ptr (some (if s.pgdirNull pid then .kernel else .user))
      inode := Function.update s.inode ptr ⟨iNo, 1, false⟩
      openInodes := ptr :: s.openInodes
      inodeBitmap := Function.update s.inodeBitmap iNo true } (ptr :: held) :=
    new.congr rfl new.live rfl rfl fun _ _ => le_refl _
  exact marked.setFile_some inTable isFree rfl

theorem Tables.fileCreate (tables : s.Tables held) {pid : Pid} {iNo flag : Nat}
    {block : Option InodePtr} {synced : Bool} {fd : Option Nat}
    (result : s.fileCreate pid iNo flag block synced = some (s', fd)) : s'.Tables held := by
  obtain ⟨_, ⟨_, same, _⟩ | ⟨_, _, _, _, notLive, _, slot, installed⟩⟩ := fileCreate_cases result
  · exact tables.unchanged same
  · exact (tables.created notLive slot).pcbFdInstall installed

theorem Tables.sysClose (tables : s.Tables held) {pid : Pid} {fd : Nat}
    (closed : s.sysClose pid fd = some s') : s'.Tables held := by
  rcases sysClose_cases closed with ⟨_, rfl⟩ | ⟨_, _, _, _, _, _, isRef, closedInode, rfl⟩
  · exact tables
  · exact (((tables.setFile_none isRef rfl).setWriteDeny _ _).inodeClose closedInode).setFdTable _

theorem Tables.fork (tables : s.Tables held) {parent child : Pid}
    (forked : s.fork parent child = some s') : s'.Tables held := by
  obtain ⟨counted, _⟩ := fork_cases forked
  refine tables.congr counted.openInodes ?_ counted.fileTable counted.dirs fun ptr _ =>
    counted.counts ptr
  rw [counted.heap]
  exact tables.live

end OpenFiles

open OpenFiles in
/-- Every call keeps the references in order, next to those the caller holds. -/
theorem FileCall.exec_tables {s s' : OpenFiles} {held : List InodePtr} {call : FileCall}
    {fd : Option Nat} (tables : s.Tables held) (executed : call.exec s = some (s', fd)) :
    s'.Tables held := by
  cases call with
  | dirOpen iNo ptr =>
      simp only [exec, OpenFiles.dirOpen, Option.map_eq_some_iff, Prod.mk.injEq, Option.bind_eq_bind,
        Option.bind_eq_some_iff] at executed
      obtain ⟨_, ⟨⟨s₁, found⟩, opened, result⟩, rfl, _⟩ := executed
      cases result
      exact (tables.inodeOpen opened).pushDir
  | dirClose ptr =>
      simp only [exec, OpenFiles.dirClose, Option.map_eq_some_iff, Prod.mk.injEq] at executed
      obtain ⟨_, closed, rfl, _⟩ := executed
      split at closed
      · rename_i mem
        exact (tables.popDir mem).inodeClose closed
      · cases closed
  | release iNo ptr =>
      simp only [exec, OpenFiles.inodeRelease, Option.map_eq_some_iff, Prod.mk.injEq,
        Option.bind_eq_bind, Option.bind_eq_some_iff] at executed
      obtain ⟨_, ⟨⟨s₁, found⟩, opened, closed⟩, rfl, _⟩ := executed
      have tables₁ := tables.inodeOpen opened
      refine Tables.inodeClose (tables₁.congr ?_ ?_ ?_ ?_ ?_) closed
      · rfl
      · exact tables₁.live
      · rfl
      · rfl
      · exact fun _ _ => le_refl _
  | openFile pid iNo flag ptr => exact tables.fileOpen executed
  | create pid iNo flag ptr synced => exact tables.fileCreate executed
  | close pid fd =>
      simp only [exec, Option.map_eq_some_iff, Prod.mk.injEq] at executed
      obtain ⟨_, closed, rfl, _⟩ := executed
      exact tables.sysClose closed
  | fork parent child =>
      simp only [exec, Option.map_eq_some_iff, Prod.mk.injEq] at executed
      obtain ⟨_, forked, rfl, _⟩ := executed
      exact tables.fork forked

/-! ### Runs -/

/-- One call of a run, made where `allowed` lets it be made. -/
def FileStep (allowed : OpenFiles → FileCall → Prop) (s s' : OpenFiles) : Prop :=
  ∃ call fd, allowed s call ∧ call.exec s = some (s', fd)

open OpenFiles in
/-- `root_dir` is the one reference at the start. -/
theorem NoFilesOpen.tables {s : OpenFiles} {root : InodePtr} (start : NoFilesOpen s root) :
    s.Tables [root] := by
  have noSlots : ∀ ptr, s.slotRefs ptr = 0 := by
    intro ptr
    rw [slotRefs, List.countP_eq_zero]
    intro fdIdx _
    simp [start.fileTable fdIdx]
  refine ⟨?_, ?_, fun fdIdx taken => absurd (start.fileTable fdIdx) taken, fun fdIdx ptr isRef => ?_,
    ?_, ?_, ?_⟩
  · rw [start.openInodes]
    exact List.nodup_singleton root
  · rw [start.openInodes]
    intro ptr mem
    obtain rfl := List.mem_singleton.mp mem
    rw [start.rootHeap.1]
    exact Option.some_ne_none _
  · rw [start.fileTable fdIdx] at isRef
    cases isRef
  · rw [start.dirs]
    intro ptr mem
    cases mem
  · rw [start.openInodes]
    exact fun ptr mem => mem
  · rw [start.openInodes, start.dirs]
    intro ptr mem
    obtain rfl := List.mem_singleton.mp mem
    rw [noSlots, start.rootInode]
    simp

end ZyOs.Fs
