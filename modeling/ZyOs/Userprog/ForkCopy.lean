import ZyOs.Userprog.Fork

/-!
Contract: `sys_fork` copies the parent's address space.

Before the loop of `copy_body_stack3` only frames that were free are written and
only entries of the kernel's page tables that were absent; this is `Extends`.
The loop writes the child's directory, the buffer and frames that are free when
it starts; its invariant `Copying` describes the child's half of the directory by
two maps, one for the page tables and one for the pages.
-/

namespace ZyOs.Userprog

open ZyOs.Kernel ZyOs.Memory

/-! ### Growing -/

/-- Only free frames and absent entries of the kernel's page tables have been
written. -/
structure Extends (s s' : Mmu) : Prop where
  layout : s.SameLayout s'
  cr3 : s'.cr3 = s.cr3
  free : ∀ pf frame, s'.FreeIn pf frame → s.FreeIn pf frame
  other : ∀ frame, ¬ IsKernelTable frame → ¬ s.Free frame → s'.mem frame = s.mem frame
  entry : ∀ vpage, IsKernelPage vpage → present (kernelEntry s.mem vpage) = true →
    kernelEntry s'.mem vpage = kernelEntry s.mem vpage

namespace Extends

variable {s s' s'' : Mmu}

theorem free_of (extends_ : Extends s s') {frame : Nat} (free : s'.Free frame) : s.Free frame := by
  obtain ⟨pf, free⟩ := free
  exact ⟨pf, extends_.free pf frame free⟩

theorem trans (first : Extends s s') (second : Extends s' s'') : Extends s s'' where
  layout := first.layout.trans second.layout
  cr3 := second.cr3.trans first.cr3
  free pf frame free := first.free pf frame (second.free pf frame free)
  other frame notTable taken :=
    (second.other frame notTable fun free => taken (first.free_of free)).trans
      (first.other frame notTable taken)
  entry vpage isKernel isPresent := by
    have same := first.entry vpage isKernel isPresent
    rw [← same] at isPresent
    exact (second.entry vpage isKernel isPresent).trans same

theorem running (extends_ : Extends s s') (running : s.Running) : s'.Running where
  layout := extends_.layout.layout running.layout
  isDir := by
    rw [extends_.cr3]
    exact running.isDir.congr (extends_.other _ running.notTable running.taken)
  notTable := by
    rw [extends_.cr3]
    exact running.notTable
  taken := by
    rw [extends_.cr3]
    exact fun free => running.taken (extends_.free_of free)

/-- A page of the kernel keeps its frame. -/
theorem entryOf (extends_ : Extends s s') {vpage frame : Nat} (isKernel : IsKernelPage vpage)
    (entry : kernelEntry s.mem vpage = pteOf (frame * pgSize)) :
    kernelEntry s'.mem vpage = pteOf (frame * pgSize) := by
  rw [extends_.entry vpage isKernel (by rw [entry]; exact present_pteOf _), entry]

/-- Writing to frames that were free at first. -/
theorem setMem (extends_ : Extends s s') {m : Frames}
    (other : ∀ frame, ¬ s.Free frame → m frame = s'.mem frame)
    (layout : s.Layout) : Extends s { s' with mem := m } where
  layout := extends_.layout.setMem m
  cr3 := extends_.cr3
  free := extends_.free
  other frame notTable taken := (other frame taken).trans (extends_.other frame notTable taken)
  entry vpage isKernel isPresent := by
    rw [← extends_.entry vpage isKernel isPresent]
    refine kernelEntry_congr isKernel fun frame isTable => other frame fun free => ?_
    have := free.notKernelTable layout
    have := isTable.2
    omega

end Extends

theorem extends_of_kernelPages {s s' : Mmu} {first cnt : Nat} {frames : Nat → Nat}
    (pages : s.KernelPages s' first cnt frames) : Extends s s' where
  layout := pages.layout
  cr3 := pages.cr3
  free pf frame free := ((pages.free pf frame).mp free).1
  other frame notTable taken := pages.other frame notTable fun i inside same =>
    taken ⟨.kernel, same ▸ pages.wasFree i inside⟩
  entry vpage isKernel isPresent := by
    refine pages.otherEntry vpage isKernel fun i inside same => ?_
    rw [same, pages.absent i inside] at isPresent
    cases isPresent

theorem extends_of_newDir {s s' : Mmu} {vaddr dir : Nat} (new : s.NewDir s' vaddr dir) :
    Extends s s' where
  layout := new.layout
  cr3 := new.cr3
  free pf frame free := ((new.free pf frame).mp free).1
  other frame notTable taken := new.other frame notTable fun same =>
    taken ⟨.kernel, same ▸ new.wasFree⟩
  entry vpage isKernel isPresent := by
    refine new.otherEntry vpage isKernel fun same => ?_
    rw [same, new.absent] at isPresent
    cases isPresent

/-! ### Copies of pages -/

/-- One frame gets the words of another. -/
def copyFrame (m : Frames) (dst src : Nat) : Frames :=
  Function.update m dst fun idx => if idx < 1024 then m src idx else m dst idx

theorem copyFrame_self {m : Frames} {dst src idx : Nat} (inside : idx < 1024) :
    copyFrame m dst src dst idx = m src idx := by
  simp [copyFrame, inside]

theorem copyFrame_other {m : Frames} {dst src frame : Nat} (other : frame ≠ dst) :
    copyFrame m dst src frame = m frame := Function.update_of_ne other _ _

theorem kernelEntry_copyFrame {m : Frames} {dst src vpage : Nat} (isKernel : IsKernelPage vpage)
    (notTable : ¬ IsKernelTable dst) :
    kernelEntry (copyFrame m dst src) vpage = kernelEntry m vpage := by
  refine kernelEntry_congr isKernel fun frame isTable => copyFrame_other fun same => ?_
  rw [same] at isTable
  exact notTable isTable

theorem memcpy_page {s s' : Mmu} {dst src : Nat} (dstAligned : dst % pgSize = 0)
    (srcAligned : src % pgSize = 0) (copied : s.memcpy dst src 1024 = some s') :
    ∃ srcFrame dstFrame, s.lookup src = some srcFrame ∧ s.lookup dst = some dstFrame ∧
      s' = { s with mem := copyFrame s.mem dstFrame srcFrame } := by
  simp only [Mmu.memcpy, Option.bind_eq_bind, Option.bind_eq_some_iff, dstAligned, srcAligned] at copied
  obtain ⟨srcFrame, isSrc, dstFrame, isDst, result⟩ := copied
  cases result
  refine ⟨srcFrame, dstFrame, isSrc, isDst, ?_⟩
  simp [copyFrame]

theorem translate_kernelEntry {m : Frames} {dir vpage : Nat} (isDir : IsDir m dir)
    (isKernel : IsKernelPage vpage) :
    translatePage m dir vpage =
      if present (kernelEntry m vpage) then some (entryFrame (kernelEntry m vpage)) else none :=
  isDir.translate_kernel isKernel.1 isKernel.2

/-- The kernel's half is the same under two directories when the page tables
are. -/
theorem translate_kernel_congr {m m' : Frames} {dir dir' vpage : Nat} (isDir : IsDir m dir)
    (isDir' : IsDir m' dir') (isKernel : IsKernelPage vpage)
    (same : kernelEntry m' vpage = kernelEntry m vpage) :
    translatePage m' dir' vpage = translatePage m dir vpage := by
  rw [translate_kernelEntry isDir isKernel, translate_kernelEntry isDir' isKernel, same]

theorem translate_of_entry {m : Frames} {dir vpage frame : Nat} (isDir : IsDir m dir)
    (isKernel : IsKernelPage vpage) (entry : kernelEntry m vpage = pteOf (frame * pgSize)) :
    translatePage m dir vpage = some frame := by
  rw [translate_kernelEntry isDir isKernel, entry]
  simp only [present_pteOf, if_true, entryFrame_pteOf]

/-- Where the pages that are written and those that are read lie. -/
structure CopyRange (s : Mmu) (dst src cnt : Nat) (frames : Nat → Nat) : Prop where
  isDir : IsDir s.mem s.cr3
  dstAligned : dst % pgSize = 0
  srcAligned : src % pgSize = 0
  dstPage : ∀ i < cnt, IsKernelPage (pageOf dst + i)
  srcPage : ∀ i < cnt, IsKernelPage (pageOf src + i)
  entry : ∀ i < cnt, kernelEntry s.mem (pageOf dst + i) = pteOf (frames i * pgSize)
  notTable : ∀ i < cnt, ¬ IsKernelTable (frames i)
  notDir : ∀ i < cnt, frames i ≠ s.cr3
  inj : ∀ i < cnt, ∀ j < cnt, frames i = frames j → i = j
  apart : ∀ i < cnt, ∀ old, translatePage s.mem s.cr3 (pageOf src + i) = some old →
    ∀ j < cnt, old ≠ frames j

theorem pageOf_next (vaddr i : Nat) : pageOf (vaddr + pgSize) + i = pageOf vaddr + (i + 1) := by
  simp only [pageOf, pgSize]
  omega

/-- The range after the first page has been copied. -/
theorem CopyRange.tail {s : Mmu} {dst src cnt : Nat} {frames : Nat → Nat}
    (range : CopyRange s dst src (cnt + 1) frames) (srcFrame : Nat) :
    CopyRange { s with mem := copyFrame s.mem (frames 0) srcFrame } (dst + pgSize) (src + pgSize) cnt
      fun i => frames (i + 1) := by
  have notTable := range.notTable 0 (by omega)
  have isDir : IsDir (copyFrame s.mem (frames 0) srcFrame) s.cr3 :=
    range.isDir.congr (copyFrame_other (range.notDir 0 (by omega)).symm)
  constructor
  case isDir => exact isDir
  case dstAligned =>
    have := range.dstAligned
    simp only [pgSize] at *
    omega
  case srcAligned =>
    have := range.srcAligned
    simp only [pgSize] at *
    omega
  case dstPage =>
    intro i inside
    rw [pageOf_next]
    exact range.dstPage (i + 1) (by omega)
  case srcPage =>
    intro i inside
    rw [pageOf_next]
    exact range.srcPage (i + 1) (by omega)
  case entry =>
    intro i inside
    rw [pageOf_next, kernelEntry_copyFrame (range.dstPage (i + 1) (by omega)) notTable]
    exact range.entry (i + 1) (by omega)
  case notTable => exact fun i inside => range.notTable (i + 1) (by omega)
  case notDir => exact fun i inside => range.notDir (i + 1) (by omega)
  case inj =>
    intro i inside j inside' sameFrame
    have := range.inj (i + 1) (by omega) (j + 1) (by omega) sameFrame
    omega
  case apart =>
    intro i inside old isOld j inside'
    have isKernel := range.srcPage (i + 1) (by omega)
    rw [pageOf_next, translate_kernel_congr range.isDir (by exact isDir) isKernel
      (kernelEntry_copyFrame isKernel notTable)] at isOld
    exact range.apart (i + 1) (by omega) old isOld (j + 1) (by omega)

/-- `memcpy` of whole pages copies each of them. -/
theorem copyPages_spec {cnt : Nat} :
    ∀ {s s' : Mmu} {dst src : Nat} {frames : Nat → Nat}, CopyRange s dst src cnt frames →
      copyPages cnt s dst src = some s' →
      ∃ m, s' = { s with mem := m } ∧
        (∀ frame, (∀ i < cnt, frame ≠ frames i) → m frame = s.mem frame) ∧
        ∀ i < cnt, ∃ old, translatePage s.mem s.cr3 (pageOf src + i) = some old ∧
          ∀ idx < 1024, m (frames i) idx = s.mem old idx := by
  induction cnt with
  | zero =>
      intro s s' dst src frames _ copied
      cases copied
      exact ⟨s.mem, rfl, fun _ _ => rfl, by simp⟩
  | succ cnt inductionHypothesis =>
      intro s s' dst src frames range copied
      simp only [copyPages, Option.bind_eq_bind, Option.bind_eq_some_iff] at copied
      obtain ⟨s₁, first, rest⟩ := copied
      obtain ⟨srcFrame, dstFrame, isSrc, isDst, rfl⟩ :=
        memcpy_page range.dstAligned range.srcAligned first
      obtain rfl : dstFrame = frames 0 := by
        have := translate_of_entry range.isDir (range.dstPage 0 (by omega)) (range.entry 0 (by omega))
        rw [Mmu.lookup] at isDst
        exact Option.some.inj (isDst.symm.trans this)
      obtain ⟨m, rfl, others, words⟩ :=
        inductionHypothesis (range.tail srcFrame) rest
      refine ⟨m, rfl, fun frame outside => ?_, fun i inside => ?_⟩
      · rw [others frame fun i inside => outside (i + 1) (by omega)]
        exact copyFrame_other (outside 0 (by omega))
      · cases i with
        | zero =>
            refine ⟨srcFrame, isSrc, fun idx small => ?_⟩
            rw [others (frames 0) fun j inside' same => ?_]
            · exact copyFrame_self small
            · have := range.inj 0 (by omega) (j + 1) (by omega) same
              omega
        | succ i =>
            obtain ⟨old, isOld, equal⟩ := words i (by omega)
            have tail := range.tail srcFrame
            have isKernel := range.srcPage (i + 1) (by omega)
            have same : translatePage (copyFrame s.mem (frames 0) srcFrame) s.cr3
                (pageOf src + (i + 1)) = translatePage s.mem s.cr3 (pageOf src + (i + 1)) :=
              translate_kernel_congr range.isDir tail.isDir isKernel
                (kernelEntry_copyFrame isKernel (range.notTable 0 (by omega)))
            rw [pageOf_next] at isOld
            have isOld' := same.symm.trans isOld
            refine ⟨old, isOld', fun idx small => ?_⟩
            rw [equal idx small]
            exact congrFun (copyFrame_other
              (range.apart (i + 1) (by omega) old isOld' 0 (by omega))) idx

/-! ### The loop -/

/-- A frame that the loop never writes. -/
def Kept (s₀ : Mmu) (dir buf frame : Nat) : Prop := ¬ s₀.Free frame ∧ frame ≠ dir ∧ frame ≠ buf

/-- What the loop finds: the directories of the parent and of the child, the
buffer, and the pages of the parent. -/
structure LoopStart (s₀ : Mmu) (child parent : Pcb) (bufPage dir buf : Nat) : Prop where
  running : s₀.Running
  parentAligned : parent.pgdir % pgSize = 0
  parentPage : IsKernelPage (pageOf parent.pgdir)
  parentEntry : kernelEntry s₀.mem (pageOf parent.pgdir) = pteOf (s₀.cr3 * pgSize)
  childAligned : child.pgdir % pgSize = 0
  childPage : IsKernelPage (pageOf child.pgdir)
  childEntry : kernelEntry s₀.mem (pageOf child.pgdir) = pteOf (dir * pgSize)
  bufAligned : bufPage % pgSize = 0
  bufKernel : IsKernelPage (pageOf bufPage)
  bufEntry : kernelEntry s₀.mem (pageOf bufPage) = pteOf (buf * pgSize)
  isDir : IsDir s₀.mem dir
  empty : ∀ idx < 768, s₀.mem dir idx = 0
  dirTaken : ¬ s₀.Free dir
  bufTaken : ¬ s₀.Free buf
  dirNotTable : ¬ IsKernelTable dir
  bufNotTable : ¬ IsKernelTable buf
  dirBuf : dir ≠ buf
  parentKept : Kept s₀ dir buf s₀.cr3
  userTable : ∀ idx < 768, present (s₀.mem s₀.cr3 idx) = true →
    Kept s₀ dir buf (entryFrame (s₀.mem s₀.cr3 idx))
  userFrame : ∀ page < 0xc0000, ∀ frame, translatePage s₀.mem s₀.cr3 page = some frame →
    Kept s₀ dir buf frame
  bitsAligned : parent.bits % pgSize = 0
  bitsPage : ∀ i < bitmapPgCnt, IsKernelPage (pageOf parent.bits + i)
  bitsKept : ∀ i < bitmapPgCnt, ∀ frame,
    translatePage s₀.mem s₀.cr3 (pageOf parent.bits + i) = some frame → Kept s₀ dir buf frame
  bitsLen : parent.btmpBytesLen ≤ bitmapPgCnt * pgSize
  vaddrAligned : parent.vaddrStart % pgSize = 0
  vaddrHigh : parent.vaddrStart + 8 * parent.btmpBytesLen * pgSize ≤ 0xc0000000

/-- The child's half of its directory: the page tables and the pages it has so
far, in frames that the loop has taken. -/
structure Copying (s₀ s : Mmu) (dir buf : Nat) (table frame : Nat → Option Nat) : Prop where
  layout : s₀.SameLayout s
  free : ∀ pf other, s.FreeIn pf other → s₀.FreeIn pf other
  kept : ∀ other, Kept s₀ dir buf other → s.mem other = s₀.mem other
  upper : ∀ idx, 768 ≤ idx → s.mem dir idx = s₀.mem dir idx
  pde : ∀ idx < 768, s.mem dir idx = (table idx).elim 0 fun t => pteOf (t * pgSize)
  pte : ∀ idx t, table idx = some t → ∀ j < 1024,
    s.mem t j = (frame (idx * 1024 + j)).elim 0 fun f => pteOf (f * pgSize)
  inTable : ∀ page, frame page ≠ none → table (page / 1024) ≠ none
  tableNew : ∀ idx t, table idx = some t → s₀.FreeIn .kernel t ∧ ¬ s.Free t
  tableInj : ∀ idx idx' t, table idx = some t → table idx' = some t → idx = idx'
  frameNew : ∀ page f, frame page = some f → s₀.FreeIn .user f ∧ ¬ s.Free f
  frameInj : ∀ page page' f, frame page = some f → frame page' = some f → page = page'

/-- A partial map without a repeated value stays so when it gets a new one. -/
theorem update_inj {map : Nat → Option Nat} {key value : Nat}
    (inj : ∀ i j v, map i = some v → map j = some v → i = j)
    (isNew : ∀ i, map i ≠ some value) (i j v : Nat)
    (left : Function.update map key (some value) i = some v)
    (right : Function.update map key (some value) j = some v) : i = j := by
  by_cases first : i = key <;> by_cases second : j = key
  · rw [first, second]
  · subst first
    rw [Function.update_self] at left
    rw [Function.update_of_ne second] at right
    cases left
    exact absurd right (isNew j)
  · subst second
    rw [Function.update_self] at right
    rw [Function.update_of_ne first] at left
    cases right
    exact absurd left (isNew i)
  · rw [Function.update_of_ne first] at left
    rw [Function.update_of_ne second] at right
    exact inj i j v left right

section Loop

variable {s₀ s s' : Mmu} {child parent : Pcb} {bufPage dir buf : Nat}
variable {table frame : Nat → Option Nat}

theorem LoopStart.kernelTable_kept (start : LoopStart s₀ child parent bufPage dir buf) {other : Nat}
    (isTable : IsKernelTable other) : Kept s₀ dir buf other := by
  refine ⟨fun free => ?_, fun same => ?_, fun same => ?_⟩
  · have := free.notKernelTable start.running.layout
    have := isTable.2
    omega
  · exact start.dirNotTable (same ▸ isTable)
  · exact start.bufNotTable (same ▸ isTable)

namespace Copying

theorem layout' (copying : Copying s₀ s dir buf table frame)
    (start : LoopStart s₀ child parent bufPage dir buf) : s.Layout :=
  copying.layout.layout start.running.layout

theorem taken (copying : Copying s₀ s dir buf table frame) {other : Nat}
    (notFree : ¬ s₀.Free other) : ¬ s.Free other := by
  rintro ⟨pf, free⟩
  exact notFree ⟨pf, copying.free pf other free⟩

/-- The frame of a page table is no frame of a page. -/
theorem table_ne_frame (copying : Copying s₀ s dir buf table frame)
    (start : LoopStart s₀ child parent bufPage dir buf) {idx page t f : Nat}
    (isTable : table idx = some t) (isFrame : frame page = some f) : t ≠ f := by
  intro same
  obtain ⟨⟨bit, inside, isBit, _⟩, _⟩ := copying.tableNew idx t isTable
  obtain ⟨⟨bit', inside', isBit', _⟩, _⟩ := copying.frameNew page f isFrame
  have := start.running.layout.frame_pool inside inside' (isBit.symm.trans (same.trans isBit'))
  cases this.1

theorem table_ne (copying : Copying s₀ s dir buf table frame) {idx t other : Nat}
    (isTable : table idx = some t) (notFree : ¬ s₀.Free other) : other ≠ t := by
  rintro rfl
  exact notFree ⟨_, (copying.tableNew idx other isTable).1⟩

theorem frame_ne (copying : Copying s₀ s dir buf table frame) {page f other : Nat}
    (isFrame : frame page = some f) (notFree : ¬ s₀.Free other) : other ≠ f := by
  rintro rfl
  exact notFree ⟨_, (copying.frameNew page other isFrame).1⟩

theorem isDir (copying : Copying s₀ s dir buf table frame)
    (start : LoopStart s₀ child parent bufPage dir buf) : IsDir s.mem dir := by
  refine ⟨fun idx low high => ?_, ?_⟩
  · rw [copying.upper idx low]
    exact start.isDir.kernel idx low high
  · rw [copying.upper 1023 (by decide)]
    exact start.isDir.self

theorem isDir_parent (copying : Copying s₀ s dir buf table frame)
    (start : LoopStart s₀ child parent bufPage dir buf) : IsDir s.mem s₀.cr3 :=
  start.running.isDir.congr (copying.kept _ start.parentKept)

theorem kernelEntry_eq (copying : Copying s₀ s dir buf table frame)
    (start : LoopStart s₀ child parent bufPage dir buf) {vpage : Nat}
    (isKernel : IsKernelPage vpage) : kernelEntry s.mem vpage = kernelEntry s₀.mem vpage :=
  kernelEntry_congr isKernel fun _ isTable => copying.kept _ (start.kernelTable_kept isTable)

/-- What the child maps. -/
theorem translate_child (copying : Copying s₀ s dir buf table frame) {page : Nat}
    (user : page < 0xc0000) : translatePage s.mem dir page = frame page := by
  have low : page / 1024 < 768 := by omega
  unfold translatePage
  rw [copying.pde _ low]
  cases isTable : table (page / 1024) with
  | none =>
      have isNone : frame page = none := by
        by_contra some_
        exact copying.inTable page some_ isTable
      simp [isNone, present]
  | some t =>
      have entry := copying.pte _ t isTable (page % 1024) (Nat.mod_lt _ (by decide))
      rw [show page / 1024 * 1024 + page % 1024 = page by omega] at entry
      simp only [Option.elim_some, present_pteOf, if_true, entryFrame_pteOf, entry]
      cases frame page with
      | none => simp [present]
      | some f => simp only [Option.elim_some, present_pteOf, if_true, entryFrame_pteOf]

/-- What the parent maps does not change. -/
theorem translate_parent (copying : Copying s₀ s dir buf table frame)
    (start : LoopStart s₀ child parent bufPage dir buf) {page : Nat} (user : page < 0xc0000) :
    translatePage s.mem s₀.cr3 page = translatePage s₀.mem s₀.cr3 page := by
  have same := copying.kept _ start.parentKept
  refine translate_congr (by rw [same]) fun isPresent => ?_
  rw [copying.kept _ (start.userTable (page / 1024) (by omega) isPresent)]

/-- Words are copied to the buffer or to a page of the child. -/
theorem write (copying : Copying s₀ s dir buf table frame)
    (start : LoopStart s₀ child parent bufPage dir buf) {dst : Nat} (src : Nat)
    (isDst : dst = buf ∨ ∃ page, frame page = some dst) :
    Copying s₀ { s with mem := copyFrame s.mem dst src } dir buf table frame := by
  have keptNe : ∀ other, ¬ s₀.Free other → other ≠ buf → other ≠ dst := by
    intro other notFree notBuf
    rcases isDst with rfl | ⟨page, isFrame⟩
    · exact notBuf
    · exact copying.frame_ne isFrame notFree
  have dirNe := keptNe dir start.dirTaken start.dirBuf
  have tableNe : ∀ idx t, table idx = some t → t ≠ dst := by
    intro idx t isTable
    rcases isDst with rfl | ⟨page, isFrame⟩
    · exact (copying.table_ne isTable start.bufTaken).symm
    · exact copying.table_ne_frame start isTable isFrame
  constructor
  case layout => exact copying.layout.setMem _
  case free => exact copying.free
  case kept =>
    intro other kept
    exact (copyFrame_other (keptNe other kept.1 kept.2.2)).trans (copying.kept other kept)
  case upper =>
    intro idx low
    exact (congrFun (copyFrame_other dirNe) idx).trans (copying.upper idx low)
  case pde =>
    intro idx low
    exact (congrFun (copyFrame_other dirNe) idx).trans (copying.pde idx low)
  case pte =>
    intro idx t isTable j inside
    exact (congrFun (copyFrame_other (tableNe idx t isTable)) j).trans
      (copying.pte idx t isTable j inside)
  case inTable => exact copying.inTable
  case tableNew => exact copying.tableNew
  case tableInj => exact copying.tableInj
  case frameNew => exact copying.frameNew
  case frameInj => exact copying.frameInj

/-- A frame is taken from a pool. -/
theorem allocated (copying : Copying s₀ s dir buf table frame) {pf : PoolFlags} {taken : Nat}
    (alloc : s.Allocated s' pf taken) : Copying s₀ s' dir buf table frame := by
  have stillTaken : ∀ other, ¬ s.Free other → ¬ s'.Free other := by
    rintro other notFree ⟨pf', free⟩
    exact notFree ⟨pf', ((alloc.free pf' other).mp free).1⟩
  constructor
  case layout => exact copying.layout.trans alloc.layout
  case free => exact fun pf' other free => copying.free pf' other ((alloc.free pf' other).mp free).1
  case kept =>
    rw [alloc.mem]
    exact copying.kept
  case upper =>
    rw [alloc.mem]
    exact copying.upper
  case pde =>
    rw [alloc.mem]
    exact copying.pde
  case pte =>
    rw [alloc.mem]
    exact copying.pte
  case inTable => exact copying.inTable
  case tableNew =>
    exact fun idx t isTable => ⟨(copying.tableNew idx t isTable).1,
      stillTaken t (copying.tableNew idx t isTable).2⟩
  case tableInj => exact copying.tableInj
  case frameNew =>
    exact fun page f isFrame => ⟨(copying.frameNew page f isFrame).1,
      stillTaken f (copying.frameNew page f isFrame).2⟩
  case frameInj => exact copying.frameInj

/-- `page_table_add` makes a page table. -/
theorem newTable (copying : Copying s₀ s dir buf table frame)
    (start : LoopStart s₀ child parent bufPage dir buf) {idx t : Nat} (low : idx < 768)
    (isNone : table idx = none) (alloc : s.Allocated s' .kernel t) :
    Copying s₀ { s' with
      mem := Function.update (setWord s.mem dir idx (pteOf (t * pgSize))) t fun _ => 0 }
      dir buf (Function.update table idx (some t)) frame := by
  have after := copying.allocated alloc
  have wasFree : s₀.FreeIn .kernel t := copying.free _ _ alloc.wasFree
  have notFree : ¬ s'.Free t := by
    rintro ⟨pf, free⟩
    exact ((alloc.free pf t).mp free).2 rfl
  have ne : ∀ other, ¬ s₀.Free other → other ≠ t := by
    rintro other taken rfl
    exact taken ⟨_, wasFree⟩
  have tableNe : ∀ idx' t', table idx' = some t' → t' ≠ t := by
    rintro idx' t' isTable rfl
    exact (copying.tableNew idx' t' isTable).2 ⟨_, alloc.wasFree⟩
  have others : ∀ other, other ≠ dir → other ≠ t →
      Function.update (setWord s.mem dir idx (pteOf (t * pgSize))) t (fun _ => 0) other =
        s.mem other := by
    intro other notDir notNew
    rw [Function.update_of_ne notNew]
    exact Function.update_of_ne notDir _ _
  have dirNe := ne dir start.dirTaken
  constructor
  case layout => exact after.layout.setMem _
  case free => exact after.free
  case kept =>
    intro other kept
    exact (others other kept.2.1 (ne other kept.1)).trans (copying.kept other kept)
  case upper =>
    intro idx' high
    dsimp only
    rw [Function.update_of_ne dirNe, setWord_other (.inr (by omega))]
    exact copying.upper idx' high
  case pde =>
    intro idx' low'
    dsimp only
    rw [Function.update_of_ne dirNe]
    by_cases same : idx' = idx
    · subst same
      rw [setWord_self, Function.update_self, Option.elim_some]
    · rw [setWord_other (.inr same), Function.update_of_ne same]
      exact copying.pde idx' low'
  case pte =>
    intro idx' t' isTable j inside
    by_cases same : idx' = idx
    · subst same
      rw [Function.update_self] at isTable
      cases isTable
      have isEmpty : frame (idx' * 1024 + j) = none := by
        by_contra some_
        have := copying.inTable _ some_
        rw [show (idx' * 1024 + j) / 1024 = idx' by omega] at this
        exact this isNone
      simp [isEmpty]
    · rw [Function.update_of_ne same] at isTable
      dsimp only
      rw [others t' (copying.table_ne isTable start.dirTaken).symm (tableNe idx' t' isTable)]
      exact copying.pte idx' t' isTable j inside
  case inTable =>
    intro page isSome
    have := copying.inTable page isSome
    by_cases same : page / 1024 = idx
    · simp [same]
    · rw [Function.update_of_ne same]
      exact this
  case tableNew =>
    intro idx' t' isTable
    by_cases same : idx' = idx
    · subst same
      rw [Function.update_self] at isTable
      cases isTable
      exact ⟨wasFree, notFree⟩
    · rw [Function.update_of_ne same] at isTable
      exact after.tableNew idx' t' isTable
  case tableInj => exact update_inj copying.tableInj fun idx' isTable => tableNe idx' t isTable rfl
  case frameNew => exact after.frameNew
  case frameInj => exact copying.frameInj

/-- `page_table_add` writes the entry of a page. -/
theorem setPte (copying : Copying s₀ s dir buf table frame)
    (start : LoopStart s₀ child parent bufPage dir buf) {page t f : Nat}
    (isTable : table (page / 1024) = some t) (wasFree : s₀.FreeIn .user f) (notFree : ¬ s.Free f)
    (isNew : ∀ page', frame page' ≠ some f) :
    Copying s₀ { s with mem := setWord s.mem t (page % 1024) (pteOf (f * pgSize)) } dir buf table
      (Function.update frame page (some f)) := by
  have others : ∀ other, other ≠ t →
      setWord s.mem t (page % 1024) (pteOf (f * pgSize)) other = s.mem other :=
    fun other ne => Function.update_of_ne ne _ _
  have dirNe := copying.table_ne isTable start.dirTaken
  constructor
  case layout => exact copying.layout.setMem _
  case free => exact copying.free
  case kept =>
    intro other kept
    exact (others other (copying.table_ne isTable kept.1)).trans (copying.kept other kept)
  case upper =>
    intro idx low
    exact (congrFun (others dir dirNe) idx).trans (copying.upper idx low)
  case pde =>
    intro idx low
    exact (congrFun (others dir dirNe) idx).trans (copying.pde idx low)
  case pte =>
    intro idx t' isTable' j inside
    dsimp only
    by_cases same : idx * 1024 + j = page
    · have sameIdx : idx = page / 1024 := by omega
      have sameJ : j = page % 1024 := by omega
      rw [sameIdx, isTable] at isTable'
      cases isTable'
      rw [same, Function.update_self, sameJ, setWord_self, Option.elim_some]
    · rw [Function.update_of_ne same, setWord_other]
      · exact copying.pte idx t' isTable' j inside
      · by_cases sameTable : t' = t
        · subst sameTable
          have := copying.tableInj idx (page / 1024) t' isTable' isTable
          exact .inr (by omega)
        · exact .inl sameTable
  case inTable =>
    intro page' isSome
    by_cases same : page' = page
    · subst same
      simp [isTable]
    · rw [Function.update_of_ne same] at isSome
      exact copying.inTable page' isSome
  case tableNew => exact copying.tableNew
  case tableInj => exact copying.tableInj
  case frameNew =>
    intro page' f' isFrame
    by_cases same : page' = page
    · subst same
      rw [Function.update_self] at isFrame
      cases isFrame
      exact ⟨wasFree, notFree⟩
    · rw [Function.update_of_ne same] at isFrame
      exact copying.frameNew page' f' isFrame
  case frameInj => exact update_inj copying.frameInj isNew

theorem setCr3 (copying : Copying s₀ s dir buf table frame) (cr3 : Nat) :
    Copying s₀ { s with cr3 := cr3 } dir buf table frame := by
  obtain ⟨layout, free, kept, upper, pde, pte, inTable, tableNew, tableInj, frameNew, frameInj⟩ :=
    copying
  exact ⟨⟨layout.start, layout.len, layout.vaddrStart, layout.vaddrLen⟩, free, kept, upper, pde, pte,
    inTable, tableNew, tableInj, frameNew, frameInj⟩

/-- Under the child's directory kernel pages and page tables can be reached. -/
theorem running (copying : Copying s₀ s dir buf table frame)
    (start : LoopStart s₀ child parent bufPage dir buf) (active : s.cr3 = dir) : s.Running := by
  refine ⟨copying.layout' start, ?_, ?_, ?_⟩
  · rw [active]
    exact copying.isDir start
  · rw [active]
    exact start.dirNotTable
  · rw [active]
    exact copying.taken start.dirTaken

/-- `get_a_page_without_opvaddrbitmap` under the child's directory. -/
theorem addPage (copying : Copying s₀ s dir buf table frame)
    (start : LoopStart s₀ child parent bufPage dir buf) (active : s.cr3 = dir) {vaddr : Nat}
    (user : vaddr < 0xc0000000)
    (got : s.getAPageWithoutOpvaddrbitmap .user vaddr = some s') :
    ∃ table' f, Copying s₀ s' dir buf table' (Function.update frame (pageOf vaddr) (some f)) ∧
      s'.cr3 = dir ∧ (∀ page, frame page ≠ some f) ∧
      ∀ other, other ≠ dir → (∀ idx, table' idx ≠ some other) → s'.mem other = s.mem other := by
  simp only [Mmu.getAPageWithoutOpvaddrbitmap, Option.bind_eq_bind, Option.bind_eq_some_iff] at got
  obtain ⟨⟨s₁, phyaddr⟩, allocated, added⟩ := got
  obtain ⟨f, rfl, alloc⟩ := Mmu.palloc_spec (copying.layout' start) allocated
  have wasFree : s₀.FreeIn .user f := copying.free _ _ alloc.wasFree
  have notFree : ¬ s₁.Free f := by
    rintro ⟨pf, free⟩
    exact ((alloc.free pf f).mp free).2 rfl
  have isNew : ∀ page, frame page ≠ some f := by
    intro page isFrame
    exact (copying.frameNew page f isFrame).2 ⟨_, alloc.wasFree⟩
  have copying₁ := copying.allocated alloc
  have active₁ : s₁.cr3 = dir := alloc.cr3.trans active
  have running₁ := copying₁.running start active₁
  have low : pdeIdx vaddr < 768 := by
    simp only [pdeIdx]
    omega
  have entry := copying₁.pde _ low
  rw [← active₁] at entry
  have pageIdx : pdeIdx vaddr = pageOf vaddr / 1024 := pdeIdx_page vaddr
  cases isTable : table (pdeIdx vaddr) with
  | some t =>
      rw [isTable, Option.elim_some] at entry
      rw [Mmu.pageTableAdd_table running₁.isDir (by omega) entry, pteIdx_page] at added
      split at added
      · cases added
      · cases added
        rw [pageIdx] at isTable
        refine ⟨table, f, copying₁.setPte start isTable wasFree notFree isNew, active₁, isNew, ?_⟩
        intro other _ notTable
        rw [← alloc.mem]
        exact Function.update_of_ne (fun same => notTable _ (same ▸ isTable)) _ _
  | none =>
      rw [isTable, Option.elim_none] at entry
      obtain ⟨s₂, t, _, allocTable, rfl⟩ :=
        Mmu.pageTableAdd_absent running₁ user (by rw [entry]; rfl) added
      have copying₂ := copying₁.newTable start low isTable allocTable
      have notFree₂ : ¬ s₂.Free f := by
        rintro ⟨pf, free⟩
        exact notFree ⟨pf, ((allocTable.free pf f).mp free).1⟩
      have isTable₂ : Function.update table (pdeIdx vaddr) (some t) (pageOf vaddr / 1024) = some t := by
        rw [pageIdx, Function.update_self]
      have copying₃ := copying₂.setPte start isTable₂ wasFree notFree₂ isNew
      rw [Mmu.withTable, pteIdx_page, active₁]
      refine ⟨_, f, copying₃, allocTable.cr3.trans active₁, isNew, ?_⟩
      intro other notDir notTable
      have notNew : other ≠ t := fun same => notTable _ (isTable₂.trans (by rw [same]))
      rw [← alloc.mem]
      exact ((Function.update_of_ne notNew _ _).trans (Function.update_of_ne notNew _ _)).trans
        (Function.update_of_ne notDir _ _)

end Copying

/-- The bits below `n` have been looked at. -/
structure CopiedUpTo (s₀ s : Mmu) (parent : Pcb) (dir buf n : Nat)
    (table frame : Nat → Option Nat) : Prop where
  copying : Copying s₀ s dir buf table frame
  active : s.cr3 = s₀.cr3
  pages : ∀ page, frame page ≠ none ↔
    ∃ bit < n, vaddrBit s₀ parent bit = true ∧ page = bitPage parent bit
  words : ∀ page f, frame page = some f → ∃ old, translatePage s₀.mem s₀.cr3 page = some old ∧
    ∀ idx < 1024, s.mem f idx = s₀.mem old idx

/-- `page_dir_activate` for a task whose directory is in this frame. -/
theorem pageDirActivate_kernel (isDir : IsDir s.mem s.cr3) {pgdir target : Nat}
    (aligned : pgdir % pgSize = 0) (isKernel : IsKernelPage (pageOf pgdir))
    (entry : kernelEntry s.mem (pageOf pgdir) = pteOf (target * pgSize)) :
    s.pageDirActivate (some pgdir) = some { s with cr3 := target } := by
  have split : target * pgSize / pgSize = target := by
    simp only [pgSize]
    omega
  simp [Mmu.pageDirActivate, Mmu.addrV2p_kernel isDir isKernel entry aligned, split]

/-- The loop reads the bitmap it has found. -/
theorem CopiedUpTo.readByte_eq {n : Nat} (upTo : CopiedUpTo s₀ s parent dir buf n table frame)
    (start : LoopStart s₀ child parent bufPage dir buf) {idxByte : Nat}
    (inside : idxByte < parent.btmpBytesLen) :
    readByte s (parent.bits + idxByte) = readByte s₀ (parent.bits + idxByte) := by
  have len := start.bitsLen
  have aligned := start.bitsAligned
  have isPage : (parent.bits + idxByte) / pgSize = pageOf parent.bits + idxByte / pgSize := by
    simp only [pageOf, pgSize] at *
    omega
  have inBitmap : idxByte / pgSize < bitmapPgCnt := by
    simp only [bitmapPgCnt, pgSize] at *
    omega
  have isKernel := start.bitsPage _ inBitmap
  have same : s.lookup (parent.bits + idxByte) = s₀.lookup (parent.bits + idxByte) := by
    unfold Mmu.lookup
    rw [isPage, upTo.active]
    exact translate_kernel_congr start.running.isDir (upTo.copying.isDir_parent start) isKernel
      (upTo.copying.kernelEntry_eq start isKernel)
  unfold readByte Mmu.read
  rw [same]
  cases found : s₀.lookup (parent.bits + idxByte) with
  | none => rfl
  | some target =>
      have isTarget : translatePage s₀.mem s₀.cr3 (pageOf parent.bits + idxByte / pgSize) =
          some target := by
        rw [← isPage]
        exact found
      simp [upTo.copying.kept _ (start.bitsKept _ inBitmap _ isTarget)]

/-- The address of a bit's page. -/
theorem LoopStart.pageOfBit (start : LoopStart s₀ child parent bufPage dir buf) {n vaddr : Nat}
    (inside : n < 8 * parent.btmpBytesLen) (isVaddr : vaddr = n * pgSize + parent.vaddrStart) :
    vaddr % pgSize = 0 ∧ vaddr < 0xc0000000 ∧ pageOf vaddr < 0xc0000 ∧ pageOf vaddr = bitPage parent n := by
  have aligned := start.vaddrAligned
  have high := start.vaddrHigh
  simp only [bitPage, pageOf, pgSize] at *
  omega

/-- The child's pages, with one more. -/
theorem CopiedUpTo.pages_succ {n : Nat} (upTo : CopiedUpTo s₀ s parent dir buf n table frame)
    (isSet : vaddrBit s₀ parent n = true) (f page : Nat) :
    Function.update frame (bitPage parent n) (some f) page ≠ none ↔
      ∃ bit < n + 1, vaddrBit s₀ parent bit = true ∧ page = bitPage parent bit := by
  by_cases same : page = bitPage parent n
  · subst same
    rw [Function.update_self]
    exact ⟨fun _ => ⟨n, by omega, isSet, rfl⟩, fun _ => Option.some_ne_none f⟩
  · rw [Function.update_of_ne same, upTo.pages]
    constructor
    · rintro ⟨bit, below, isBit, rfl⟩
      exact ⟨bit, by omega, isBit, rfl⟩
    · rintro ⟨bit, below, isBit, rfl⟩
      refine ⟨bit, ?_, isBit, rfl⟩
      have other : bit ≠ n := fun sameBit => same (by rw [sameBit])
      omega

/-- One page is copied. -/
theorem CopiedUpTo.copyPage {n : Nat} (upTo : CopiedUpTo s₀ s parent dir buf n table frame)
    (start : LoopStart s₀ child parent bufPage dir buf) (inside : n < 8 * parent.btmpBytesLen)
    (isSet : vaddrBit s₀ parent n = true)
    (copied : copyPage child parent bufPage s (n * pgSize + parent.vaddrStart) = some s') :
    ∃ table' frame', CopiedUpTo s₀ s' parent dir buf (n + 1) table' frame' := by
  obtain ⟨vaddr, isVaddr⟩ : ∃ vaddr, vaddr = n * pgSize + parent.vaddrStart := ⟨_, rfl⟩
  rw [← isVaddr] at copied
  obtain ⟨aligned, user, userPage, isPage⟩ := start.pageOfBit inside isVaddr
  have copying := upTo.copying
  simp only [Userprog.copyPage, Option.bind_eq_bind, Option.bind_eq_some_iff] at copied
  obtain ⟨s₁, toBuf, s₂, toChild, s₃, got, s₄, fromBuf, toParent⟩ := copied
  -- the page goes to the buffer
  obtain ⟨old, dst, isOld, isDst, rfl⟩ := memcpy_page start.bufAligned aligned toBuf
  have isDirParent : IsDir s.mem s.cr3 := by
    rw [upTo.active]
    exact copying.isDir_parent start
  have bufEntry : kernelEntry s.mem (pageOf bufPage) = pteOf (buf * pgSize) :=
    (copying.kernelEntry_eq start start.bufKernel).trans start.bufEntry
  obtain rfl : buf = dst :=
    Option.some.inj ((translate_of_entry isDirParent start.bufKernel bufEntry).symm.trans isDst)
  have isOld₀ : translatePage s₀.mem s₀.cr3 (pageOf vaddr) = some old := by
    rw [← copying.translate_parent start userPage, ← upTo.active]
    exact isOld
  have oldKept := start.userFrame _ userPage old isOld₀
  have copying₁ := copying.write start old (.inl rfl)
  -- under the child's directory the page is allocated
  rw [pageDirActivate_kernel (by
      simp only [upTo.active]
      exact copying₁.isDir_parent start) start.childAligned start.childPage
    ((copying₁.kernelEntry_eq start start.childPage).trans start.childEntry)] at toChild
  cases toChild
  obtain ⟨table', f, copying₃, active₃, isNew, others⟩ :=
    (copying₁.setCr3 dir).addPage start rfl user got
  -- and gets the words of the buffer
  obtain ⟨src, dst, isSrc, isDst, rfl⟩ := memcpy_page aligned start.bufAligned fromBuf
  have isDirChild : IsDir s₃.mem s₃.cr3 := by
    rw [active₃]
    exact copying₃.isDir start
  have bufEntry₃ : kernelEntry s₃.mem (pageOf bufPage) = pteOf (buf * pgSize) :=
    (copying₃.kernelEntry_eq start start.bufKernel).trans start.bufEntry
  obtain rfl : buf = src :=
    Option.some.inj ((translate_of_entry isDirChild start.bufKernel bufEntry₃).symm.trans isSrc)
  obtain rfl : f = dst := by
    have isFrame := copying₃.translate_child userPage
    rw [Function.update_self, ← active₃] at isFrame
    exact Option.some.inj (isFrame.symm.trans isDst)
  have copying₄ := copying₃.write start buf (.inr ⟨pageOf vaddr, Function.update_self _ _ _⟩)
  rw [pageDirActivate_kernel (by
      simp only [active₃]
      exact copying₄.isDir start) start.parentAligned start.parentPage
    ((copying₄.kernelEntry_eq start start.parentPage).trans start.parentEntry)] at toParent
  cases toParent
  have isFrame₃ : Function.update frame (pageOf vaddr) (some f) (pageOf vaddr) = some f :=
    Function.update_self _ _ _
  refine ⟨table', _, copying₄.setCr3 s₀.cr3, rfl, fun page => ?_, fun page g isFrame => ?_⟩
  · rw [isPage]
    exact upTo.pages_succ isSet f page
  · by_cases same : page = pageOf vaddr
    · subst same
      rw [isFrame₃] at isFrame
      cases isFrame
      refine ⟨old, isOld₀, fun idx small => ?_⟩
      have notTable : ∀ idx, table' idx ≠ some buf := fun idx isTable =>
        copying₃.table_ne isTable start.bufTaken rfl
      calc copyFrame s₃.mem f buf f idx
          = s₃.mem buf idx := copyFrame_self small
        _ = copyFrame s.mem buf old buf idx := by rw [others buf start.dirBuf.symm notTable]
        _ = s.mem old idx := copyFrame_self small
        _ = s₀.mem old idx := by rw [copying.kept old oldKept]
    · have isFrame' := isFrame
      rw [Function.update_of_ne same] at isFrame
      obtain ⟨old', isOld', equal⟩ := upTo.words page g isFrame
      refine ⟨old', isOld', fun idx small => ?_⟩
      have notNew : g ≠ f := fun sameFrame => isNew page (sameFrame ▸ isFrame)
      have notTable : ∀ idx, table' idx ≠ some g := fun idx isTable =>
        copying₃.table_ne_frame start isTable isFrame' rfl
      calc copyFrame s₃.mem f buf g idx
          = s₃.mem g idx := by rw [copyFrame_other notNew]
        _ = copyFrame s.mem buf old g idx := by
          rw [others g (copying.frame_ne isFrame start.dirTaken).symm notTable]
        _ = s.mem g idx := by rw [copyFrame_other (copying.frame_ne isFrame start.bufTaken).symm]
        _ = s₀.mem old' idx := equal idx small

/-- Clear bits change nothing. -/
theorem CopiedUpTo.skip {n m : Nat} (upTo : CopiedUpTo s₀ s parent dir buf n table frame)
    (le : n ≤ m) (clear : ∀ bit, n ≤ bit → bit < m → vaddrBit s₀ parent bit = false) :
    CopiedUpTo s₀ s parent dir buf m table frame := by
  refine ⟨upTo.copying, upTo.active, fun page => ?_, upTo.words⟩
  rw [upTo.pages]
  constructor
  · rintro ⟨bit, below, isBit, rfl⟩
    exact ⟨bit, by omega, isBit, rfl⟩
  · rintro ⟨bit, below, isBit, rfl⟩
    refine ⟨bit, ?_, isBit, rfl⟩
    by_contra above
    rw [clear bit (by omega) below] at isBit
    cases isBit

theorem vaddrBit_byte {idxByte idxBit byte : Nat} (small : idxBit < 8)
    (isByte : readByte s₀ (parent.bits + idxByte) = some byte) :
    vaddrBit s₀ parent (idxByte * 8 + idxBit) = byte.testBit idxBit := by
  unfold vaddrBit
  rw [show (idxByte * 8 + idxBit) / 8 = idxByte by omega,
    show (idxByte * 8 + idxBit) % 8 = idxBit by omega, isByte, Option.getD_some]

theorem copyBits_spec (start : LoopStart s₀ child parent bufPage dir buf) {idxByte left : Nat}
    (inside : idxByte < parent.btmpBytesLen) :
    ∀ {s : Mmu} {idxBit : Nat} {table frame : Nat → Option Nat}, left + idxBit = 8 →
      CopiedUpTo s₀ s parent dir buf (idxByte * 8 + idxBit) table frame →
      copyBits child parent bufPage idxByte left s idxBit = some s' →
      ∃ table' frame', CopiedUpTo s₀ s' parent dir buf ((idxByte + 1) * 8) table' frame' := by
  induction left with
  | zero =>
      intro s idxBit table frame count upTo copied
      cases copied
      rw [show idxByte * 8 + idxBit = (idxByte + 1) * 8 by omega] at upTo
      exact ⟨table, frame, upTo⟩
  | succ left inductionHypothesis =>
      intro s idxBit table frame count upTo copied
      simp only [copyBits, Option.bind_eq_bind, Option.bind_eq_some_iff] at copied
      obtain ⟨byte, isByte, rest⟩ := copied
      rw [upTo.readByte_eq start inside] at isByte
      have isBit := vaddrBit_byte (show idxBit < 8 by omega) isByte
      split at rest
      · rename_i isSet
        simp only [Option.bind_eq_some_iff] at rest
        obtain ⟨s₁, first, rest⟩ := rest
        obtain ⟨table₁, frame₁, upTo₁⟩ :=
          upTo.copyPage start (by omega) (isBit.trans isSet) first
        exact inductionHypothesis (by omega) upTo₁ rest
      · rename_i isClear
        refine inductionHypothesis (by omega) (upTo.skip (by omega) fun bit low high => ?_) rest
        rw [show bit = idxByte * 8 + idxBit by omega, isBit]
        simpa using isClear

theorem copyBytes_spec (start : LoopStart s₀ child parent bufPage dir buf) {left : Nat} :
    ∀ {s : Mmu} {idxByte : Nat} {table frame : Nat → Option Nat},
      left + idxByte = parent.btmpBytesLen →
      CopiedUpTo s₀ s parent dir buf (idxByte * 8) table frame →
      copyBytes child parent bufPage left s idxByte = some s' →
      ∃ table' frame',
        CopiedUpTo s₀ s' parent dir buf (8 * parent.btmpBytesLen) table' frame' := by
  induction left with
  | zero =>
      intro s idxByte table frame count upTo copied
      cases copied
      rw [show idxByte * 8 = 8 * parent.btmpBytesLen by omega] at upTo
      exact ⟨table, frame, upTo⟩
  | succ left inductionHypothesis =>
      intro s idxByte table frame count upTo copied
      simp only [copyBytes, Option.bind_eq_bind, Option.bind_eq_some_iff] at copied
      obtain ⟨byte, isByte, rest⟩ := copied
      split at rest
      · simp only [Option.bind_eq_some_iff] at rest
        obtain ⟨s₁, first, rest⟩ := rest
        obtain ⟨table₁, frame₁, upTo₁⟩ := copyBits_spec start (by omega) (by omega) upTo first
        exact inductionHypothesis (by omega) upTo₁ rest
      · -- a byte without a set bit is skipped
        rename_i isZero
        have isZero : byte = 0 := by simpa using isZero
        rw [upTo.readByte_eq start (by omega), isZero] at isByte
        refine inductionHypothesis (by omega) (upTo.skip (by omega) fun bit low high => ?_) rest
        rw [show bit = idxByte * 8 + (bit - idxByte * 8) by omega,
          vaddrBit_byte (by omega) isByte, Nat.zero_testBit]

/-- The loop begins with an empty half. -/
theorem LoopStart.copying (start : LoopStart s₀ child parent bufPage dir buf) :
    CopiedUpTo s₀ s₀ parent dir buf 0 (fun _ => none) fun _ => none := by
  refine ⟨⟨⟨fun _ => rfl, fun _ => rfl, rfl, rfl⟩, fun _ _ free => free, fun _ _ => rfl,
    fun _ _ => rfl, start.empty, ?_, ?_, ?_, ?_, ?_, ?_⟩, rfl, ?_, ?_⟩ <;> simp

end Loop

/-! ### Before the loop -/

namespace Forkable

variable {s s' : Mmu} {parent : Pcb}

theorem dirTaken (forkable : Forkable s parent) : ¬ s.Free s.cr3 := by
  refine forkable.taken 0xfffff (by decide) s.cr3 ?_
  have self : translatePage s.mem s.cr3 (0xffc00 + 1023) = _ :=
    forkable.isDir.translate_self (by decide)
  rw [forkable.isDir.self] at self
  simpa only [present_pteOf, if_true, entryFrame_pteOf] using self

theorem running (forkable : Forkable s parent) : s.Running :=
  ⟨forkable.layout, forkable.isDir, forkable.notTable, forkable.dirTaken⟩

theorem tableTaken (forkable : Forkable s parent) {idx : Nat} (low : idx < 768)
    (isPresent : present (s.mem s.cr3 idx) = true) :
    ¬ s.Free (entryFrame (s.mem s.cr3 idx)) := by
  refine forkable.taken (0xffc00 + idx) (by omega) _ ?_
  rw [forkable.isDir.translate_self (by omega), if_pos isPresent]

/-- What the parent maps stays where it is. -/
theorem translate_user (forkable : Forkable s parent) (extends_ : Extends s s') {page : Nat}
    (user : page < 0xc0000) : translatePage s'.mem s.cr3 page = translatePage s.mem s.cr3 page := by
  have same := extends_.other _ forkable.notTable forkable.dirTaken
  refine translate_congr (by rw [same]) fun isPresent => ?_
  have low : page / 1024 < 768 := by omega
  rw [extends_.other _ (forkable.userTable _ low isPresent) (forkable.tableTaken low isPresent)]

/-- The frames of the parent's bitmap. -/
theorem bitsFrame (forkable : Forkable s parent) (extends_ : Extends s s') {i : Nat}
    (inside : i < bitmapPgCnt) :
    ∃ frame, ¬ IsKernelTable frame ∧ ¬ s.Free frame ∧
      translatePage s.mem s.cr3 (pageOf parent.bits + i) = some frame ∧
      translatePage s'.mem s.cr3 (pageOf parent.bits + i) = some frame := by
  obtain ⟨frame, notTable, entry⟩ := forkable.bitsEntry i inside
  have isKernel := forkable.bitsPage i inside
  have isFrame := translate_of_entry forkable.isDir isKernel entry
  have isDir := (extends_.running forkable.running).isDir
  rw [extends_.cr3] at isDir
  refine ⟨frame, notTable, forkable.taken _ ?_ frame isFrame, isFrame,
    translate_of_entry isDir isKernel (extends_.entryOf isKernel entry)⟩
  have := isKernel.2
  omega

theorem vaddrBit_eq (forkable : Forkable s parent) (extends_ : Extends s s') {bit : Nat}
    (inside : bit < 8 * parent.btmpBytesLen) : vaddrBit s' parent bit = vaddrBit s parent bit := by
  have len := forkable.bitsLen
  have aligned := forkable.bitsAligned
  have isPage : (parent.bits + bit / 8) / pgSize = pageOf parent.bits + bit / 8 / pgSize := by
    simp only [pageOf, pgSize] at *
    omega
  have inBitmap : bit / 8 / pgSize < bitmapPgCnt := by
    simp only [bitmapPgCnt, pgSize] at *
    omega
  obtain ⟨frame, notTable, taken, isFrame, isFrame'⟩ := forkable.bitsFrame extends_ inBitmap
  unfold vaddrBit readByte Mmu.read Mmu.lookup
  rw [isPage, extends_.cr3, isFrame, isFrame']
  simp [extends_.other frame notTable taken]

end Forkable

/-- What the loop finds, compared with the state of the call. -/
structure Prepared (s s₀ : Mmu) (child parent : Pcb) (bufPage dir buf : Nat) : Prop where
  extends_ : Extends s s₀
  start : LoopStart s₀ child parent bufPage dir buf
  dirFree : s.Free dir
  bufFree : s.Free buf
  vaddrStart : child.vaddrStart = parent.vaddrStart
  btmpBytesLen : child.btmpBytesLen = parent.btmpBytesLen
  bitmap : ∀ i < bitmapPgCnt, IsKernelPage (pageOf child.bits + i) ∧
    pageOf child.bits + i ≠ pageOf bufPage ∧ ∃ old new,
      translatePage s.mem s.cr3 (pageOf parent.bits + i) = some old ∧
      kernelEntry s₀.mem (pageOf child.bits + i) = pteOf (new * pgSize) ∧
      s.Free new ∧ Kept s₀ dir buf new ∧ ∀ idx < 1024, s₀.mem new idx = s.mem old idx

/-- `get_kernel_pages` for one page. -/
theorem getKernelPages_one {s s' : Mmu} {vaddr : Nat} (running : s.Running)
    (got : s.getKernelPages 1 = some (s', vaddr)) :
    s'.Running ∧ Extends s s' ∧ vaddr % pgSize = 0 ∧ IsKernelPage (pageOf vaddr) ∧
      ∃ frame, s.Free frame ∧ ¬ s'.Free frame ∧
        kernelEntry s'.mem (pageOf vaddr) = pteOf (frame * pgSize) := by
  obtain ⟨running', aligned, frames, pages⟩ := Mmu.getKernelPages_spec running got
  refine ⟨running', extends_of_kernelPages pages, aligned, pages.range 0 (by omega), frames 0,
    ⟨_, pages.wasFree 0 (by omega)⟩, ?_, pages.entry 0 (by omega)⟩
  rintro ⟨pf, free⟩
  exact ((pages.free pf _).mp free).2 0 (by omega) rfl

/-- The child's bitmap is a copy in frames that were free. -/
structure BitmapCopied (s s' : Mmu) (bits bits' : Nat) (frames : Nat → Nat) : Prop where
  extends_ : Extends s s'
  aligned : bits' % pgSize = 0
  page : ∀ i < bitmapPgCnt, IsKernelPage (pageOf bits' + i)
  absent : ∀ i < bitmapPgCnt, present (kernelEntry s.mem (pageOf bits' + i)) = false
  entry : ∀ i < bitmapPgCnt, kernelEntry s'.mem (pageOf bits' + i) = pteOf (frames i * pgSize)
  wasFree : ∀ i < bitmapPgCnt, s.Free (frames i)
  taken : ∀ i < bitmapPgCnt, ¬ s'.Free (frames i)
  words : ∀ i < bitmapPgCnt, ∃ old, translatePage s.mem s.cr3 (pageOf bits + i) = some old ∧
    ∀ idx < 1024, s'.mem (frames i) idx = s.mem old idx

theorem copyBitmap_spec {s s₁ s' : Mmu} {bits vaddrBtmp : Nat} (running : s.Running)
    (aligned : bits % pgSize = 0)
    (source : ∀ i < bitmapPgCnt, IsKernelPage (pageOf bits + i) ∧ ∃ frame,
      ¬ IsKernelTable frame ∧ ¬ s.Free frame ∧
      kernelEntry s.mem (pageOf bits + i) = pteOf (frame * pgSize))
    (got : s.getKernelPages bitmapPgCnt = some (s₁, vaddrBtmp))
    (copied : copyPages bitmapPgCnt s₁ vaddrBtmp bits = some s') :
    ∃ frames, BitmapCopied s s' bits vaddrBtmp frames := by
  obtain ⟨running₁, aligned₁, frames, pages⟩ := Mmu.getKernelPages_spec running got
  have extends₁ := extends_of_kernelPages pages
  have isFree : ∀ i < bitmapPgCnt, s.Free (frames i) := fun i inside =>
    ⟨_, pages.wasFree i inside⟩
  have notTable : ∀ i < bitmapPgCnt, ¬ IsKernelTable (frames i) := by
    intro i inside isTable
    have := (isFree i inside).notKernelTable running.layout
    have := isTable.2
    omega
  have source₁ : ∀ i < bitmapPgCnt, ∃ frame, ¬ IsKernelTable frame ∧ ¬ s.Free frame ∧
      translatePage s.mem s.cr3 (pageOf bits + i) = some frame ∧
      translatePage s₁.mem s₁.cr3 (pageOf bits + i) = some frame := by
    intro i inside
    obtain ⟨isKernel, frame, isOther, taken, entry⟩ := source i inside
    exact ⟨frame, isOther, taken, translate_of_entry running.isDir isKernel entry,
      translate_of_entry running₁.isDir isKernel (extends₁.entryOf isKernel entry)⟩
  have range : CopyRange s₁ vaddrBtmp bits bitmapPgCnt frames := by
    refine ⟨running₁.isDir, aligned₁, aligned, pages.range, fun i inside => (source i inside).1,
      pages.entry, notTable, ?_, pages.inj, ?_⟩
    · intro i inside same
      rw [pages.cr3] at same
      exact running.taken (same ▸ isFree i inside)
    · intro i inside old isOld j inside' same
      obtain ⟨frame, _, taken, _, isFrame⟩ := source₁ i inside
      rw [isFrame] at isOld
      cases isOld
      exact taken (same ▸ isFree j inside')
  obtain ⟨m, rfl, others, words⟩ := copyPages_spec range copied
  have unchanged : ∀ frame, ¬ s.Free frame → m frame = s₁.mem frame := by
    intro frame taken
    refine others frame fun i inside same => taken ?_
    rw [same]
    exact isFree i inside
  refine ⟨frames, extends₁.setMem unchanged running.layout, aligned₁, pages.range, pages.absent,
    fun i inside => ?_, isFree, fun i inside => ?_, fun i inside => ?_⟩
  · rw [← pages.entry i inside]
    refine kernelEntry_congr (pages.range i inside) fun frame isTable => others frame ?_
    intro j inside' same
    rw [same] at isTable
    exact notTable j inside' isTable
  · rintro ⟨pf, free⟩
    exact ((pages.free pf _).mp free).2 i inside rfl
  · obtain ⟨frame, isOther, taken, isFrame, isFrame₁⟩ := source₁ i inside
    obtain ⟨old, isOld, equal⟩ := words i inside
    rw [isFrame₁] at isOld
    cases isOld
    refine ⟨frame, isFrame, fun idx small => ?_⟩
    rw [← extends₁.other frame isOther taken]
    exact equal idx small

/-- What the call takes before its loop: a page for the buffer up to `s₂`, the pages of the child's
bitmap up to `s₄`, and the child's directory up to `s₅`. -/
structure Taken (s s₂ s₄ s₅ : Mmu) (parent child : Pcb) (bufPage dir buf : Nat) (frames : Nat → Nat) : Prop where
  forkable : Forkable s parent
  upToBuf : Extends s s₂
  bufAligned : bufPage % pgSize = 0
  bufKernel : IsKernelPage (pageOf bufPage)
  bufFree : s.Free buf
  bufTaken : ¬ s₂.Free buf
  bufEntry : kernelEntry s₂.mem (pageOf bufPage) = pteOf (buf * pgSize)
  bitmap : BitmapCopied s₂ s₄ parent.bits child.bits frames
  running : s₅.Running
  new : s₄.NewDir s₅ child.pgdir dir

namespace Taken

variable {s s₂ s₄ s₅ : Mmu} {parent child : Pcb} {bufPage dir buf : Nat} {frames : Nat → Nat}

theorem afterBuf (taken : Taken s s₂ s₄ s₅ parent child bufPage dir buf frames) : Extends s₂ s₅ :=
  taken.bitmap.extends_.trans (extends_of_newDir taken.new)

theorem upTo (taken : Taken s s₂ s₄ s₅ parent child bufPage dir buf frames) : Extends s s₅ :=
  taken.upToBuf.trans taken.afterBuf

theorem dirFree (taken : Taken s s₂ s₄ s₅ parent child bufPage dir buf frames) : s₂.Free dir :=
  ⟨_, taken.bitmap.extends_.free _ _ taken.new.wasFree⟩

/-- What was taken before the call is none of this. -/
theorem kept (taken : Taken s s₂ s₄ s₅ parent child bufPage dir buf frames) {frame : Nat} (old : ¬ s.Free frame) :
    Kept s₅ dir buf frame := by
  refine ⟨fun free => old (taken.upTo.free_of free), ?_, ?_⟩
  · exact fun same => old (same ▸ taken.upToBuf.free_of taken.dirFree)
  · exact fun same => old (same ▸ taken.bufFree)

theorem notKernelTable (taken : Taken s s₂ s₄ s₅ parent child bufPage dir buf frames) {frame : Nat}
    (free : s.Free frame) : ¬ IsKernelTable frame := by
  intro isTable
  have below := free.notKernelTable taken.forkable.layout
  have above := isTable.2
  omega

/-- The loop can start. -/
theorem loopStart (taken : Taken s s₂ s₄ s₅ parent child bufPage dir buf frames) :
    LoopStart s₅ child parent bufPage dir buf := by
  have forkable := taken.forkable
  have upTo := taken.upTo
  constructor
  case running => exact taken.running
  case parentAligned => exact forkable.pgdirAligned
  case parentPage => exact forkable.pgdirPage
  case parentEntry =>
    rw [upTo.cr3]
    exact upTo.entryOf forkable.pgdirPage forkable.pgdirEntry
  case childAligned => exact taken.new.aligned
  case childPage => exact taken.new.isKernel
  case childEntry => exact taken.new.entry
  case bufAligned => exact taken.bufAligned
  case bufKernel => exact taken.bufKernel
  case bufEntry => exact taken.afterBuf.entryOf taken.bufKernel taken.bufEntry
  case isDir => exact taken.new.isDir
  case empty => exact taken.new.empty
  case dirTaken =>
    rintro ⟨pf, free⟩
    exact ((taken.new.free pf dir).mp free).2 rfl
  case bufTaken => exact fun free => taken.bufTaken (taken.afterBuf.free_of free)
  case dirNotTable => exact taken.notKernelTable (taken.upToBuf.free_of taken.dirFree)
  case bufNotTable => exact taken.notKernelTable taken.bufFree
  case dirBuf =>
    rintro rfl
    exact taken.bufTaken taken.dirFree
  case parentKept =>
    rw [upTo.cr3]
    exact taken.kept forkable.dirTaken
  case userTable =>
    intro idx low isPresent
    rw [upTo.cr3, upTo.other _ forkable.notTable forkable.dirTaken] at isPresent ⊢
    exact taken.kept (forkable.tableTaken low isPresent)
  case userFrame =>
    intro page user frame isFrame
    rw [upTo.cr3, forkable.translate_user upTo user] at isFrame
    exact taken.kept (forkable.taken page (by omega) frame isFrame)
  case bitsAligned => exact forkable.bitsAligned
  case bitsPage => exact forkable.bitsPage
  case bitsKept =>
    intro i inside frame isFrame
    obtain ⟨frame', _, old, _, isFrame'⟩ := forkable.bitsFrame upTo inside
    rw [upTo.cr3, isFrame'] at isFrame
    cases isFrame
    exact taken.kept old
  case bitsLen => exact forkable.bitsLen
  case vaddrAligned => exact forkable.vaddrAligned
  case vaddrHigh => exact forkable.vaddrHigh

/-- The pages of the bitmap are none of the others, and hold what the parent's hold. -/
theorem bitmap_kept (taken : Taken s s₂ s₄ s₅ parent child bufPage dir buf frames) {i : Nat}
    (inside : i < bitmapPgCnt) :
    IsKernelPage (pageOf child.bits + i) ∧ pageOf child.bits + i ≠ pageOf bufPage ∧ ∃ old new,
      translatePage s.mem s.cr3 (pageOf parent.bits + i) = some old ∧
      kernelEntry s₅.mem (pageOf child.bits + i) = pteOf (new * pgSize) ∧
      s.Free new ∧ Kept s₅ dir buf new ∧ ∀ idx < 1024, s₅.mem new idx = s.mem old idx := by
  have bitmap := taken.bitmap
  have wasFree := bitmap.wasFree i inside
  have isFree := taken.upToBuf.free_of wasFree
  have notDir : frames i ≠ dir := fun same =>
    bitmap.taken i inside ⟨_, same ▸ taken.new.wasFree⟩
  refine ⟨bitmap.page i inside, fun same => ?_, ?_⟩
  · have absent := bitmap.absent i inside
    rw [same, taken.bufEntry, present_pteOf] at absent
    cases absent
  · obtain ⟨old, isOld, equal⟩ := bitmap.words i inside
    obtain ⟨old', isOther, oldTaken, isOld₀, isOld₂⟩ := taken.forkable.bitsFrame taken.upToBuf inside
    rw [taken.upToBuf.cr3, isOld₂] at isOld
    cases isOld
    refine ⟨old, frames i, isOld₀, (extends_of_newDir taken.new).entryOf (bitmap.page i inside)
      (bitmap.entry i inside), isFree, ⟨fun free => ?_, notDir, ?_⟩, fun idx small => ?_⟩
    · exact bitmap.taken i inside ((extends_of_newDir taken.new).free_of free)
    · rintro rfl
      exact taken.bufTaken wasFree
    · rw [taken.new.other (frames i) (taken.notKernelTable isFree) notDir, equal idx small,
        taken.upToBuf.other old isOther oldTaken]

theorem prepared (taken : Taken s s₂ s₄ s₅ parent child bufPage dir buf frames)
    (vaddrStart : child.vaddrStart = parent.vaddrStart) (btmpBytesLen : child.btmpBytesLen = parent.btmpBytesLen) :
    Prepared s s₅ child parent bufPage dir buf :=
  ⟨taken.upTo, taken.loopStart, taken.upToBuf.free_of taken.dirFree, taken.bufFree, vaddrStart, btmpBytesLen,
    fun _ inside => taken.bitmap_kept inside⟩

end Taken

theorem Forkable.prepared {s s' : Mmu} {pid : Nat} {parent child : Pcb}
    (forkable : Forkable s parent) (forked : sysFork s pid parent = some (s', child)) :
    ∃ s₀ s₁ bufPage dir buf, Prepared s s₀ child parent bufPage dir buf ∧
      copyBodyStack3 s₀ child parent bufPage = some s₁ ∧ s₁.mfreeKernelPage bufPage = some s' := by
  simp only [sysFork, copyProcess, Option.bind_eq_bind, Option.bind_eq_some_iff] at forked
  obtain ⟨⟨s₁, pcb⟩, gotPcb, ⟨s₂, bufPage⟩, gotBuf, ⟨s₄, child₀⟩, gotBitmap, ⟨s₅, pgdir⟩, created,
    s₆, copied, s₇, freed, result⟩ := forked
  cases result
  simp only [copyPcbVaddrbitmapStack0, Option.bind_eq_bind, Option.bind_eq_some_iff] at gotBitmap
  obtain ⟨⟨s₃, vaddrBtmp⟩, gotPages, s₄', copiedPages, named⟩ := gotBitmap
  split at named
  · cases named
    obtain ⟨running₁, extends₁, _⟩ := getKernelPages_one forkable.running gotPcb
    obtain ⟨running₂, extends₂, bufAligned, bufKernel, buf, bufFree, bufTaken, bufEntry⟩ :=
      getKernelPages_one running₁ gotBuf
    have upTo₂ := extends₁.trans extends₂
    obtain ⟨frames, bitmap⟩ := copyBitmap_spec running₂ forkable.bitsAligned (fun i inside => by
      obtain ⟨frame, isOther, entry⟩ := forkable.bitsEntry i inside
      have isKernel := forkable.bitsPage i inside
      have taken := forkable.taken _ (by have := isKernel.2; omega) frame
        (translate_of_entry forkable.isDir isKernel entry)
      exact ⟨isKernel, frame, isOther, fun free => taken (upTo₂.free_of free),
        upTo₂.entryOf isKernel entry⟩) gotPages copiedPages
    obtain ⟨running₅, dir, new⟩ := Mmu.createPageDir_spec (bitmap.extends_.running running₂) created
    refine ⟨s₅, s₆, bufPage, dir, buf, ?_, copied, freed⟩
    refine @Taken.prepared s s₂ s₄ s₅ parent _ bufPage dir buf frames ?_ rfl rfl
    exact ⟨forkable, upTo₂, bufAligned, bufKernel, extends₁.free_of bufFree, bufTaken, bufEntry, bitmap,
      running₅, new⟩
  · cases named

/-! ### After the loop -/

/-- `mfree_page` of the buffer writes one entry of the kernel's page tables. -/
theorem mfreeKernelPage_spec {s s' : Mmu} {vaddr : Nat} (isDir : IsDir s.mem s.cr3)
    (isKernel : IsKernelPage (pageOf vaddr)) (freed : s.mfreeKernelPage vaddr = some s') :
    s'.cr3 = s.cr3 ∧ (∀ frame, ¬ IsKernelTable frame → s'.mem frame = s.mem frame) ∧
      ∀ vpage, IsKernelPage vpage → vpage ≠ pageOf vaddr →
        kernelEntry s'.mem vpage = kernelEntry s.mem vpage := by
  simp only [Mmu.mfreeKernelPage, Option.bind_eq_bind, Option.bind_eq_some_iff] at freed
  obtain ⟨pgPhyAddr, _, freed⟩ := freed
  split at freed
  · simp only [Option.bind_eq_some_iff] at freed
    obtain ⟨s₁, removed, result⟩ := freed
    have memEq : (s.pfree pgPhyAddr).mem = s.mem := rfl
    have cr3Eq : (s.pfree pgPhyAddr).cr3 = s.cr3 := rfl
    generalize s.pfree pgPhyAddr = s₂ at removed memEq cr3Eq
    rw [← memEq, ← cr3Eq] at isDir
    rw [← memEq, ← cr3Eq]
    obtain ⟨value, rfl⟩ := Mmu.pageTablePteRemove_kernel isDir isKernel removed
    cases result
    refine ⟨rfl, fun frame notTable => ?_, fun vpage isKernel' other => ?_⟩
    · have ne : frame ≠ 0x101 + (pageOf vaddr / 1024 - 768) := by
        intro same
        rw [same] at notTable
        exact notTable (kernelTable_of_page isKernel)
      funext idx
      dsimp only
      rw [setWord_other (.inl ne)]
    · dsimp only
      rw [kernelEntry_setWord isKernel isKernel', if_neg other]
  · cases freed

/-- A call that succeeds: `s₀` before the loop over the bitmap, `s₁` behind it. -/
structure Finished (s s₀ s₁ s' : Mmu) (parent child : Pcb) (bufPage dir buf : Nat)
    (table frame : Nat → Option Nat) : Prop where
  forkable : Forkable s parent
  prepared : Prepared s s₀ child parent bufPage dir buf
  upTo : CopiedUpTo s₀ s₁ parent dir buf (8 * parent.btmpBytesLen) table frame
  active : s'.cr3 = s₁.cr3
  others : ∀ frame, ¬ IsKernelTable frame → s'.mem frame = s₁.mem frame
  entries : ∀ vpage, IsKernelPage vpage → vpage ≠ pageOf bufPage →
    kernelEntry s'.mem vpage = kernelEntry s₁.mem vpage

theorem Forkable.finished {s s' : Mmu} {pid : Nat} {parent child : Pcb} (forkable : Forkable s parent)
    (forked : sysFork s pid parent = some (s', child)) :
    ∃ s₀ s₁ bufPage dir buf table frame, Finished s s₀ s₁ s' parent child bufPage dir buf table frame := by
  obtain ⟨s₀, s₁, bufPage, dir, buf, prepared, copied, freed⟩ := forkable.prepared forked
  have start := prepared.start
  obtain ⟨table, frame, upTo⟩ := copyBytes_spec start (by omega) start.copying copied
  have isDir : IsDir s₁.mem s₁.cr3 := by
    rw [upTo.active]
    exact upTo.copying.isDir_parent start
  obtain ⟨active, others, entries⟩ := mfreeKernelPage_spec isDir start.bufKernel freed
  exact ⟨s₀, s₁, bufPage, dir, buf, table, frame, forkable, prepared, upTo, active, others, entries⟩

namespace Finished

variable {s s₀ s₁ s' : Mmu} {parent child : Pcb} {bufPage dir buf : Nat} {table frame : Nat → Option Nat}

theorem cr3_eq (finished : Finished s s₀ s₁ s' parent child bufPage dir buf table frame) : s'.cr3 = s.cr3 :=
  finished.active.trans (finished.upTo.active.trans finished.prepared.extends_.cr3)

/-- The kernel's pages are where they were before the loop, but for the buffer. -/
theorem kernelEntry_eq (finished : Finished s s₀ s₁ s' parent child bufPage dir buf table frame) {vpage : Nat}
    (isKernel : IsKernelPage vpage) (notBuf : vpage ≠ pageOf bufPage) :
    kernelEntry s'.mem vpage = kernelEntry s₀.mem vpage := by
  rw [finished.entries vpage isKernel notBuf, finished.upTo.copying.kernelEntry_eq finished.prepared.start isKernel]

theorem notKernelTable (finished : Finished s s₀ s₁ s' parent child bufPage dir buf table frame) {f : Nat}
    (free : s.Free f) : ¬ IsKernelTable f := by
  intro isTable
  have below := free.notKernelTable finished.forkable.layout
  have above := isTable.2
  omega

/-- The page tables of the child were free before the call. -/
theorem table_free (finished : Finished s s₀ s₁ s' parent child bufPage dir buf table frame) {idx t : Nat}
    (isTable : table idx = some t) : s.Free t :=
  finished.prepared.extends_.free_of ⟨_, (finished.upTo.copying.tableNew idx t isTable).1⟩

/-- So were its pages. -/
theorem frame_free (finished : Finished s s₀ s₁ s' parent child bufPage dir buf table frame) {page f : Nat}
    (isFrame : frame page = some f) : s.Free f :=
  finished.prepared.extends_.free_of ⟨_, (finished.upTo.copying.frameNew page f isFrame).1⟩

/-- The child's half, as its directory translates it. -/
theorem translate_child (finished : Finished s s₀ s₁ s' parent child bufPage dir buf table frame) {page : Nat}
    (user : page < 0xc0000) : translatePage s'.mem dir page = frame page := by
  have copying := finished.upTo.copying
  have notTable := finished.prepared.start.dirNotTable
  rw [← copying.translate_child user]
  refine translate_congr (by rw [finished.others _ notTable]) fun isPresent => ?_
  rw [copying.pde _ (by omega)] at isPresent ⊢
  cases isTable : table (page / 1024) with
  | none => simp [isTable, present] at isPresent
  | some t =>
      rw [Option.elim_some, entryFrame_pteOf, finished.others t (finished.notKernelTable (finished.table_free isTable))]

/-- What was taken before the call holds what it held, but for the kernel's page tables. -/
theorem kept (finished : Finished s s₀ s₁ s' parent child bufPage dir buf table frame) {f : Nat}
    (notTable : ¬ IsKernelTable f) (taken : ¬ s.Free f) : s'.mem f = s.mem f := by
  have extends_ := finished.prepared.extends_
  have kept : Kept s₀ dir buf f :=
    ⟨fun free => taken (extends_.free_of free), fun same => taken (same ▸ finished.prepared.dirFree),
      fun same => taken (same ▸ finished.prepared.bufFree)⟩
  rw [finished.others f notTable, finished.upTo.copying.kept f kept, extends_.other f notTable taken]

theorem dir_kept (finished : Finished s s₀ s₁ s' parent child bufPage dir buf table frame) :
    s'.mem s.cr3 = s.mem s.cr3 :=
  finished.kept finished.forkable.notTable finished.forkable.dirTaken

/-- The page tables of the parent's half. -/
theorem table_kept (finished : Finished s s₀ s₁ s' parent child bufPage dir buf table frame) {idx : Nat}
    (low : idx < 768) (isPresent : present (s.mem s.cr3 idx) = true) :
    s'.mem (entryFrame (s.mem s.cr3 idx)) = s.mem (entryFrame (s.mem s.cr3 idx)) :=
  finished.kept (finished.forkable.userTable idx low isPresent) (finished.forkable.tableTaken low isPresent)

theorem translate_parent (finished : Finished s s₀ s₁ s' parent child bufPage dir buf table frame) {page : Nat}
    (user : page < 0xc0000) : translatePage s'.mem s.cr3 page = translatePage s.mem s.cr3 page := by
  refine translate_congr (by rw [finished.dir_kept]) fun isPresent => ?_
  rw [finished.table_kept (by omega) isPresent]

/-- The child's PCB has the address of its directory. -/
theorem pgdir (finished : Finished s s₀ s₁ s' parent child bufPage dir buf table frame) :
    s'.addrV2p child.pgdir = some (dir * pgSize) := by
  have start := finished.prepared.start
  have notBuf : pageOf child.pgdir ≠ pageOf bufPage := by
    intro same
    have entry := start.childEntry
    rw [same, start.bufEntry] at entry
    have sameFrame := congrArg entryFrame entry
    rw [entryFrame_pteOf, entryFrame_pteOf] at sameFrame
    exact start.dirBuf sameFrame.symm
  refine Mmu.addrV2p_kernel ?_ start.childPage
    ((finished.kernelEntry_eq start.childPage notBuf).trans start.childEntry) start.childAligned
  rw [finished.cr3_eq]
  exact finished.forkable.isDir.congr finished.dir_kept

/-- The page of a set bit is copied. -/
theorem copied (finished : Finished s s₀ s₁ s' parent child bufPage dir buf table frame) {bit : Nat}
    (inside : bit < 8 * parent.btmpBytesLen) (isSet : vaddrBit s parent bit = true) :
    ∃ old new, translatePage s.mem s.cr3 (bitPage parent bit) = some old ∧
      translatePage s'.mem dir (bitPage parent bit) = some new ∧
      ∀ idx < 1024, s'.mem new idx = s.mem old idx := by
  have forkable := finished.forkable
  have extends_ := finished.prepared.extends_
  have user : bitPage parent bit < 0xc0000 := by
    have high := forkable.vaddrHigh
    have aligned := forkable.vaddrAligned
    simp only [bitPage, pageOf, pgSize] at *
    omega
  rw [← forkable.vaddrBit_eq extends_ inside] at isSet
  obtain ⟨f, isFrame⟩ := Option.ne_none_iff_exists'.mp
    ((finished.upTo.pages (bitPage parent bit)).mpr ⟨bit, inside, isSet, rfl⟩)
  obtain ⟨old, isOld, equal⟩ := finished.upTo.words _ f isFrame
  rw [extends_.cr3, forkable.translate_user extends_ user] at isOld
  refine ⟨old, f, isOld, (finished.translate_child user).trans isFrame, fun idx small => ?_⟩
  rw [finished.others f (finished.notKernelTable (finished.frame_free isFrame)), equal idx small,
    extends_.other old (forkable.userFrame _ user old isOld) (forkable.taken _ (by omega) old isOld)]

/-- The pages of the child's bitmap are copies of the parent's, in frames that were free. -/
theorem bitmap (finished : Finished s s₀ s₁ s' parent child bufPage dir buf table frame) {i : Nat}
    (inside : i < bitmapPgCnt) :
    ∃ old new, translatePage s.mem s.cr3 (pageOf parent.bits + i) = some old ∧
      translatePage s'.mem dir (pageOf child.bits + i) = some new ∧
      (∀ other < 2 ^ 20, translatePage s.mem s.cr3 other ≠ some new) ∧
      ∀ idx < 1024, s'.mem new idx = s.mem old idx := by
  have start := finished.prepared.start
  have copying := finished.upTo.copying
  have isDirChild : IsDir s'.mem dir := (copying.isDir start).congr (finished.others _ start.dirNotTable)
  obtain ⟨isKernel, notBuf, old, new, isOld, entry, isFree, kept, equal⟩ := finished.prepared.bitmap i inside
  refine ⟨old, new, isOld, ?_, fun other small isMapped => ?_, fun idx small => ?_⟩
  · exact translate_of_entry isDirChild isKernel ((finished.kernelEntry_eq isKernel notBuf).trans entry)
  · exact finished.forkable.taken other small new isMapped isFree
  · rw [finished.others new (finished.notKernelTable isFree), copying.kept new kept, equal idx small]

end Finished

end ZyOs.Userprog
