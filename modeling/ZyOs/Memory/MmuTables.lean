import ZyOs.Memory.Mmu

/-!
Contract: what the functions of `Memory.Mmu` do to physical memory when the
loaded directory maps itself by entry 1023.

`IsDir` is what the loader and `create_page_dir` give every directory: the
kernel's entries point to the page tables of the loader, in the frames from
`0x101` on, and the last entry to the directory itself. `Free` are the frames
the pools can still hand out.
-/

namespace ZyOs.Memory

open ZyOs.Kernel

/-! ### Entries -/

theorem entryFrame_pteOf (frame : Nat) : entryFrame (pteOf (frame * pgSize)) = frame := by
  rw [pteOf_eq (Nat.mul_mod_left frame pgSize)]
  simp only [entryFrame, pgSize]
  omega

theorem present_pteOf (phyaddr : Nat) : present (pteOf phyaddr) = true := by
  simp [present, pteOf_present]

theorem setWord_self (m : Frames) (frame idx value : Nat) :
    setWord m frame idx value frame idx = value := by
  simp [setWord]

theorem setWord_other {m : Frames} {frame idx value frame' idx' : Nat}
    (other : frame' ≠ frame ∨ idx' ≠ idx) :
    setWord m frame idx value frame' idx' = m frame' idx' := by
  unfold setWord
  by_cases same : frame' = frame
  · subst same
    rw [Function.update_self, Function.update_of_ne (other.resolve_left (by simp))]
  · rw [Function.update_of_ne same]

/-- What every directory of the system looks like. -/
structure IsDir (m : Frames) (dir : Nat) : Prop where
  kernel : ∀ idx, 768 ≤ idx → idx < 1023 → m dir idx = pteOf ((0x101 + (idx - 768)) * pgSize)
  self : m dir 1023 = pteOf (dir * pgSize)

/-- The frames of the kernel's page tables. -/
def IsKernelTable (frame : Nat) : Prop := 0x101 ≤ frame ∧ frame < 0x200

/-- Translation looks at one entry of the directory and one of a page table. -/
theorem translate_congr {m m' : Frames} {dir page : Nat}
    (pde : m' dir (page / 1024) = m dir (page / 1024))
    (pte : present (m dir (page / 1024)) = true →
      m' (entryFrame (m dir (page / 1024))) (page % 1024) =
        m (entryFrame (m dir (page / 1024))) (page % 1024)) :
    translatePage m' dir page = translatePage m dir page := by
  unfold translatePage
  simp only [pde]
  split
  · rename_i isPresent
    rw [pte isPresent]
  · rfl

/-- A page of the kernel's half goes through a page table of the loader. -/
theorem IsDir.translate_kernel {m : Frames} {dir page : Nat} (isDir : IsDir m dir)
    (low : 0xc0000 ≤ page) (high : page < 0xffc00) :
    translatePage m dir page =
      let pte := m (0x101 + (page / 1024 - 768)) (page % 1024)
      if present pte then some (entryFrame pte) else none := by
  unfold translatePage
  rw [isDir.kernel (page / 1024) (by omega) (by omega)]
  simp only [present_pteOf, if_true, entryFrame_pteOf]

/-- The pages from `0xffc00` on are the page tables; the last one is the
directory. -/
theorem IsDir.translate_self {m : Frames} {dir idx : Nat} (isDir : IsDir m dir)
    (inDir : idx < 1024) :
    translatePage m dir (0xffc00 + idx) =
      if present (m dir idx) then some (entryFrame (m dir idx)) else none := by
  unfold translatePage
  rw [show (0xffc00 + idx) / 1024 = 1023 by omega, show (0xffc00 + idx) % 1024 = idx by omega,
    isDir.self]
  simp only [present_pteOf, if_true, entryFrame_pteOf]

/-! ### The kernel's half -/

/-- The entry of a page of the kernel's half, in the page tables of the
loader. -/
def kernelEntry (m : Frames) (vpage : Nat) : Nat := m (0x101 + (vpage / 1024 - 768)) (vpage % 1024)

/-- The page belongs to the kernel's half, below the page tables. -/
def IsKernelPage (vpage : Nat) : Prop := 0xc0000 ≤ vpage ∧ vpage < 0xffc00

theorem kernelTable_of_page {vpage : Nat} (isKernel : IsKernelPage vpage) :
    IsKernelTable (0x101 + (vpage / 1024 - 768)) := by
  obtain ⟨low, high⟩ := isKernel
  exact ⟨by omega, by omega⟩

/-- Writing the entry of one page leaves those of the others alone. -/
theorem kernelEntry_setWord {m : Frames} {vpage other value : Nat} (isKernel : IsKernelPage vpage)
    (isKernel' : IsKernelPage other) :
    kernelEntry (setWord m (0x101 + (vpage / 1024 - 768)) (vpage % 1024) value) other =
      if other = vpage then value else kernelEntry m other := by
  obtain ⟨low, high⟩ := isKernel
  obtain ⟨low', high'⟩ := isKernel'
  unfold kernelEntry
  split
  · rename_i same
    subst same
    rw [setWord_self]
  · exact setWord_other (by omega)

theorem kernelEntry_congr {m m' : Frames} {vpage : Nat} (isKernel : IsKernelPage vpage)
    (same : ∀ frame, IsKernelTable frame → m' frame = m frame) :
    kernelEntry m' vpage = kernelEntry m vpage := by
  unfold kernelEntry
  rw [same _ (kernelTable_of_page isKernel)]

theorem IsDir.congr {m m' : Frames} {dir : Nat} (isDir : IsDir m dir) (same : m' dir = m dir) :
    IsDir m' dir := by
  obtain ⟨kernel, self⟩ := isDir
  rw [← same] at kernel self
  exact ⟨kernel, self⟩

theorem IsDir.setPde {m : Frames} {dir idx value : Nat} (isDir : IsDir m dir) (low : idx < 768) :
    IsDir (setWord m dir idx value) dir := by
  refine ⟨fun idx' low' high => ?_, ?_⟩
  · rw [setWord_other (.inr (by omega))]
    exact isDir.kernel idx' low' high
  · rw [setWord_other (.inr (by omega))]
    exact isDir.self

theorem pdeIdx_page (vaddr : Nat) : pdeIdx vaddr = pageOf vaddr / 1024 := by
  simp only [pdeIdx, pageOf, pgSize]
  omega

theorem pteIdx_page (vaddr : Nat) : pteIdx vaddr = pageOf vaddr % 1024 := by
  simp only [pteIdx, pageOf, pgSize]
  omega

theorem IsDir.pde_kernel {m : Frames} {dir vaddr : Nat} (isDir : IsDir m dir)
    (isKernel : IsKernelPage (pageOf vaddr)) :
    m dir (pdeIdx vaddr) = pteOf ((0x101 + (pageOf vaddr / 1024 - 768)) * pgSize) := by
  obtain ⟨low, high⟩ := isKernel
  rw [pdeIdx_page]
  exact isDir.kernel _ (by omega) (by omega)

theorem small_of_kernelPage {vaddr : Nat} (isKernel : IsKernelPage (pageOf vaddr)) : vaddr < 2 ^ 32 := by
  obtain ⟨_, high⟩ := isKernel
  simp only [pageOf, pgSize] at high
  omega

namespace Mmu

variable {s s' : Mmu} {vaddr phyaddr : Nat}

/-! ### `pde_ptr` and `pte_ptr` -/

theorem pdeIdx_lt (small : vaddr < 2 ^ 32) : pdeIdx vaddr < 1024 := by
  simp only [pdeIdx]
  omega

theorem pdePtr_page (small : vaddr < 2 ^ 32) : pdePtr vaddr / pgSize = 0xffc00 + 1023 := by
  simp only [pdePtr, pdeIdx, pgSize]
  omega

theorem pdePtr_idx (small : vaddr < 2 ^ 32) : pdePtr vaddr % pgSize / 4 = pdeIdx vaddr := by
  simp only [pdePtr, pdeIdx, pgSize]
  omega

theorem ptePtr_page : ptePtr vaddr / pgSize = 0xffc00 + pdeIdx vaddr := by
  simp only [ptePtr, pdeIdx, pteIdx, pgSize]
  omega

theorem ptePtr_idx : ptePtr vaddr % pgSize / 4 = pteIdx vaddr := by
  simp only [ptePtr, pdeIdx, pteIdx, pgSize]
  omega

theorem lookup_pdePtr (isDir : IsDir s.mem s.cr3) (small : vaddr < 2 ^ 32) :
    s.lookup (pdePtr vaddr) = some s.cr3 := by
  unfold lookup
  rw [pdePtr_page small, isDir.translate_self (by omega), isDir.self]
  simp only [present_pteOf, if_true, entryFrame_pteOf]

theorem lookup_ptePtr (isDir : IsDir s.mem s.cr3) (small : vaddr < 2 ^ 32) :
    s.lookup (ptePtr vaddr) =
      let pde := s.mem s.cr3 (pdeIdx vaddr)
      if present pde then some (entryFrame pde) else none := by
  unfold lookup
  rw [ptePtr_page, isDir.translate_self (pdeIdx_lt small)]

theorem read_pdePtr (isDir : IsDir s.mem s.cr3) (small : vaddr < 2 ^ 32) :
    s.read (pdePtr vaddr) = some (s.mem s.cr3 (pdeIdx vaddr)) := by
  simp [read, lookup_pdePtr isDir small, pdePtr_idx small]

/-- Where the page table of an address is. -/
theorem read_ptePtr (isDir : IsDir s.mem s.cr3) (small : vaddr < 2 ^ 32) {table : Nat}
    (pde : s.mem s.cr3 (pdeIdx vaddr) = pteOf (table * pgSize)) :
    s.read (ptePtr vaddr) = some (s.mem table (pteIdx vaddr)) := by
  simp [read, lookup_ptePtr isDir small, pde, present_pteOf, entryFrame_pteOf, ptePtr_idx]

theorem write_ptePtr (isDir : IsDir s.mem s.cr3) (small : vaddr < 2 ^ 32) {table : Nat}
    (pde : s.mem s.cr3 (pdeIdx vaddr) = pteOf (table * pgSize)) (value : Nat) :
    s.write (ptePtr vaddr) value =
      some { s with mem := setWord s.mem table (pteIdx vaddr) value } := by
  simp [write, lookup_ptePtr isDir small, pde, present_pteOf, entryFrame_pteOf, ptePtr_idx]

/-- `page_table_add` where the page table is there. -/
theorem pageTableAdd_table (isDir : IsDir s.mem s.cr3) (small : vaddr < 2 ^ 32) {table : Nat}
    (pde : s.mem s.cr3 (pdeIdx vaddr) = pteOf (table * pgSize)) :
    s.pageTableAdd vaddr phyaddr =
      if present (s.mem table (pteIdx vaddr)) then none
      else some { s with mem := setWord s.mem table (pteIdx vaddr) (pteOf phyaddr) } := by
  simp [pageTableAdd, read_pdePtr isDir small, read_ptePtr isDir small pde,
    write_ptePtr isDir small pde, pde, present_pteOf]

/-- `page_table_pte_remove` where the page table is there. -/
theorem pageTablePteRemove_table (isDir : IsDir s.mem s.cr3) (small : vaddr < 2 ^ 32)
    {table : Nat} (pde : s.mem s.cr3 (pdeIdx vaddr) = pteOf (table * pgSize)) :
    s.pageTablePteRemove vaddr =
      some { s with
        mem := setWord s.mem table (pteIdx vaddr)
          (s.mem table (pteIdx vaddr) / 2 * 2) } := by
  simp [pageTablePteRemove, read_ptePtr isDir small pde, write_ptePtr isDir small pde]

theorem addrV2p_table (isDir : IsDir s.mem s.cr3) (small : vaddr < 2 ^ 32) {table : Nat}
    (pde : s.mem s.cr3 (pdeIdx vaddr) = pteOf (table * pgSize)) :
    s.addrV2p vaddr =
      some (s.mem table (pteIdx vaddr) / pgSize * pgSize + vaddr % pgSize) := by
  simp [addrV2p, read_ptePtr isDir small pde]

/-! ### Free frames -/

/-- Where the pools and the kernel's heap area lie. -/
structure Layout (s : Mmu) : Prop where
  aligned : ∀ pf, (s.pool pf).phyAddrStart % pgSize = 0
  low : 0x200 * pgSize ≤ (s.pool .kernel).phyAddrStart
  order : (s.pool .kernel).phyAddrStart + 8 * (s.pool .kernel).poolBitmap.btmpBytesLen * pgSize ≤
    (s.pool .user).phyAddrStart
  vaddrStart : s.kernelVaddr.vaddrStart = kHeapStart
  vaddrHigh : heapAddr (8 * s.kernelVaddr.vaddrBitmap.btmpBytesLen + 1) ≤ 0xffc00000

/-- What never changes about the pools. -/
structure SameLayout (s s' : Mmu) : Prop where
  start : ∀ pf, (s'.pool pf).phyAddrStart = (s.pool pf).phyAddrStart
  len : ∀ pf, (s'.pool pf).poolBitmap.btmpBytesLen = (s.pool pf).poolBitmap.btmpBytesLen
  vaddrStart : s'.kernelVaddr.vaddrStart = s.kernelVaddr.vaddrStart
  vaddrLen : s'.kernelVaddr.vaddrBitmap.btmpBytesLen = s.kernelVaddr.vaddrBitmap.btmpBytesLen

theorem SameLayout.layout (same : SameLayout s s') (layout : s.Layout) : s'.Layout where
  aligned pf := by
    rw [same.start]
    exact layout.aligned pf
  low := by
    rw [same.start]
    exact layout.low
  order := by
    rw [same.start, same.start, same.len]
    exact layout.order
  vaddrStart := by
    rw [same.vaddrStart]
    exact layout.vaddrStart
  vaddrHigh := by
    rw [same.vaddrLen]
    exact layout.vaddrHigh

theorem SameLayout.trans {s'' : Mmu} (first : SameLayout s s') (second : SameLayout s' s'') :
    SameLayout s s'' where
  start pf := (second.start pf).trans (first.start pf)
  len pf := (second.len pf).trans (first.len pf)
  vaddrStart := second.vaddrStart.trans first.vaddrStart
  vaddrLen := second.vaddrLen.trans first.vaddrLen

/-- The frame of a bit of a pool. -/
def frameOf (s : Mmu) (pf : PoolFlags) (bit : Nat) : Nat := (s.pool pf).phyAddrStart / pgSize + bit

/-- A frame the pool can hand out. -/
def FreeIn (s : Mmu) (pf : PoolFlags) (frame : Nat) : Prop :=
  ∃ bit < 8 * (s.pool pf).poolBitmap.btmpBytesLen, frame = s.frameOf pf bit ∧
    bitmapScanTest (s.pool pf).poolBitmap bit = false

/-- A frame one of the pools can hand out. -/
def Free (s : Mmu) (frame : Nat) : Prop := ∃ pf, s.FreeIn pf frame

theorem Layout.frame_pool (layout : s.Layout) {pf pf' : PoolFlags} {bit bit' : Nat}
    (inside : bit < 8 * (s.pool pf).poolBitmap.btmpBytesLen)
    (inside' : bit' < 8 * (s.pool pf').poolBitmap.btmpBytesLen)
    (same : s.frameOf pf bit = s.frameOf pf' bit') : pf = pf' ∧ bit = bit' := by
  have kernelAligned := layout.aligned .kernel
  have order := layout.order
  simp only [frameOf, pgSize] at *
  cases pf <;> cases pf' <;> first | exact ⟨rfl, by omega⟩ | exact absurd same (by omega)

theorem Free.notKernelTable {frame : Nat} (free : s.Free frame) (layout : s.Layout) :
    0x200 ≤ frame := by
  obtain ⟨pf, bit, _, rfl, _⟩ := free
  have low := layout.low
  have order := layout.order
  simp only [frameOf, pgSize] at *
  cases pf <;> omega

theorem setPoolBit_sameLayout (s : Mmu) (pf : PoolFlags) (bit : Nat) (value : Bool) :
    SameLayout s (s.setPoolBit pf bit value) := by
  refine ⟨fun pf' => ?_, fun pf' => ?_, rfl, rfl⟩ <;>
  · by_cases same : pf' = pf
    · subst same
      simp [setPoolBit]
    · simp [setPoolBit, same]

theorem setPoolBit_free (layout : s.Layout) {pf : PoolFlags} {bit : Nat}
    (inside : bit < 8 * (s.pool pf).poolBitmap.btmpBytesLen) (pf' : PoolFlags) (frame : Nat) :
    (s.setPoolBit pf bit true).FreeIn pf' frame ↔
      s.FreeIn pf' frame ∧ frame ≠ s.frameOf pf bit := by
  have same := setPoolBit_sameLayout s pf bit true
  unfold FreeIn
  constructor
  · rintro ⟨bit', inside', rfl, clear⟩
    rw [same.len] at inside'
    have frameEq : (s.setPoolBit pf bit true).frameOf pf' bit' = s.frameOf pf' bit' := by
      simp only [frameOf, same.start]
    rw [frameEq]
    refine ⟨⟨bit', inside', rfl, ?_⟩, fun sameFrame => ?_⟩
    · by_cases samePool : pf' = pf
      · subst samePool
        simp only [setPoolBit, Function.update_self, bitmapScanTest_bitmapSet] at clear
        split at clear
        · cases clear
        · exact clear
      · simpa [setPoolBit, samePool] using clear
    · obtain ⟨rfl, rfl⟩ := layout.frame_pool inside' inside sameFrame
      simp [setPoolBit, bitmapScanTest_bitmapSet] at clear
  · rintro ⟨⟨bit', inside', rfl, clear⟩, other⟩
    refine ⟨bit', by rw [same.len]; exact inside', by simp only [frameOf, same.start], ?_⟩
    by_cases samePool : pf' = pf
    · subst samePool
      have ne : bit' ≠ bit := by
        rintro rfl
        exact other rfl
      simp only [setPoolBit, Function.update_self, bitmapScanTest_bitmapSet, if_neg ne]
      exact clear
    · simpa [setPoolBit, samePool] using clear

/-- What `palloc` does. -/
structure Allocated (s s' : Mmu) (pf : PoolFlags) (frame : Nat) : Prop where
  wasFree : s.FreeIn pf frame
  free : ∀ pf' other, s'.FreeIn pf' other ↔ s.FreeIn pf' other ∧ other ≠ frame
  mem : s'.mem = s.mem
  cr3 : s'.cr3 = s.cr3
  layout : SameLayout s s'
  vaddr : s'.kernelVaddr = s.kernelVaddr

theorem palloc_spec (layout : s.Layout) {pf : PoolFlags}
    (allocated : s.palloc pf = some (s', phyaddr)) :
    ∃ frame, phyaddr = frame * pgSize ∧ Allocated s s' pf frame := by
  simp only [palloc, Option.bind_eq_bind, Option.bind_eq_some_iff] at allocated
  obtain ⟨bitIdx, scanned, result⟩ := allocated
  rw [bitmapScan_eq] at scanned
  simp only [if_true, Option.map_eq_some_iff] at scanned
  obtain ⟨bit, first, rfl⟩ := scanned
  obtain ⟨inside, clear, _⟩ := firstClear_some first
  simp only [show ((bit : Int) = -1) = False by simp, if_false, Int.toNat_natCast,
    Option.pure_def, Option.some.injEq, Prod.mk.injEq] at result
  obtain ⟨rfl, rfl⟩ := result
  have aligned := layout.aligned pf
  refine ⟨s.frameOf pf bit, ?_, ⟨bit, inside, rfl, clear⟩, setPoolBit_free layout inside, rfl, rfl,
    setPoolBit_sameLayout s pf bit true, rfl⟩
  simp only [frameOf, pgSize] at *
  omega

/-! ### Kernel pages -/

/-- `page_table_add` on an address of the kernel. -/
theorem pageTableAdd_kernel (isDir : IsDir s.mem s.cr3) (isKernel : IsKernelPage (pageOf vaddr))
    (added : s.pageTableAdd vaddr phyaddr = some s') :
    present (kernelEntry s.mem (pageOf vaddr)) = false ∧
      s' = { s with
        mem := setWord s.mem (0x101 + (pageOf vaddr / 1024 - 768)) (pageOf vaddr % 1024)
          (pteOf phyaddr) } := by
  rw [pageTableAdd_table isDir (small_of_kernelPage isKernel) (isDir.pde_kernel isKernel),
    pteIdx_page] at added
  unfold kernelEntry
  split at added
  · cases added
  · rename_i absent
    cases added
    exact ⟨by simpa using absent, rfl⟩

/-- `page_table_pte_remove` on an address of the kernel. -/
theorem pageTablePteRemove_kernel (isDir : IsDir s.mem s.cr3)
    (isKernel : IsKernelPage (pageOf vaddr)) (removed : s.pageTablePteRemove vaddr = some s') :
    ∃ value, s' = { s with
      mem := setWord s.mem (0x101 + (pageOf vaddr / 1024 - 768)) (pageOf vaddr % 1024) value } := by
  rw [pageTablePteRemove_table isDir (small_of_kernelPage isKernel) (isDir.pde_kernel isKernel),
    pteIdx_page] at removed
  cases removed
  exact ⟨_, rfl⟩

/-- Where a page of the kernel's half is. -/
theorem lookup_kernel (isDir : IsDir s.mem s.cr3) (isKernel : IsKernelPage (pageOf vaddr))
    {frame : Nat} (entry : kernelEntry s.mem (pageOf vaddr) = pteOf (frame * pgSize)) :
    s.lookup vaddr = some frame := by
  have translated := isDir.translate_kernel isKernel.1 isKernel.2
  simp only [kernelEntry] at entry
  simp only [entry, present_pteOf, if_true, entryFrame_pteOf] at translated
  exact translated

/-- `addr_v2p` of a page of the kernel's half. -/
theorem addrV2p_kernel (isDir : IsDir s.mem s.cr3) (isKernel : IsKernelPage (pageOf vaddr))
    {frame : Nat} (entry : kernelEntry s.mem (pageOf vaddr) = pteOf (frame * pgSize))
    (aligned : vaddr % pgSize = 0) : s.addrV2p vaddr = some (frame * pgSize) := by
  simp only [kernelEntry] at entry
  have isFrame := entryFrame_pteOf frame
  simp only [entryFrame] at isFrame
  rw [addrV2p_table isDir (small_of_kernelPage isKernel) (isDir.pde_kernel isKernel), pteIdx_page,
    entry, aligned, isFrame, Nat.add_zero]

/-- What `malloc_page(PF_KERNEL, ..)` has done for a run of pages. -/
structure Mapped (s s' : Mmu) (first cnt : Nat) (frames : Nat → Nat) : Prop where
  layout : SameLayout s s'
  cr3 : s'.cr3 = s.cr3
  wasFree : ∀ i < cnt, s.FreeIn .kernel (frames i)
  inj : ∀ i < cnt, ∀ j < cnt, frames i = frames j → i = j
  free : ∀ pf other, s'.FreeIn pf other ↔ s.FreeIn pf other ∧ ∀ i < cnt, other ≠ frames i
  other : ∀ frame, ¬ IsKernelTable frame → s'.mem frame = s.mem frame
  absent : ∀ i < cnt, present (kernelEntry s.mem (first + i)) = false
  entry : ∀ i < cnt, kernelEntry s'.mem (first + i) = pteOf (frames i * pgSize)
  otherEntry : ∀ vpage, IsKernelPage vpage → (∀ i < cnt, vpage ≠ first + i) →
    kernelEntry s'.mem vpage = kernelEntry s.mem vpage

/-- What the running task needs to work on the kernel's pages. -/
structure Running (s : Mmu) : Prop where
  layout : s.Layout
  isDir : IsDir s.mem s.cr3
  notTable : ¬ IsKernelTable s.cr3
  taken : ¬ s.Free s.cr3

theorem Mapped.refl (s : Mmu) (first : Nat) : Mapped s s first 0 fun _ => 0 := by
  refine ⟨⟨fun _ => rfl, fun _ => rfl, rfl, rfl⟩, rfl, ?_, ?_, ?_, fun _ _ => rfl, ?_, ?_,
    fun _ _ _ => rfl⟩ <;> simp

theorem Layout.setMem (layout : s.Layout) (m : Frames) : Layout { s with mem := m } :=
  ⟨layout.aligned, layout.low, layout.order, layout.vaddrStart, layout.vaddrHigh⟩

theorem SameLayout.setMem (same : SameLayout s s') (m : Frames) :
    SameLayout s { s' with mem := m } :=
  ⟨same.start, same.len, same.vaddrStart, same.vaddrLen⟩

/-- One page of `malloc_page`: `palloc` and `page_table_add`. -/
theorem Running.mapPage (running : s.Running) {s₁ : Mmu} (isKernel : IsKernelPage (pageOf vaddr))
    (allocated : s.palloc .kernel = some (s₁, phyaddr))
    (added : s₁.pageTableAdd vaddr phyaddr = some s') :
    s'.Running ∧ ∃ frame, Mapped s s' (pageOf vaddr) 1 fun _ => frame := by
  obtain ⟨frame, rfl, alloc⟩ := palloc_spec running.layout allocated
  have isDir₁ : IsDir s₁.mem s₁.cr3 := by
    rw [alloc.mem, alloc.cr3]
    exact running.isDir
  obtain ⟨absent, rfl⟩ := pageTableAdd_kernel isDir₁ isKernel added
  have kernelTable := kernelTable_of_page isKernel
  have others : ∀ other, ¬ IsKernelTable other →
      setWord s₁.mem (0x101 + (pageOf vaddr / 1024 - 768)) (pageOf vaddr % 1024)
        (pteOf (frame * pgSize)) other = s.mem other := by
    intro other notKernel
    rw [← alloc.mem]
    refine Function.update_of_ne (fun same => ?_) _ _
    rw [same] at notKernel
    exact notKernel kernelTable
  rw [alloc.mem] at absent
  refine ⟨⟨(alloc.layout.layout running.layout).setMem _, ?_, ?_, ?_⟩, frame, ?_⟩
  · simp only [alloc.cr3]
    exact running.isDir.congr (others _ running.notTable)
  · simp only [alloc.cr3]
    exact running.notTable
  · simp only [alloc.cr3]
    rintro ⟨pf, isFree⟩
    exact running.taken ⟨pf, ((alloc.free pf _).mp isFree).1⟩
  · constructor
    case layout => exact alloc.layout.setMem _
    case cr3 => exact alloc.cr3
    case wasFree => exact fun _ _ => alloc.wasFree
    case inj => exact fun i _ j _ _ => by omega
    case free =>
      intro pf other
      have := alloc.free pf other
      simp only [Nat.lt_one_iff, forall_eq]
      exact this
    case other => exact others
    case absent => simpa using absent
    case entry =>
      intro i inside
      rw [show pageOf vaddr + i = pageOf vaddr by omega, kernelEntry_setWord isKernel isKernel,
        if_pos rfl]
    case otherEntry =>
      intro vpage isKernel' outside
      have ne : vpage ≠ pageOf vaddr := by
        have := outside 0 (by omega)
        omega
      rw [kernelEntry_setWord isKernel isKernel', if_neg ne, alloc.mem]

/-- Two runs of pages, one after the other. -/
theorem Mapped.cons {s₁ : Mmu} {first cnt frame : Nat} {frames : Nat → Nat}
    (range : ∀ i < cnt + 1, IsKernelPage (first + i))
    (head : Mapped s s₁ first 1 fun _ => frame) (tail : Mapped s₁ s' (first + 1) cnt frames) :
    Mapped s s' first (cnt + 1) fun i => if i = 0 then frame else frames (i - 1) := by
  have shift : ∀ i, first + 1 + i = first + (i + 1) := by
    intro i
    omega
  have tailFree : ∀ i < cnt, s.FreeIn .kernel (frames i) ∧ frames i ≠ frame := by
    intro i inside
    have := (head.free .kernel _).mp (tail.wasFree i inside)
    exact ⟨this.1, this.2 0 (by omega)⟩
  constructor
  case layout => exact head.layout.trans tail.layout
  case cr3 => exact tail.cr3.trans head.cr3
  case wasFree =>
    intro i inside
    cases i with
    | zero => exact head.wasFree 0 (by omega)
    | succ i => simpa using (tailFree i (by omega)).1
  case inj =>
    intro i inside j inside' same
    cases i with
    | zero =>
        cases j with
        | zero => rfl
        | succ j =>
            simp at same
            exact absurd same.symm (tailFree j (by omega)).2
    | succ i =>
        cases j with
        | zero =>
            simp at same
            exact absurd same (tailFree i (by omega)).2
        | succ j =>
            simp at same
            rw [tail.inj i (by omega) j (by omega) same]
  case free =>
    intro pf other
    rw [tail.free, head.free]
    constructor
    · rintro ⟨⟨isFree, notFirst⟩, notRest⟩
      refine ⟨isFree, fun i inside => ?_⟩
      cases i with
      | zero => simpa using notFirst 0 (by omega)
      | succ i => simpa using notRest i (by omega)
    · rintro ⟨isFree, notAny⟩
      refine ⟨⟨isFree, fun _ _ => by simpa using notAny 0 (by omega)⟩, fun i inside => ?_⟩
      simpa using notAny (i + 1) (by omega)
  case other =>
    intro other notKernel
    rw [tail.other other notKernel, head.other other notKernel]
  case absent =>
    intro i inside
    cases i with
    | zero => exact head.absent 0 (by omega)
    | succ i =>
        have := tail.absent i (by omega)
        rw [shift, head.otherEntry _ (range (i + 1) (by omega)) (by omega)] at this
        exact this
  case entry =>
    intro i inside
    cases i with
    | zero =>
        rw [tail.otherEntry _ (range 0 (by omega)) (by omega)]
        exact head.entry 0 (by omega)
    | succ i =>
        have := tail.entry i (by omega)
        rw [shift] at this
        simpa using this
  case otherEntry =>
    intro vpage isKernel outside
    have notFirst : ∀ i < 1, vpage ≠ first + i := fun i _ => outside i (by omega)
    have notRest : ∀ i < cnt, vpage ≠ first + 1 + i := by
      intro i inside
      rw [shift]
      exact outside (i + 1) (by omega)
    rw [tail.otherEntry vpage isKernel notRest, head.otherEntry vpage isKernel notFirst]

theorem mapPages_spec {cnt : Nat} :
    ∀ {s s' : Mmu} {vaddr : Nat}, s.Running →
      (∀ i < cnt, IsKernelPage (pageOf vaddr + i)) → mapPages cnt s vaddr = some s' →
      s'.Running ∧ ∃ frames, Mapped s s' (pageOf vaddr) cnt frames := by
  induction cnt with
  | zero =>
      intro s s' vaddr running _ mapped
      cases mapped
      exact ⟨running, _, Mapped.refl s _⟩
  | succ cnt inductionHypothesis =>
      intro s s' vaddr running range mapped
      simp only [mapPages, Option.bind_eq_bind, Option.bind_eq_some_iff] at mapped
      obtain ⟨⟨s₁, phyaddr⟩, allocated, s₂, added, rest⟩ := mapped
      obtain ⟨running₂, frame, head⟩ := running.mapPage (range 0 (by omega)) allocated added
      have next : pageOf (vaddr + pgSize) = pageOf vaddr + 1 := by
        simp only [pageOf, pgSize]
        omega
      obtain ⟨running', frames, tail⟩ := inductionHypothesis running₂
        (fun i inside => by
          rw [next, Nat.add_assoc, Nat.add_comm 1 i]
          exact range (i + 1) (by omega)) rest
      rw [next] at tail
      exact ⟨running', _, head.cons range tail⟩

theorem clearPages_spec {cnt : Nat} (frames : Nat → Nat) :
    ∀ {s s' : Mmu} {vaddr : Nat}, IsDir s.mem s.cr3 →
      (∀ i < cnt, IsKernelPage (pageOf vaddr + i) ∧
        kernelEntry s.mem (pageOf vaddr + i) = pteOf (frames i * pgSize) ∧
        ¬ IsKernelTable (frames i) ∧ frames i ≠ s.cr3) →
      clearPages cnt s vaddr = some s' →
      ∃ m, s' = { s with mem := m } ∧ (∀ i < cnt, m (frames i) = fun _ => 0) ∧
        ∀ frame, (∀ i < cnt, frame ≠ frames i) → m frame = s.mem frame := by
  induction cnt generalizing frames with
  | zero =>
      intro s s' vaddr _ _ cleared
      cases cleared
      exact ⟨s.mem, rfl, by simp, fun _ _ => rfl⟩
  | succ cnt inductionHypothesis =>
      intro s s' vaddr isDir range cleared
      simp only [clearPages, Option.bind_eq_bind, Option.bind_eq_some_iff] at cleared
      obtain ⟨s₁, first, rest⟩ := cleared
      obtain ⟨isKernel, entry, notTable, notDir⟩ := range 0 (by omega)
      simp only [clearPage, lookup_kernel isDir isKernel entry, Option.pure_def,
        Option.bind_eq_bind, Option.bind_some, Option.some.injEq] at first
      subst first
      have next : ∀ i, pageOf (vaddr + pgSize) + i = pageOf vaddr + (i + 1) := by
        intro i
        simp only [pageOf, pgSize]
        omega
      have rangeRest : ∀ i < cnt, IsKernelPage (pageOf (vaddr + pgSize) + i) ∧
          kernelEntry (Function.update s.mem (frames 0) fun _ => 0)
            (pageOf (vaddr + pgSize) + i) = pteOf (frames (i + 1) * pgSize) ∧
          ¬ IsKernelTable (frames (i + 1)) ∧ frames (i + 1) ≠ s.cr3 := by
        intro i inside
        obtain ⟨isKernel', entry', notTable', notDir'⟩ := range (i + 1) (by omega)
        rw [next]
        refine ⟨isKernel', ?_, notTable', notDir'⟩
        rw [← entry']
        refine kernelEntry_congr isKernel' fun frame isTable => ?_
        refine Function.update_of_ne (fun same => ?_) _ _
        rw [same] at isTable
        exact notTable isTable
      have isDirRest : IsDir (Function.update s.mem (frames 0) fun _ => 0) s.cr3 :=
        isDir.congr (Function.update_of_ne notDir.symm _ _)
      obtain ⟨m, rfl, zero, other⟩ := inductionHypothesis (fun i => frames (i + 1))
        (by exact isDirRest) (by exact rangeRest) rest
      refine ⟨m, rfl, fun i inside => ?_, fun frame outside => ?_⟩
      · cases i with
        | zero =>
            by_cases later : ∃ j < cnt, frames 0 = frames (j + 1)
            · obtain ⟨j, inside', same⟩ := later
              rw [same]
              exact zero j inside'
            · rw [other (frames 0) fun j inside' same => later ⟨j, inside', same⟩]
              simp
        | succ i => exact zero i (by omega)
      · rw [other frame fun i inside => outside (i + 1) (by omega)]
        exact Function.update_of_ne (outside 0 (by omega)) _ _

/-- What `get_kernel_pages` does: a run of pages gets fresh frames, filled with
zeros. -/
structure KernelPages (s s' : Mmu) (first cnt : Nat) (frames : Nat → Nat) : Prop where
  layout : SameLayout s s'
  cr3 : s'.cr3 = s.cr3
  range : ∀ i < cnt, IsKernelPage (first + i)
  wasFree : ∀ i < cnt, s.FreeIn .kernel (frames i)
  inj : ∀ i < cnt, ∀ j < cnt, frames i = frames j → i = j
  free : ∀ pf other, s'.FreeIn pf other ↔ s.FreeIn pf other ∧ ∀ i < cnt, other ≠ frames i
  zero : ∀ i < cnt, s'.mem (frames i) = fun _ => 0
  other : ∀ frame, ¬ IsKernelTable frame → (∀ i < cnt, frame ≠ frames i) →
    s'.mem frame = s.mem frame
  absent : ∀ i < cnt, present (kernelEntry s.mem (first + i)) = false
  entry : ∀ i < cnt, kernelEntry s'.mem (first + i) = pteOf (frames i * pgSize)
  otherEntry : ∀ vpage, IsKernelPage vpage → (∀ i < cnt, vpage ≠ first + i) →
    kernelEntry s'.mem vpage = kernelEntry s.mem vpage

theorem getKernelPages_spec {pgCnt : Nat} (running : s.Running)
    (got : s.getKernelPages pgCnt = some (s', vaddr)) :
    s'.Running ∧ vaddr % pgSize = 0 ∧
      ∃ frames, KernelPages s s' (pageOf vaddr) pgCnt frames := by
  unfold getKernelPages at got
  split at got
  · simp only [Option.bind_eq_bind, Option.bind_eq_some_iff] at got
    obtain ⟨⟨s₁, vaddr₁⟩, gotVaddr, s₂, mapped, s₃, cleared, result⟩ := got
    simp only [Option.pure_def, Option.some.injEq, Prod.mk.injEq] at result
    obtain ⟨rfl, rfl⟩ := result
    simp only [vaddrGet, Option.bind_eq_bind, Option.bind_eq_some_iff] at gotVaddr
    obtain ⟨bitIdx, scanned, result⟩ := gotVaddr
    rcases bitmapScan_spec scanned with rfl | ⟨page, rfl, upper, _, _⟩
    · simp at result
    · simp only [show ((page : Int) = -1) = False by simp, if_false, Int.toNat_natCast,
        Option.pure_def, Option.some.injEq, Prod.mk.injEq] at result
      obtain ⟨rfl, rfl⟩ := result
      have address : s.kernelVaddr.vaddrStart + page * pgSize = heapAddr page := by
        rw [running.layout.vaddrStart]
        rfl
      have high := running.layout.vaddrHigh
      have range : ∀ i < pgCnt, IsKernelPage (pageOf (heapAddr page) + i) := by
        intro i inside
        rw [pageOf_heapAddr]
        simp only [heapAddr, kHeapStart, pgSize] at high
        exact ⟨by omega, by omega⟩
      have started : SameLayout s { s with kernelVaddr := { s.kernelVaddr with
          vaddrBitmap := bitmapSetRun s.kernelVaddr.vaddrBitmap page true pgCnt } } :=
        ⟨fun _ => rfl, fun _ => rfl, rfl, bitmapSetRun_len _ _ _ _⟩
      have running₁ : Running { s with kernelVaddr := { s.kernelVaddr with
          vaddrBitmap := bitmapSetRun s.kernelVaddr.vaddrBitmap page true pgCnt } } :=
        ⟨started.layout running.layout, running.isDir, running.notTable, running.taken⟩
      rw [address] at mapped cleared ⊢
      obtain ⟨running₂, frames, map⟩ := mapPages_spec running₁ range mapped
      have fresh : ∀ i < pgCnt, 0x200 ≤ frames i := fun i inside =>
        Free.notKernelTable ⟨_, map.wasFree i inside⟩ running₁.layout
      have notCr3 : ∀ i < pgCnt, frames i ≠ s₂.cr3 := by
        intro i inside same
        rw [map.cr3] at same
        exact running₁.taken ⟨.kernel, same ▸ map.wasFree i inside⟩
      obtain ⟨m, rfl, zero, other⟩ := clearPages_spec frames running₂.isDir (fun i inside =>
        ⟨range i inside, map.entry i inside, fun isTable => by
          have := fresh i inside
          have := isTable.2
          omega, notCr3 i inside⟩) cleared
      have tables : ∀ frame, IsKernelTable frame → m frame = s₂.mem frame := by
        intro frame isTable
        refine other frame fun i inside same => ?_
        have := fresh i inside
        have := isTable.2
        omega
      refine ⟨⟨running₂.layout.setMem m, ?_, running₂.notTable, running₂.taken⟩, ?_, frames, ?_⟩
      · exact running₂.isDir.congr (other _ fun i inside same => notCr3 i inside same.symm)
      · simp only [heapAddr, kHeapStart, pgSize]
        omega
      · constructor
        case layout => exact started.trans (map.layout.setMem m)
        case cr3 => exact map.cr3
        case range => exact range
        case wasFree => exact map.wasFree
        case inj => exact map.inj
        case free => exact map.free
        case zero => exact zero
        case other =>
          intro frame notTable outside
          exact (other frame outside).trans (map.other frame notTable)
        case absent => exact map.absent
        case entry =>
          intro i inside
          rw [kernelEntry_congr (range i inside) tables]
          exact map.entry i inside
        case otherEntry =>
          intro vpage isKernel outside
          rw [kernelEntry_congr isKernel tables]
          exact map.otherEntry vpage isKernel outside
  · cases got

/-! ### User pages -/

/-- Memory after `page_table_add` has made a page table. -/
def withTable (m : Frames) (dir vaddr table phyaddr : Nat) : Frames :=
  setWord (Function.update (setWord m dir (pdeIdx vaddr) (pteOf (table * pgSize))) table fun _ => 0)
    table (pteIdx vaddr) (pteOf phyaddr)

/-- `page_table_add` where the page table is not there. -/
theorem pageTableAdd_absent (running : s.Running) (user : vaddr < 0xc0000000)
    (absent : present (s.mem s.cr3 (pdeIdx vaddr)) = false)
    (added : s.pageTableAdd vaddr phyaddr = some s') :
    ∃ s₁ table, s.palloc .kernel = some (s₁, table * pgSize) ∧ Allocated s s₁ .kernel table ∧
      s' = { s₁ with mem := withTable s.mem s.cr3 vaddr table phyaddr } := by
  have small : vaddr < 2 ^ 32 := by omega
  have low : pdeIdx vaddr < 768 := by
    simp only [pdeIdx]
    omega
  simp only [pageTableAdd, read_pdePtr running.isDir small, Option.bind_eq_bind, Option.bind_some,
    absent, Bool.false_eq_true, if_false, Option.bind_eq_some_iff] at added
  obtain ⟨⟨s₁, pdePhyaddr⟩, allocated, s₂, written, s₃, cleared, pte, isPte, result⟩ := added
  obtain ⟨table, rfl, alloc⟩ := palloc_spec running.layout allocated
  obtain ⟨mem, cr3, pool, kernelVaddr⟩ := s₁
  obtain rfl : mem = s.mem := alloc.mem
  obtain rfl : cr3 = s.cr3 := alloc.cr3
  have notDir : table ≠ s.cr3 := by
    intro same
    exact running.taken ⟨.kernel, same ▸ alloc.wasFree⟩
  -- the new entry of the directory
  simp only [write, lookup_pdePtr (s := ⟨s.mem, s.cr3, pool, kernelVaddr⟩) running.isDir small,
    pdePtr_idx small, Option.bind_eq_bind, Option.bind_some, Option.pure_def,
    Option.some.injEq] at written
  subst written
  have isDir₂ : IsDir (setWord s.mem s.cr3 (pdeIdx vaddr) (pteOf (table * pgSize))) s.cr3 :=
    running.isDir.setPde low
  have pde₂ : setWord s.mem s.cr3 (pdeIdx vaddr) (pteOf (table * pgSize)) s.cr3 (pdeIdx vaddr) =
      pteOf (table * pgSize) := setWord_self _ _ _ _
  -- through which the new page table is cleared
  simp only [clearPage, lookup_ptePtr (s := ⟨setWord s.mem s.cr3 (pdeIdx vaddr)
    (pteOf (table * pgSize)), s.cr3, pool, kernelVaddr⟩) isDir₂ small, pde₂, present_pteOf, if_true,
    entryFrame_pteOf, Option.bind_eq_bind, Option.bind_some, Option.pure_def,
    Option.some.injEq] at cleared
  subst cleared
  have sameDir : Function.update (setWord s.mem s.cr3 (pdeIdx vaddr) (pteOf (table * pgSize))) table
      (fun _ => 0) s.cr3 = setWord s.mem s.cr3 (pdeIdx vaddr) (pteOf (table * pgSize)) s.cr3 :=
    Function.update_of_ne notDir.symm _ _
  have isDir₃ := isDir₂.congr sameDir
  have pde₃ := (congrFun sameDir (pdeIdx vaddr)).trans pde₂
  rw [write_ptePtr (by exact isDir₃) small (by exact pde₃)] at result
  split at result
  · cases result
  · cases result
    exact ⟨_, table, allocated, alloc, rfl⟩

/-! ### New directories -/

/-- What `create_page_dir` does. -/
structure NewDir (s s' : Mmu) (vaddr frame : Nat) : Prop where
  layout : SameLayout s s'
  cr3 : s'.cr3 = s.cr3
  wasFree : s.FreeIn .kernel frame
  free : ∀ pf other, s'.FreeIn pf other ↔ s.FreeIn pf other ∧ other ≠ frame
  isDir : IsDir s'.mem frame
  empty : ∀ idx < 768, s'.mem frame idx = 0
  aligned : vaddr % pgSize = 0
  isKernel : IsKernelPage (pageOf vaddr)
  absent : present (kernelEntry s.mem (pageOf vaddr)) = false
  entry : kernelEntry s'.mem (pageOf vaddr) = pteOf (frame * pgSize)
  other : ∀ other, ¬ IsKernelTable other → other ≠ frame → s'.mem other = s.mem other
  otherEntry : ∀ vpage, IsKernelPage vpage → vpage ≠ pageOf vaddr →
    kernelEntry s'.mem vpage = kernelEntry s.mem vpage

/-- An offset inside a page. -/
theorem pageOf_add {offset : Nat} (aligned : vaddr % pgSize = 0) (inside : offset < pgSize) :
    pageOf (vaddr + offset) = pageOf vaddr ∧ (vaddr + offset) % pgSize = offset := by
  simp only [pageOf, pgSize] at *
  omega

/-- The source of the copy is the kernel's part of the loaded directory. -/
theorem lookup_dir (isDir : IsDir s.mem s.cr3) {offset : Nat} (inside : offset < pgSize) :
    s.lookup (0xfffff000 + offset) = some s.cr3 := by
  unfold lookup
  rw [show (0xfffff000 + offset) / pgSize = 0xffc00 + 1023 by simp only [pgSize] at *; omega,
    isDir.translate_self (by omega), isDir.self]
  simp only [present_pteOf, if_true, entryFrame_pteOf]

theorem createPageDir_spec (running : s.Running) (created : s.createPageDir = some (s', vaddr)) :
    s'.Running ∧ ∃ frame, NewDir s s' vaddr frame := by
  simp only [createPageDir, Option.bind_eq_bind, Option.bind_eq_some_iff] at created
  obtain ⟨⟨s₁, page⟩, got, s₂, copied, phyAddr, v2p, s₃, written, result⟩ := created
  simp only [Option.pure_def, Option.some.injEq, Prod.mk.injEq] at result
  obtain ⟨rfl, rfl⟩ := result
  obtain ⟨running₁, aligned, frames, pages⟩ := getKernelPages_spec running got
  have isKernel : IsKernelPage (pageOf page) := pages.range 0 (by omega)
  have entry : kernelEntry s₁.mem (pageOf page) = pteOf (frames 0 * pgSize) :=
    pages.entry 0 (by omega)
  have fresh : 0x200 ≤ frames 0 := Free.notKernelTable ⟨_, pages.wasFree 0 (by omega)⟩ running.layout
  have notDir : frames 0 ≠ s₁.cr3 := by
    intro same
    rw [pages.cr3] at same
    exact running.taken ⟨.kernel, same ▸ pages.wasFree 0 (by omega)⟩
  have inPage : ∀ {m : Frames}, IsDir m s₁.cr3 →
      kernelEntry m (pageOf page) = pteOf (frames 0 * pgSize) → ∀ offset < pgSize,
      Mmu.lookup { s₁ with mem := m } (page + offset) = some (frames 0) := by
    intro m isDir isEntry offset inside
    obtain ⟨samePage, _⟩ := pageOf_add aligned inside
    exact lookup_kernel isDir (by rw [samePage]; exact isKernel) (by rw [samePage]; exact isEntry)
  -- the kernel's entries of the loaded directory are copied into the new page
  have copyFrom : s₁.lookup (0xfffff000 + 0x300 * 4) = some s₁.cr3 :=
    lookup_dir running₁.isDir (by decide)
  have copyTo : s₁.lookup (page + 0x300 * 4) = some (frames 0) :=
    inPage running₁.isDir entry _ (by decide)
  have copyOffset : (page + 0x300 * 4) % pgSize = 0x300 * 4 := (pageOf_add aligned (by decide)).2
  have srcOffset : (0xfffff000 + 0x300 * 4) % pgSize = 0x300 * 4 := by decide
  simp only [memcpy, copyFrom, copyTo, Option.bind_eq_bind, Option.bind_some, Option.pure_def,
    copyOffset, srcOffset, Option.some.injEq] at copied
  obtain ⟨words, isWords⟩ : ∃ words : Nat → Nat, words = fun idx =>
      if 0x300 * 4 / 4 ≤ idx ∧ idx < 0x300 * 4 / 4 + 256 then
        s₁.mem s₁.cr3 (0x300 * 4 / 4 + (idx - 0x300 * 4 / 4))
      else s₁.mem (frames 0) idx := ⟨_, rfl⟩
  rw [← isWords] at copied
  subst copied
  have others : ∀ other, other ≠ frames 0 →
      Function.update s₁.mem (frames 0) words other = s₁.mem other :=
    fun other ne => Function.update_of_ne ne _ _
  have tables : ∀ other, IsKernelTable other →
      Function.update s₁.mem (frames 0) words other = s₁.mem other := by
    intro other isTable
    refine others other fun same => ?_
    have := isTable.2
    omega
  have isDir₂ : IsDir (Function.update s₁.mem (frames 0) words) s₁.cr3 :=
    running₁.isDir.congr (others _ notDir.symm)
  have entry₂ : kernelEntry (Function.update s₁.mem (frames 0) words) (pageOf page) =
      pteOf (frames 0 * pgSize) := by
    rw [kernelEntry_congr isKernel tables, entry]
  -- the address of the new directory, in its last entry
  have physical : phyAddr = frames 0 * pgSize := by
    rw [addrV2p_kernel (by exact isDir₂) isKernel (by exact entry₂) aligned] at v2p
    exact (Option.some.inj v2p).symm
  have writeOffset : (page + 1023 * 4) % pgSize = 1023 * 4 := (pageOf_add aligned (by decide)).2
  simp only [write, inPage isDir₂ entry₂ (1023 * 4) (by decide), Option.bind_eq_bind,
    Option.bind_some, Option.pure_def, writeOffset, physical, Option.some.injEq] at written
  subst written
  have otherFrames : ∀ other, other ≠ frames 0 →
      setWord (Function.update s₁.mem (frames 0) words) (frames 0) (1023 * 4 / 4)
        (pteOf (frames 0 * pgSize)) other = s₁.mem other := by
    intro other ne
    rw [setWord, Function.update_of_ne ne]
    exact others other ne
  have newTables : ∀ other, IsKernelTable other →
      setWord (Function.update s₁.mem (frames 0) words) (frames 0) (1023 * 4 / 4)
        (pteOf (frames 0 * pgSize)) other = s₁.mem other := by
    intro other isTable
    refine otherFrames other fun same => ?_
    have := isTable.2
    omega
  have newWords : ∀ idx, idx ≠ 1023 → setWord (Function.update s₁.mem (frames 0) words) (frames 0)
      (1023 * 4 / 4) (pteOf (frames 0 * pgSize)) (frames 0) idx = words idx := by
    intro idx ne
    rw [setWord_other (.inr (by omega)), Function.update_self]
  refine ⟨⟨running₁.layout.setMem _, running₁.isDir.congr (otherFrames _ notDir.symm),
    running₁.notTable, running₁.taken⟩, frames 0, ?_⟩
  constructor
  case layout => exact pages.layout.setMem _
  case cr3 => exact pages.cr3
  case wasFree => exact pages.wasFree 0 (by omega)
  case free =>
    intro pf other
    have := pages.free pf other
    simp only [Nat.lt_one_iff, forall_eq] at this
    exact this
  case isDir =>
    refine ⟨fun idx low high => (newWords idx (by omega)).trans ?_, setWord_self _ _ _ _⟩
    rw [isWords]
    dsimp only
    rw [if_pos (by omega), show 0x300 * 4 / 4 + (idx - 0x300 * 4 / 4) = idx by omega]
    exact running₁.isDir.kernel idx low high
  case empty =>
    intro idx low
    refine (newWords idx (by omega)).trans ?_
    rw [isWords]
    dsimp only
    rw [if_neg (by omega), pages.zero 0 (by omega)]
  case aligned => exact aligned
  case isKernel => exact isKernel
  case absent => exact pages.absent 0 (by omega)
  case entry => rw [kernelEntry_congr isKernel newTables, entry]
  case other =>
    intro other notTable ne
    exact (otherFrames other ne).trans (pages.other other notTable fun i inside => by
      rw [show i = 0 by omega]
      exact ne)
  case otherEntry =>
    intro vpage isKernel' ne
    rw [kernelEntry_congr isKernel' newTables]
    exact pages.otherEntry vpage isKernel' fun i inside => by
      rw [show i = 0 by omega]
      exact ne

end Mmu

end ZyOs.Memory
