import ZyOs.Userprog.PageDirectories

/-!
Contract: the page layer of `Memory.Pages` is what `Memory.Mmu` computes, under a
directory that maps itself.

Owns:
- `Tables`: the entries of the loaded directory that are looked at each have a page
  table of their own;
- `Shows`: what a machine with such tables is for the page layer;
- for each function of the machine, that where it returns the page layer's returns the
  same, and that runs over the kernel's pages are runs of the page layer.

Entry 0 of the loader's directory names the page table of entry 768; only one of them
can be looked at.

Does not own: the words in the pages, and switches to another directory.
-/

namespace ZyOs.Memory.Mmu

open ZyOs.Lib ZyOs.Kernel

/-! ### The page tables of the loaded directory -/

/-- The entries of the loaded directory that are looked at: those that are present have a
page table each, which is not the directory and cannot be handed out. -/
structure Tables (looked : Nat → Prop) (s : Mmu) : Prop where
  running : s.Running
  below : ∀ {idx}, looked idx → idx < 1023
  table : ∀ {idx}, looked idx → present (s.mem s.cr3 idx) = true →
    ∃ table, s.mem s.cr3 idx = pteOf (table * pgSize) ∧ table ≠ s.cr3 ∧ ¬ s.Free table
  inj : ∀ {idx idx'}, looked idx → looked idx' → present (s.mem s.cr3 idx) = true →
    s.mem s.cr3 idx = s.mem s.cr3 idx' → idx = idx'

/-- What the page layer sees of a machine. -/
structure Shows (looked : Nat → Prop) (s : Mmu) (t : MemState) : Prop extends Tables looked s where
  pool : ∀ pf, t.pool pf = s.pool pf
  kernelVaddr : t.kernelVaddr = s.kernelVaddr
  pde : ∀ {idx}, looked idx → t.pde idx = s.mem s.cr3 idx
  pte : ∀ {page table}, looked (page / 1024) → s.mem s.cr3 (page / 1024) = pteOf (table * pgSize) →
    t.pte page = s.mem table (page % 1024)

/-- The kernel's entries. -/
def KernelHalf (idx : Nat) : Prop := 768 ≤ idx ∧ idx < 1023

theorem kernelHalf_page {page : Nat} (isKernel : IsKernelPage page) : KernelHalf (page / 1024) := by
  obtain ⟨low, high⟩ := isKernel
  exact ⟨by omega, by omega⟩

theorem pteOf_frame_inj {frame frame' : Nat}
    (same : pteOf (frame * pgSize) = pteOf (frame' * pgSize)) : frame = frame' := by
  rw [← entryFrame_pteOf frame, same, entryFrame_pteOf]

variable {looked : Nat → Prop} {s s' : Mmu} {t : MemState} {vaddr phyaddr : Nat}

/-- The kernel's entries have the page tables of the loader. -/
theorem Running.tables (running : s.Running) : Tables KernelHalf s where
  running := running
  below isLooked := isLooked.2
  table := by
    intro idx isLooked _
    refine ⟨_, running.isDir.kernel idx isLooked.1 isLooked.2, fun same => ?_, fun free => ?_⟩
    · refine running.notTable (same ▸ ⟨by omega, ?_⟩)
      have := isLooked.2
      omega
    · have := free.notKernelTable running.layout
      have := isLooked.2
      omega
  inj := by
    intro idx idx' isLooked isLooked' _ same
    rw [running.isDir.kernel idx isLooked.1 isLooked.2,
      running.isDir.kernel idx' isLooked'.1 isLooked'.2] at same
    have frames := pteOf_frame_inj same
    have := isLooked.1
    have := isLooked'.1
    omega

/-- The kernel's half of a machine, over a state that has the rest. -/
def shown (s : Mmu) (t : MemState) : MemState :=
  { t with
    kernelPool := s.pool .kernel
    userPool := s.pool .user
    kernelVaddr := s.kernelVaddr
    pde := s.mem s.cr3
    pte := kernelEntry s.mem }

theorem Running.shows (running : s.Running) (t : MemState) : Shows KernelHalf s (s.shown t) where
  toTables := running.tables
  pool pf := by cases pf <;> rfl
  kernelVaddr := rfl
  pde _ := rfl
  pte := by
    intro page table isLooked isTable
    rw [running.isDir.kernel _ isLooked.1 isLooked.2] at isTable
    rw [← pteOf_frame_inj isTable]
    rfl

/-- The entry of an address. -/
theorem Shows.pte_page (shows_ : Shows looked s t) (isLooked : looked (pdeIdx vaddr)) {table : Nat}
    (isTable : s.mem s.cr3 (pdeIdx vaddr) = pteOf (table * pgSize)) :
    t.pte (pageOf vaddr) = s.mem table (pteIdx vaddr) := by
  rw [pdeIdx_page] at isLooked isTable
  rw [pteIdx_page]
  exact shows_.pte isLooked isTable

theorem Tables.small (tables : Tables looked s) (isLooked : looked (pdeIdx vaddr)) :
    vaddr < 2 ^ 32 := by
  have below := tables.below isLooked
  simp only [pdeIdx] at below
  omega

/-- A page table that was read is there. -/
theorem Tables.of_read (tables : Tables looked s) (isLooked : looked (pdeIdx vaddr)) {pte : Nat}
    (isRead : s.read (ptePtr vaddr) = some pte) : present (s.mem s.cr3 (pdeIdx vaddr)) = true := by
  rw [read, lookup_ptePtr tables.running.isDir (tables.small isLooked)] at isRead
  by_contra absent
  simp [absent] at isRead

/-! ### Memory and pools that change -/

/-- Other memory with the same directory, in which each table has an entry. -/
theorem Tables.setMem (tables : Tables looked s) {m : Frames} (dir : m s.cr3 = s.mem s.cr3) :
    Tables looked { s with mem := m } where
  running := ⟨tables.running.layout.setMem m, tables.running.isDir.congr dir,
    tables.running.notTable, tables.running.taken⟩
  below := tables.below
  table := by
    intro idx isLooked
    dsimp only
    rw [dir]
    exact tables.table isLooked
  inj := by
    intro idx idx' isLooked isLooked'
    dsimp only
    rw [dir]
    exact tables.inj isLooked isLooked'

/-- Memory that differs in no page table. -/
theorem Shows.setMem (shows_ : Shows looked s t) {m : Frames} (dir : m s.cr3 = s.mem s.cr3)
    (same : ∀ {idx table}, looked idx → s.mem s.cr3 idx = pteOf (table * pgSize) →
      m table = s.mem table) : Shows looked { s with mem := m } t where
  toTables := shows_.toTables.setMem dir
  pool := shows_.pool
  kernelVaddr := shows_.kernelVaddr
  pde := by
    intro idx isLooked
    dsimp only
    rw [dir]
    exact shows_.pde isLooked
  pte := by
    intro page table isLooked isTable
    dsimp only at isTable ⊢
    rw [dir] at isTable
    rw [same isLooked isTable]
    exact shows_.pte isLooked isTable

/-- One entry of a page table. -/
theorem Shows.setEntry (shows_ : Shows looked s t) (isLooked : looked (pdeIdx vaddr)) {table : Nat}
    (isTable : s.mem s.cr3 (pdeIdx vaddr) = pteOf (table * pgSize)) (value : Nat) :
    Shows looked { s with mem := setWord s.mem table (pteIdx vaddr) value }
      { t with pte := Function.update t.pte (pageOf vaddr) value } := by
  have isPresent : present (s.mem s.cr3 (pdeIdx vaddr)) = true := by
    rw [isTable]
    exact present_pteOf _
  have notDir : table ≠ s.cr3 := by
    obtain ⟨own, isOwn, notDir, _⟩ := shows_.table isLooked isPresent
    rw [pteOf_frame_inj (isTable.symm.trans isOwn)]
    exact notDir
  have dir : setWord s.mem table (pteIdx vaddr) value s.cr3 = s.mem s.cr3 :=
    Function.update_of_ne notDir.symm _ _
  refine ⟨shows_.toTables.setMem dir, shows_.pool, shows_.kernelVaddr, ?_, ?_⟩
  · intro idx isLooked'
    dsimp only
    rw [dir]
    exact shows_.pde isLooked'
  · intro page table' isLooked' isTable'
    dsimp only at isTable' ⊢
    rw [dir] at isTable'
    by_cases same : page = pageOf vaddr
    · subst same
      rw [← pdeIdx_page] at isTable'
      obtain rfl := pteOf_frame_inj (isTable.symm.trans isTable')
      rw [Function.update_self, pteIdx_page, setWord_self]
    · rw [Function.update_of_ne same, shows_.pte isLooked' isTable', setWord_other]
      by_cases other : table' = table
      · -- a page of the same table has the same entry of the directory
        subst other
        have sameIdx := shows_.inj isLooked isLooked' isPresent (isTable.trans isTable'.symm)
        rw [pdeIdx_page] at sameIdx
        rw [pteIdx_page]
        exact .inr (by omega)
      · exact .inl other

/-- What `palloc` leaves. -/
theorem Tables.allocated (tables : Tables looked s) {pf : PoolFlags} {frame : Nat}
    (alloc : Allocated s s' pf frame) : Tables looked s' where
  running := by
    refine ⟨alloc.layout.layout tables.running.layout, ?_, ?_, ?_⟩
    · rw [alloc.mem, alloc.cr3]
      exact tables.running.isDir
    · rw [alloc.cr3]
      exact tables.running.notTable
    · rw [alloc.cr3]
      rintro ⟨pf', isFree⟩
      exact tables.running.taken ⟨pf', ((alloc.free pf' _).mp isFree).1⟩
  below := tables.below
  table := by
    intro idx isLooked isPresent
    rw [alloc.mem, alloc.cr3] at isPresent ⊢
    obtain ⟨table, isTable, notDir, taken⟩ := tables.table isLooked isPresent
    refine ⟨table, isTable, notDir, ?_⟩
    rintro ⟨pf', isFree⟩
    exact taken ⟨pf', ((alloc.free pf' _).mp isFree).1⟩
  inj := by
    intro idx idx' isLooked isLooked' isPresent same
    rw [alloc.mem, alloc.cr3] at isPresent same
    exact tables.inj isLooked isLooked' isPresent same

theorem setPoolBit_shown (pool : ∀ pf, t.pool pf = s.pool pf) (pf : PoolFlags) (bit : Nat)
    (value : Bool) (pf' : PoolFlags) :
    (t.setPoolBitmap pf (bitmapSet (t.pool pf).poolBitmap bit value)).pool pf' =
      (s.setPoolBit pf bit value).pool pf' := by
  have kernel := pool .kernel
  have user := pool .user
  simp only [MemState.pool] at kernel user
  cases pf <;> cases pf' <;>
    simp [MemState.setPoolBitmap, MemState.pool, setPoolBit, Function.update, kernel, user]

theorem setPoolBitmap_tables (pf : PoolFlags) (btmp : Bitmap) :
    (t.setPoolBitmap pf btmp).pde = t.pde ∧ (t.setPoolBitmap pf btmp).pte = t.pte ∧
      (t.setPoolBitmap pf btmp).kernelVaddr = t.kernelVaddr := by
  cases pf <;> exact ⟨rfl, rfl, rfl⟩

/-- A bit of a pool, where the tables stay what they are. -/
theorem Shows.setPoolBit (shows_ : Shows looked s t) {pf : PoolFlags} {bit : Nat} {value : Bool}
    (tables : Tables looked (s.setPoolBit pf bit value)) :
    Shows looked (s.setPoolBit pf bit value)
      (t.setPoolBitmap pf (bitmapSet (t.pool pf).poolBitmap bit value)) := by
  obtain ⟨samePde, samePte, sameVaddr⟩ :=
    setPoolBitmap_tables (t := t) pf (bitmapSet (t.pool pf).poolBitmap bit value)
  refine ⟨tables, setPoolBit_shown shows_.pool pf bit value,
    sameVaddr.trans shows_.kernelVaddr, ?_, ?_⟩
  · rw [samePde]
    exact shows_.pde
  · rw [samePte]
    exact shows_.pte

/-! ### The functions -/

theorem Shows.palloc (shows_ : Shows looked s t) {pf : PoolFlags}
    (allocated : s.palloc pf = some (s', phyaddr)) :
    ∃ t', Memory.palloc t pf = .ok (t', some phyaddr) ∧ Shows looked s' t' := by
  obtain ⟨frame, _, alloc⟩ := palloc_spec shows_.running.layout allocated
  have tables := shows_.toTables.allocated alloc
  simp only [Mmu.palloc, Option.bind_eq_bind, Option.bind_eq_some_iff] at allocated
  obtain ⟨bitIdx, scanned, result⟩ := allocated
  split at result
  · cases result
  · rename_i found
    simp only [Option.pure_def, Option.some.injEq, Prod.mk.injEq] at result
    obtain ⟨rfl, rfl⟩ := result
    refine ⟨t.setPoolBitmap pf (bitmapSet (t.pool pf).poolBitmap bitIdx.toNat true), ?_,
      shows_.setPoolBit tables⟩
    simp only [Memory.palloc, shows_.pool pf, scanned, if_neg found]

/-! ### A page table that is taken from the pool -/

theorem withTable_dir {m : Frames} {dir table : Nat} (notDir : table ≠ dir) :
    withTable m dir vaddr table phyaddr dir =
      Function.update (m dir) (pdeIdx vaddr) (pteOf (table * pgSize)) := by
  rw [withTable, setWord, Function.update_of_ne notDir.symm, Function.update_of_ne notDir.symm,
    setWord, Function.update_self]

theorem withTable_table (m : Frames) (dir table : Nat) :
    withTable m dir vaddr table phyaddr table =
      Function.update (fun _ => 0) (pteIdx vaddr) (pteOf phyaddr) := by
  rw [withTable, setWord, Function.update_self, Function.update_self]

theorem withTable_other {m : Frames} {dir table frame : Nat} (ne : frame ≠ table)
    (notDir : frame ≠ dir) : withTable m dir vaddr table phyaddr frame = m frame := by
  rw [withTable, setWord, Function.update_of_ne ne, Function.update_of_ne ne, setWord,
    Function.update_of_ne notDir]

/-- The table of another entry is neither the new one nor the directory. -/
theorem Tables.old (tables : Tables looked s) {table idx : Nat}
    (alloc : Allocated s s' .kernel table) (isLooked : looked idx)
    (isPresent : present (s.mem s.cr3 idx) = true) :
    ∃ old, s.mem s.cr3 idx = pteOf (old * pgSize) ∧ old ≠ s.cr3 ∧ ¬ s'.Free old ∧ old ≠ table := by
  obtain ⟨old, isOld, notDir, taken⟩ := tables.table isLooked isPresent
  refine ⟨old, isOld, notDir, ?_, ?_⟩
  · rintro ⟨pf, isFree⟩
    exact taken ⟨pf, ((alloc.free pf old).mp isFree).1⟩
  · rintro rfl
    exact taken ⟨.kernel, alloc.wasFree⟩

/-- The new table is the table of one entry only. -/
theorem Tables.withTable (tables : Tables looked s) {table : Nat}
    (alloc : Allocated s s' .kernel table) (low : pdeIdx vaddr < 768) (phyaddr : Nat) :
    Tables looked { s' with mem := withTable s.mem s.cr3 vaddr table phyaddr } := by
  have notDir : table ≠ s.cr3 := by
    rintro rfl
    exact tables.running.taken ⟨.kernel, alloc.wasFree⟩
  have tables' := tables.allocated alloc
  have dir : Mmu.withTable s.mem s.cr3 vaddr table phyaddr s.cr3 =
      Function.update (s.mem s.cr3) (pdeIdx vaddr) (pteOf (table * pgSize)) := withTable_dir notDir
  refine ⟨⟨tables'.running.layout.setMem _, ?_, tables'.running.notTable, tables'.running.taken⟩,
    tables.below, ?_, ?_⟩
  · dsimp only
    rw [alloc.cr3]
    have isDir : IsDir (setWord s.mem s.cr3 (pdeIdx vaddr) (pteOf (table * pgSize))) s.cr3 :=
      tables.running.isDir.setPde low
    refine isDir.congr ?_
    rw [dir, setWord, Function.update_self]
  · intro idx isLooked isPresent
    dsimp only at isPresent ⊢
    rw [alloc.cr3, dir] at isPresent ⊢
    by_cases same : idx = pdeIdx vaddr
    · subst same
      refine ⟨table, Function.update_self _ _ _, notDir, ?_⟩
      rintro ⟨pf, isFree⟩
      exact ((alloc.free pf table).mp isFree).2 rfl
    · rw [Function.update_of_ne same] at isPresent ⊢
      obtain ⟨old, isOld, notDir', taken, _⟩ := tables.old alloc isLooked isPresent
      exact ⟨old, isOld, notDir', taken⟩
  · intro idx idx' isLooked isLooked' isPresent same
    dsimp only at isPresent same
    rw [alloc.cr3, dir] at isPresent same
    by_cases first : idx = pdeIdx vaddr <;> by_cases second : idx' = pdeIdx vaddr
    · rw [first, second]
    · rw [same, Function.update_of_ne second] at isPresent
      obtain ⟨old, isOld, _, _, ne⟩ := tables.old alloc isLooked' isPresent
      rw [first, Function.update_self, Function.update_of_ne second, isOld] at same
      exact absurd (pteOf_frame_inj same).symm ne
    · rw [Function.update_of_ne first] at isPresent
      obtain ⟨old, isOld, _, _, ne⟩ := tables.old alloc isLooked isPresent
      rw [second, Function.update_self, Function.update_of_ne first, isOld] at same
      exact absurd (pteOf_frame_inj same) ne
    · rw [Function.update_of_ne first] at isPresent
      rw [Function.update_of_ne first, Function.update_of_ne second] at same
      exact tables.inj isLooked isLooked' isPresent same

/-- The page layer after `page_table_add` has taken a page table. -/
theorem Shows.withTable {s₁ : Mmu} {t₁ : MemState} {table : Nat} (shows_ : Shows looked s t)
    (shows₁ : Shows looked s₁ t₁) (alloc : Allocated s s₁ .kernel table)
    (low : pdeIdx vaddr < 768) (phyaddr : Nat) :
    Shows looked { s₁ with mem := withTable s.mem s.cr3 vaddr table phyaddr }
      { t₁ with
        pde := Function.update t₁.pde (pdeIdx vaddr) (pteOf (table * pgSize))
        pte := Function.update
          (fun page => if pdeIdx (page * pgSize) = pdeIdx vaddr then 0 else t₁.pte page)
          (pageOf vaddr) (pteOf phyaddr) } := by
  have notDir : table ≠ s.cr3 := by
    rintro rfl
    exact shows_.running.taken ⟨.kernel, alloc.wasFree⟩
  have dir : Mmu.withTable s.mem s.cr3 vaddr table phyaddr s.cr3 =
      Function.update (s.mem s.cr3) (pdeIdx vaddr) (pteOf (table * pgSize)) := withTable_dir notDir
  refine ⟨shows_.toTables.withTable alloc low phyaddr, shows₁.pool, shows₁.kernelVaddr, ?_, ?_⟩
  · intro idx isLooked
    dsimp only
    rw [alloc.cr3, dir]
    by_cases same : idx = pdeIdx vaddr
    · subst same
      rw [Function.update_self, Function.update_self]
    · rw [Function.update_of_ne same, Function.update_of_ne same, shows₁.pde isLooked, alloc.mem,
        alloc.cr3]
  · intro page table' isLooked isTable
    dsimp only at isTable ⊢
    rw [alloc.cr3, dir] at isTable
    have inTable : pdeIdx (page * pgSize) = page / 1024 := by
      simp only [pdeIdx, pgSize]
      omega
    by_cases same : page / 1024 = pdeIdx vaddr
    · rw [same, Function.update_self] at isTable
      obtain rfl := pteOf_frame_inj isTable
      rw [withTable_table]
      by_cases samePage : page = pageOf vaddr
      · subst samePage
        rw [Function.update_self, pteIdx_page, Function.update_self]
      · have ne : page % 1024 ≠ pteIdx vaddr := by
          rw [pdeIdx_page] at same
          rw [pteIdx_page]
          omega
        rw [Function.update_of_ne samePage, Function.update_of_ne ne, inTable, if_pos same]
    · rw [Function.update_of_ne same] at isTable
      have isPresent : present (s.mem s.cr3 (page / 1024)) = true := by
        rw [isTable]
        exact present_pteOf _
      obtain ⟨old, isOld, notDir', _, ne⟩ := shows_.old alloc isLooked isPresent
      obtain rfl := pteOf_frame_inj (isTable.symm.trans isOld)
      have ne' : page ≠ pageOf vaddr := by
        rintro rfl
        exact same (pdeIdx_page vaddr).symm
      rw [Function.update_of_ne ne', inTable, if_neg same, withTable_other ne notDir',
        shows₁.pte isLooked (by rw [alloc.mem, alloc.cr3]; exact isTable), alloc.mem]

theorem Shows.pageTableAdd_absent (shows_ : Shows looked s t) (isLooked : looked (pdeIdx vaddr))
    (absent : present (s.mem s.cr3 (pdeIdx vaddr)) = false)
    (added : s.pageTableAdd vaddr phyaddr = some s') :
    ∃ t', Memory.pageTableAdd t vaddr phyaddr = .ok t' ∧ Shows looked s' t' := by
  -- the kernel's entries are never absent
  have low : pdeIdx vaddr < 768 := by
    by_contra kernel
    rw [shows_.running.isDir.kernel _ (by omega) (shows_.below isLooked), present_pteOf] at absent
    cases absent
  have user : vaddr < 0xc0000000 := by
    simp only [pdeIdx] at low
    omega
  obtain ⟨s₁, table, allocated, alloc, rfl⟩ :=
    Mmu.pageTableAdd_absent shows_.running user absent added
  obtain ⟨t₁, isPalloc, shows₁⟩ := shows_.palloc allocated
  refine ⟨_, ?_, shows_.withTable shows₁ alloc low phyaddr⟩
  have absentPde : ¬ t.pde (pdeIdx vaddr) % 2 = 1 := by
    rw [shows_.pde isLooked]
    simpa [present] using absent
  simp only [Memory.pageTableAdd, if_neg absentPde, isPalloc]
  rfl

theorem Shows.pageTableAdd (shows_ : Shows looked s t) (isLooked : looked (pdeIdx vaddr))
    (added : s.pageTableAdd vaddr phyaddr = some s') :
    ∃ t', Memory.pageTableAdd t vaddr phyaddr = .ok t' ∧ Shows looked s' t' := by
  cases isPresent : present (s.mem s.cr3 (pdeIdx vaddr)) with
  | false => exact shows_.pageTableAdd_absent isLooked isPresent added
  | true =>
      obtain ⟨table, isTable, _, _⟩ := shows_.table isLooked isPresent
      rw [pageTableAdd_table shows_.running.isDir (shows_.small isLooked) isTable] at added
      split at added
      · cases added
      · rename_i free
        cases added
        have isPte := shows_.pte_page isLooked isTable
        refine ⟨_, ?_, shows_.setEntry isLooked isTable _⟩
        have isPde : t.pde (pdeIdx vaddr) % 2 = 1 := by
          rw [shows_.pde isLooked]
          simpa [present] using isPresent
        have absent : ¬ t.pte (pageOf vaddr) % 2 = 1 := by
          rw [isPte]
          simpa [present] using free
        simp only [Memory.pageTableAdd, if_pos isPde, if_neg absent]

theorem Shows.addrV2p (shows_ : Shows looked s t) (isLooked : looked (pdeIdx vaddr)) {phyAddr : Nat}
    (translated : s.addrV2p vaddr = some phyAddr) : Memory.addrV2p t vaddr = phyAddr := by
  have isRead := translated
  simp only [Mmu.addrV2p, Option.bind_eq_bind, Option.bind_eq_some_iff] at isRead
  obtain ⟨pte, isRead, _⟩ := isRead
  obtain ⟨table, isTable, _, _⟩ := shows_.table isLooked (shows_.of_read isLooked isRead)
  have isPte := shows_.pte_page isLooked isTable
  rw [addrV2p_table shows_.running.isDir (shows_.small isLooked) isTable, ← isPte]
    at translated
  exact Option.some.inj translated

theorem Shows.pageTablePteRemove (shows_ : Shows looked s t) (isLooked : looked (pdeIdx vaddr))
    (removed : s.pageTablePteRemove vaddr = some s') :
    Shows looked s' (Memory.pageTablePteRemove t vaddr) := by
  have isRead := removed
  simp only [Mmu.pageTablePteRemove, Option.bind_eq_bind, Option.bind_eq_some_iff] at isRead
  obtain ⟨pte, isRead, _⟩ := isRead
  obtain ⟨table, isTable, _, _⟩ := shows_.table isLooked (shows_.of_read isLooked isRead)
  have isPte := shows_.pte_page isLooked isTable
  rw [pageTablePteRemove_table shows_.running.isDir (shows_.small isLooked) isTable] at removed
  cases removed
  rw [Memory.pageTablePteRemove, isPte]
  exact shows_.setEntry isLooked isTable _

/-! ### `get_kernel_pages` -/

theorem Shows.vaddrGet (shows_ : Shows looked s t) {pgCnt : Nat}
    (got : s.vaddrGet pgCnt = some (s', vaddr)) :
    ∃ t', Memory.vaddrGet t .kernel pgCnt = .ok (t', some vaddr) ∧ Shows looked s' t' ∧
      s'.mem = s.mem ∧ s'.cr3 = s.cr3 := by
  simp only [Mmu.vaddrGet, Option.bind_eq_bind, Option.bind_eq_some_iff] at got
  obtain ⟨bitIdxStart, scanned, result⟩ := got
  split at result
  · cases result
  · rename_i found
    simp only [Option.pure_def, Option.some.injEq, Prod.mk.injEq] at result
    obtain ⟨rfl, rfl⟩ := result
    have isKernel : t.vaddr .kernel = s.kernelVaddr := shows_.kernelVaddr
    refine ⟨t.setVaddrBitmap .kernel
      (bitmapSetRun s.kernelVaddr.vaddrBitmap bitIdxStart.toNat true pgCnt), ?_, ?_, rfl, rfl⟩
    · simp [Memory.vaddrGet, isKernel, scanned, found]
    · have started : SameLayout s { s with kernelVaddr := { s.kernelVaddr with
          vaddrBitmap := bitmapSetRun s.kernelVaddr.vaddrBitmap bitIdxStart.toNat true pgCnt } } :=
        ⟨fun _ => rfl, fun _ => rfl, rfl, bitmapSetRun_len _ _ _ _⟩
      have running := shows_.running
      refine ⟨⟨⟨started.layout running.layout, running.isDir, running.notTable, running.taken⟩,
        shows_.below, shows_.table, shows_.inj⟩, ?_, ?_, shows_.pde, shows_.pte⟩
      · intro pf
        rw [← shows_.pool pf]
        cases pf <;> rfl
      · simp only [MemState.setVaddrBitmap, shows_.kernelVaddr]

theorem Shows.mapPages {cnt : Nat} :
    ∀ {s s' : Mmu} {t : MemState} {vaddr : Nat}, Shows looked s t →
      (∀ i < cnt, looked (pdeIdx (vaddr + i * pgSize))) → mapPages cnt s vaddr = some s' →
      ∃ t', Memory.mapPages .kernel cnt t vaddr = .ok (t', true) ∧ Shows looked s' t' := by
  induction cnt with
  | zero =>
      intro s s' t vaddr shows_ _ mapped
      cases mapped
      exact ⟨t, rfl, shows_⟩
  | succ cnt inductionHypothesis =>
      intro s s' t vaddr shows_ range mapped
      simp only [Mmu.mapPages, Option.bind_eq_bind, Option.bind_eq_some_iff] at mapped
      obtain ⟨⟨s₁, phyaddr⟩, allocated, s₂, added, rest⟩ := mapped
      obtain ⟨t₁, isPalloc, shows₁⟩ := shows_.palloc allocated
      obtain ⟨t₂, isAdd, shows₂⟩ := shows₁.pageTableAdd (by simpa using range 0 (by omega)) added
      obtain ⟨t', isRest, shows'⟩ := inductionHypothesis shows₂ (fun i inside => by
        rw [show vaddr + pgSize + i * pgSize = vaddr + (i + 1) * pgSize by
          rw [Nat.add_mul, Nat.one_mul]; omega]
        exact range (i + 1) (by omega)) rest
      refine ⟨t', ?_, shows'⟩
      simp only [Memory.mapPages, isPalloc, isAdd, isRest]

/-- `get_kernel_pages` is `malloc_page` for the page layer: its `memset` reaches no page
table. -/
theorem Shows.getKernelPages (shows_ : Shows looked s t)
    (kernel : ∀ {idx}, KernelHalf idx → looked idx) {pgCnt : Nat}
    (got : s.getKernelPages pgCnt = some (s', vaddr)) :
    ∃ t', mallocPage t .kernel pgCnt = .ok (t', some vaddr) ∧ Shows looked s' t' := by
  obtain ⟨_, _, _, pages⟩ := getKernelPages_spec shows_.running got
  have range := pages.range
  unfold Mmu.getKernelPages at got
  split at got
  · rename_i inRange
    simp only [Option.bind_eq_bind, Option.bind_eq_some_iff] at got
    obtain ⟨⟨s₁, vaddr₁⟩, gotVaddr, s₂, mapped, s₃, cleared, result⟩ := got
    simp only [Option.pure_def, Option.some.injEq, Prod.mk.injEq] at result
    obtain ⟨rfl, rfl⟩ := result
    obtain ⟨t₁, isVaddr, shows₁, _, _⟩ := shows_.vaddrGet gotVaddr
    have inHalf : ∀ i < pgCnt, looked (pdeIdx (vaddr₁ + i * pgSize)) := by
      intro i inside
      rw [pdeIdx_page, show pageOf (vaddr₁ + i * pgSize) = pageOf vaddr₁ + i by
        simp only [pageOf, pgSize]; omega]
      exact kernel (kernelHalf_page (range i inside))
    obtain ⟨t₂, isMap, shows₂⟩ := shows₁.mapPages inHalf mapped
    obtain ⟨running₂, frames, map⟩ := mapPages_spec shows₁.running range mapped
    have notDir : ∀ i < pgCnt, frames i ≠ s₂.cr3 := by
      intro i inside same
      rw [map.cr3] at same
      exact shows₁.running.taken ⟨.kernel, same ▸ map.wasFree i inside⟩
    have notTable : ∀ i < pgCnt, ¬ IsKernelTable (frames i) := by
      intro i inside isTable
      have := Free.notKernelTable ⟨_, map.wasFree i inside⟩ shows₁.running.layout
      have := isTable.2
      omega
    obtain ⟨m, rfl, _, other⟩ := clearPages_spec frames running₂.isDir (fun i inside =>
      ⟨range i inside, map.entry i inside, notTable i inside, notDir i inside⟩) cleared
    refine ⟨t₂, ?_, shows₂.setMem (other _ fun i inside same => notDir i inside same.symm) ?_⟩
    · simp only [mallocPage, if_pos inRange, isVaddr, isMap, if_true]
    · -- the pages were free when the page tables were not
      intro idx table isLooked isTable
      refine other table fun i inside same => ?_
      rw [map.cr3, map.other _ shows₁.running.notTable] at isTable
      have isPresent : present (s₁.mem s₁.cr3 idx) = true := by
        rw [isTable]
        exact present_pteOf _
      obtain ⟨own, isOwn, _, taken⟩ := shows₁.table isLooked isPresent
      obtain rfl := pteOf_frame_inj (isTable.symm.trans isOwn)
      exact taken ⟨.kernel, same ▸ map.wasFree i inside⟩
  · cases got

/-! ### `mfree_page` -/

/-- A frame that was given back is neither a page table nor the directory. -/
theorem Tables.released (tables : Tables looked s) {pf : PoolFlags} {bit : Nat}
    (notDir : s.frameOf pf bit ≠ s.cr3)
    (notTable : ∀ {idx}, looked idx → s.mem s.cr3 idx ≠ pteOf (s.frameOf pf bit * pgSize)) :
    Tables looked (s.setPoolBit pf bit false) := by
  have same := setPoolBit_sameLayout s pf bit false
  have taken : ∀ {frame}, frame ≠ s.frameOf pf bit → ¬ s.Free frame →
      ¬ (s.setPoolBit pf bit false).Free frame := by
    rintro frame ne notFree ⟨pf', bit', inside, rfl, clear⟩
    have sameFrame : (s.setPoolBit pf bit false).frameOf pf' bit' = s.frameOf pf' bit' := by
      simp only [frameOf, same.start]
    rw [sameFrame] at ne notFree
    rw [same.len] at inside
    refine notFree ⟨pf', bit', inside, rfl, ?_⟩
    by_cases samePool : pf' = pf
    · subst samePool
      have other : bit' ≠ bit := by
        rintro rfl
        exact ne rfl
      simpa [Mmu.setPoolBit, bitmapScanTest_bitmapSet, other] using clear
    · simpa [Mmu.setPoolBit, samePool] using clear
  have running := tables.running
  refine ⟨⟨same.layout running.layout, running.isDir, running.notTable,
    taken notDir.symm running.taken⟩, tables.below, ?_, tables.inj⟩
  intro idx isLooked isPresent
  obtain ⟨table, isTable, tableNotDir, notFree⟩ := tables.table isLooked isPresent
  refine ⟨table, isTable, tableNotDir, taken ?_ notFree⟩
  rintro rfl
  exact notTable isLooked isTable

/-- The pool and the bit of a page that is given back. -/
theorem frameOf_pfree (layout : s.Layout) {phyAddr : Nat} (aligned : phyAddr % pgSize = 0)
    {pf : PoolFlags} (inPool : (s.pool pf).phyAddrStart ≤ phyAddr) :
    s.frameOf pf ((phyAddr - (s.pool pf).phyAddrStart) / pgSize) * pgSize = phyAddr := by
  have start := layout.aligned pf
  simp only [frameOf, pgSize] at *
  omega

theorem Shows.pfree (shows_ : Shows looked s t) {phyAddr : Nat} (aligned : phyAddr % pgSize = 0)
    (inPool : phyAddr < (s.pool .user).phyAddrStart → (s.pool .kernel).phyAddrStart ≤ phyAddr)
    (notDir : phyAddr ≠ s.cr3 * pgSize)
    (notTable : ∀ {idx}, looked idx → s.mem s.cr3 idx ≠ pteOf phyAddr) :
    Shows looked (s.pfree phyAddr) (Memory.pfree t phyAddr) := by
  have released : ∀ {pf}, (s.pool pf).phyAddrStart ≤ phyAddr →
      Tables looked (s.setPoolBit pf ((phyAddr - (s.pool pf).phyAddrStart) / pgSize) false) := by
    intro pf start
    have frame := frameOf_pfree shows_.running.layout aligned start
    refine shows_.toTables.released (fun same => notDir ?_) fun isLooked => ?_
    · rw [← frame, same]
    · rw [frame]
      exact notTable isLooked
  have user : t.userPool = s.pool .user := shows_.pool .user
  by_cases isUser : phyAddr ≥ (s.pool .user).phyAddrStart
  · simp only [Mmu.pfree, Memory.pfree, user, isUser, if_true]
    have := shows_.setPoolBit (released isUser)
    rw [shows_.pool .user] at this ⊢
    exact this
  · simp only [Mmu.pfree, Memory.pfree, user, isUser, if_false]
    have := shows_.setPoolBit (released (inPool (by omega)))
    rw [shows_.pool .kernel] at this ⊢
    exact this

theorem Shows.mfreeKernelPage (shows_ : Shows looked s t) (isLooked : looked (pdeIdx vaddr))
    (notDir : s.addrV2p vaddr ≠ some (s.cr3 * pgSize))
    (notTable : ∀ {idx phyAddr}, s.addrV2p vaddr = some phyAddr → looked idx →
      s.mem s.cr3 idx ≠ pteOf phyAddr)
    (freed : s.mfreeKernelPage vaddr = some s') :
    ∃ t', mfreePage t .kernel vaddr 1 = .ok t' ∧ Shows looked s' t' := by
  simp only [Mmu.mfreeKernelPage, Option.bind_eq_bind, Option.bind_eq_some_iff] at freed
  obtain ⟨phyAddr, translated, freed⟩ := freed
  split at freed
  · rename_i checks
    obtain ⟨aligned, phyAligned, phyLow, inPool⟩ := checks
    simp only [Option.bind_eq_some_iff, Option.pure_def, Option.some.injEq] at freed
    obtain ⟨s₁, removed, rfl⟩ := freed
    have isV2p := shows_.addrV2p isLooked translated
    have shows₁ := shows_.pfree phyAligned inPool (fun same => notDir (same ▸ translated))
      fun isLooked' => notTable translated isLooked'
    have shows₂ := shows₁.pageTablePteRemove isLooked removed
    have user : t.userPool = s.pool .user := shows_.pool .user
    have kernel : t.kernelPool = s.pool .kernel := shows_.pool .kernel
    refine ⟨vaddrRemove (Memory.pageTablePteRemove (Memory.pfree t phyAddr) vaddr) .kernel vaddr 1,
      ?_, ?_⟩
    · by_cases isUser : phyAddr ≥ (s.pool .user).phyAddrStart
      · simp [mfreePage, unmapPages, aligned, isV2p, phyAligned, phyLow, user, isUser]
      · simp [mfreePage, unmapPages, aligned, isV2p, phyAligned, phyLow, user, kernel, isUser,
          inPool (by omega), Nat.lt_of_not_le isUser]
    · have running := shows₂.running
      refine ⟨⟨⟨⟨running.layout.aligned, running.layout.low, running.layout.order,
        running.layout.vaddrStart, running.layout.vaddrHigh⟩, running.isDir, running.notTable,
        running.taken⟩, shows₂.below, shows₂.table, shows₂.inj⟩, ?_, ?_, shows₂.pde, shows₂.pte⟩
      · intro pf
        rw [← shows₂.pool pf]
        cases pf <;> rfl
      · have isKernel := shows₂.kernelVaddr
        simp only [vaddrRemove, MemState.setVaddrBitmap, MemState.vaddr, bitmapSetRun, isKernel]
        rfl
  · cases freed

/-! ### Runs over the kernel's pages -/

/-- The physical pages behind a run of the kernel's pages. -/
def frames (s : Mmu) (vaddr pgCnt : Nat) : List Nat :=
  (List.range pgCnt).map fun i => (s.addrV2p (vaddr + i * pgSize)).getD 0

/-- The calls of `PageStep`, of the machine: `mfree_page` is called for single pages there,
and never for the page of the loaded directory. -/
inductive KernelStep : Mmu × List Region → Mmu × List Region → Prop where
  | malloc {s s' : Mmu} {live : List Region} {pgCnt vaddr : Nat}
      (got : s.getKernelPages pgCnt = some (s', vaddr))
      (inside : vaddr + pgCnt * pgSize ≤ heapAddr (8 * s.kernelVaddr.vaddrBitmap.btmpBytesLen)) :
      KernelStep (s, live) (s', ⟨vaddr, pgCnt, s'.frames vaddr pgCnt⟩ :: live)
  | mfree {s s' : Mmu} {live : List Region} {r : Region} (isLive : r ∈ live) (single : r.pgCnt = 1)
      (isKernel : IsKernelPage (pageOf r.vaddr))
      (notLoaded : s.addrV2p r.vaddr ≠ some (s.cr3 * pgSize))
      (freed : s.mfreeKernelPage r.vaddr = some s') :
      KernelStep (s, live) (s', live.erase r)

/-- The kernel's page tables lie below the pools. -/
theorem Running.notKernelTable (running : s.Running) (freed : s.mfreeKernelPage vaddr = some s')
    {idx phyAddr : Nat} (translated : s.addrV2p vaddr = some phyAddr) (isLooked : KernelHalf idx) :
    s.mem s.cr3 idx ≠ pteOf phyAddr := by
  simp only [Mmu.mfreeKernelPage, translated, Option.bind_eq_bind, Option.bind_some] at freed
  split at freed
  · rename_i checks
    obtain ⟨_, aligned, _, inPool⟩ := checks
    rw [running.isDir.kernel idx isLooked.1 isLooked.2,
      show phyAddr = phyAddr / pgSize * pgSize by simp only [pgSize] at *; omega]
    intro same
    have frame := pteOf_frame_inj same
    have low := running.layout.low
    have order := running.layout.order
    have below := isLooked.2
    simp only [pgSize] at *
    by_cases isUser : phyAddr < (s.pool .user).phyAddrStart
    · have := inPool isUser
      omega
    · omega
  · cases freed

theorem KernelStep.simulated {s s' : Mmu} {live live' : List Region} {t : MemState}
    (step : KernelStep (s, live) (s', live')) (shows_ : Shows KernelHalf s t) :
    ∃ t', PageStep ⟨t, live⟩ ⟨t', live'⟩ ∧ Shows KernelHalf s' t' := by
  cases step with
  | @malloc _ _ _ pgCnt vaddr got inside =>
      obtain ⟨t', isMalloc, shows'⟩ := shows_.getKernelPages id got
      obtain ⟨_, _, _, pages⟩ := getKernelPages_spec shows_.running got
      have sameFrames : s'.frames vaddr pgCnt = translation t' vaddr pgCnt := by
        refine List.map_congr_left fun i mem => ?_
        have range := pages.range i (List.mem_range.mp mem)
        rw [show pageOf vaddr + i = pageOf (vaddr + i * pgSize) by
          simp only [pageOf, pgSize]; omega] at range
        have isLooked : KernelHalf (pdeIdx (vaddr + i * pgSize)) := by
          rw [pdeIdx_page]
          exact kernelHalf_page range
        have translated := addrV2p_table shows'.running.isDir (small_of_kernelPage range)
          (shows'.running.isDir.pde_kernel range)
        rw [shows'.addrV2p isLooked translated, translated]
        rfl
      rw [sameFrames]
      refine ⟨t', .malloc isMalloc ?_, shows'⟩
      rw [shows_.kernelVaddr]
      exact inside
  | @mfree _ _ _ r isLive single isKernel notLoaded freed =>
      have isLooked : KernelHalf (pdeIdx r.vaddr) := by
        rw [pdeIdx_page]
        exact kernelHalf_page isKernel
      obtain ⟨t', isFree, shows'⟩ := shows_.mfreeKernelPage isLooked notLoaded
        (fun translated isLooked' => shows_.running.notKernelTable freed translated isLooked') freed
      exact ⟨t', .mfree isLive (by rw [single]; exact isFree), shows'⟩

/-- A run of the machine over the kernel's pages is a run of the page layer. -/
theorem kernel_runs_refine {s s' : Mmu × List Region} {t : MemState}
    (isRun : Relation.ReflTransGen KernelStep s s') (shows_ : Shows KernelHalf s.1 t) :
    ∃ t', Relation.ReflTransGen PageStep ⟨t, s.2⟩ ⟨t', s'.2⟩ ∧ Shows KernelHalf s'.1 t' := by
  induction isRun with
  | refl => exact ⟨t, .refl, shows_⟩
  | tail _ step inductionHypothesis =>
      obtain ⟨t₁, before, shows₁⟩ := inductionHypothesis
      obtain ⟨t', isStep, shows'⟩ := step.simulated shows₁
      exact ⟨t', before.tail isStep, shows'⟩

/-- The first page of the kernel's heap. -/
theorem kernel_runs_refine_first :
    ∃ s' t', Userprog.bootDirectories.mmu.getKernelPages 1 = some (s', 0xc0100000) ∧
      Relation.ReflTransGen PageStep ⟨Userprog.bootDirectories.mmu.shown loaderMem, []⟩
        ⟨t', [⟨0xc0100000, 1, s'.frames 0xc0100000 1⟩]⟩ ∧ Shows KernelHalf s' t' := by
  have inv : Userprog.DirectoriesInv Userprog.bootDirectories :=
    .start ⟨_, loaderMem, 0x2000000, rfl⟩
  have returned : (Userprog.bootDirectories.mmu.getKernelPages 1).map Prod.snd = some 0xc0100000 := by
    decide +kernel
  obtain ⟨⟨s', vaddr⟩, got, rfl⟩ := Option.map_eq_some_iff.mp returned
  have step : KernelStep (Userprog.bootDirectories.mmu, [])
      (s', [⟨0xc0100000, 1, s'.frames 0xc0100000 1⟩]) := .malloc got (by decide)
  obtain ⟨t', isRun, shows'⟩ := kernel_runs_refine (.single step) (inv.running.shows loaderMem)
  exact ⟨s', t', got, isRun, shows'⟩

end ZyOs.Memory.Mmu
