import ZyOs.Memory.MmuTables
import ZyOs.Memory.PageRun
import Mathlib.Logic.Relation

/-!
Contract: the page directories of the whole system, over every order of process
creations and of mappings and unmappings of kernel addresses.

Owns: the list of directories, beginning with the one of `setup_page`, and the
steps that work on them.

`create_page_dir` copies the kernel's entries once. The directories agree later
on because the loader has filled all of these entries, so that
`page_table_add` never has to make a page table for a kernel address.
-/

namespace ZyOs.Userprog

open ZyOs.Kernel ZyOs.Memory

/-- The machine and the frames of the page directories. -/
structure Directories where
  mmu : Mmu
  dirs : List Nat

/-- An address of the kernel below the page tables. -/
def IsKernelAddr (vaddr : Nat) : Prop := 0xc0000000 ≤ vaddr ∧ vaddr ≤ 0xffbfffff

/-- What the rest of the system leaves alone: the kernel's page tables and, in
every directory, the kernel's entries; and it frees no directory. -/
structure Elsewhere (s : Directories) (mmu : Mmu) : Prop where
  layout : s.mmu.SameLayout mmu
  cr3 : mmu.cr3 = s.mmu.cr3
  tables : ∀ frame, IsKernelTable frame → mmu.mem frame = s.mmu.mem frame
  entries : ∀ dir ∈ s.dirs, ∀ idx, 768 ≤ idx → mmu.mem dir idx = s.mmu.mem dir idx
  taken : ∀ dir ∈ s.dirs, mmu.Free dir → s.mmu.Free dir

/-- What can happen to the directories. -/
inductive DirectoryStep (s : Directories) : Directories → Prop where
  -- `process_execute` and `sys_fork`
  | create {mmu : Mmu} {vaddr dir : Nat} (created : s.mmu.createPageDir = some (mmu, vaddr))
      (physical : mmu.addrV2p vaddr = some (dir * pgSize)) : DirectoryStep s ⟨mmu, dir :: s.dirs⟩
  | map {mmu : Mmu} {vaddr phyaddr : Nat} (isKernel : IsKernelAddr vaddr)
      (added : s.mmu.pageTableAdd vaddr phyaddr = some mmu) : DirectoryStep s ⟨mmu, s.dirs⟩
  | unmap {mmu : Mmu} {vaddr : Nat} (isKernel : IsKernelAddr vaddr)
      (removed : s.mmu.pageTablePteRemove vaddr = some mmu) : DirectoryStep s ⟨mmu, s.dirs⟩
  | kernelPages {mmu : Mmu} {pgCnt vaddr : Nat}
      (got : s.mmu.getKernelPages pgCnt = some (mmu, vaddr)) : DirectoryStep s ⟨mmu, s.dirs⟩
  -- a task switch, to a task whose `pgdir` is one of the directories
  | activate {mmu : Mmu} {pgdir : Option Nat}
      (activated : s.mmu.pageDirActivate pgdir = some mmu) (isDir : mmu.cr3 ∈ s.dirs) :
      DirectoryStep s ⟨mmu, s.dirs⟩
  | elsewhere {mmu : Mmu} (elsewhere : Elsewhere s mmu) : DirectoryStep s ⟨mmu, s.dirs⟩

/-- After the loader and `mem_pool_init`; the rest of memory has any contents. -/
def DirectoriesStart (s : Directories) : Prop :=
  ∃ (m : Frames) (loaded : MemState) (allMem : Nat),
    s = ⟨⟨setupPage m, 0x100, (memPoolInit loaded allMem).pool,
      (memPoolInit loaded allMem).kernelVaddr⟩, [0x100]⟩

def DirectoriesReachable (s : Directories) : Prop :=
  ∃ start, DirectoriesStart start ∧ Relation.ReflTransGen DirectoryStep start s

/-! ### The invariant -/

structure DirectoriesInv (s : Directories) : Prop where
  layout : s.mmu.Layout
  active : s.mmu.cr3 ∈ s.dirs
  isDir : ∀ dir ∈ s.dirs, IsDir s.mmu.mem dir
  notTable : ∀ dir ∈ s.dirs, ¬ IsKernelTable dir
  taken : ∀ dir ∈ s.dirs, ¬ s.mmu.Free dir

theorem DirectoriesInv.running {s : Directories} (inv : DirectoriesInv s) : s.mmu.Running :=
  ⟨inv.layout, inv.isDir _ inv.active, inv.notTable _ inv.active, inv.taken _ inv.active⟩

theorem kernelPage_of_addr {vaddr : Nat} (isKernel : IsKernelAddr vaddr) :
    IsKernelPage (pageOf vaddr) := by
  obtain ⟨low, high⟩ := isKernel
  simp only [IsKernelPage, pageOf, pgSize]
  omega

/-- A step that gives the pools and the kernel's page tables other contents. -/
theorem DirectoriesInv.setMmu {s : Directories} (inv : DirectoriesInv s) {mmu : Mmu}
    (same : s.mmu.SameLayout mmu) (cr3 : mmu.cr3 = s.mmu.cr3)
    (dirs : ∀ dir ∈ s.dirs, mmu.mem dir = s.mmu.mem dir)
    (taken : ∀ dir ∈ s.dirs, mmu.Free dir → s.mmu.Free dir) :
    DirectoriesInv ⟨mmu, s.dirs⟩ where
  layout := same.layout inv.layout
  active := by
    simp only [cr3]
    exact inv.active
  isDir dir mem := (inv.isDir dir mem).congr (dirs dir mem)
  notTable := inv.notTable
  taken dir mem free := inv.taken dir mem (taken dir mem free)

/-- A step that writes one entry of a page table of the kernel. -/
theorem DirectoriesInv.setEntry {s : Directories} (inv : DirectoriesInv s) {vaddr value : Nat}
    (isKernel : IsKernelAddr vaddr) :
    DirectoriesInv ⟨{ s.mmu with
      mem := setWord s.mmu.mem (0x101 + (pageOf vaddr / 1024 - 768)) (pageOf vaddr % 1024) value },
      s.dirs⟩ := by
  have isTable := kernelTable_of_page (kernelPage_of_addr isKernel)
  have dirs : ∀ dir ∈ s.dirs, setWord s.mmu.mem (0x101 + (pageOf vaddr / 1024 - 768))
      (pageOf vaddr % 1024) value dir = s.mmu.mem dir := by
    intro dir mem
    refine Function.update_of_ne (fun same => ?_) _ _
    rw [← same] at isTable
    exact inv.notTable dir mem isTable
  exact inv.setMmu ⟨fun _ => rfl, fun _ => rfl, rfl, rfl⟩ rfl dirs fun _ _ free => free

theorem DirectoriesInv.create {s : Directories} (inv : DirectoriesInv s) {mmu : Mmu}
    {vaddr dir : Nat} (created : s.mmu.createPageDir = some (mmu, vaddr))
    (physical : mmu.addrV2p vaddr = some (dir * pgSize)) :
    DirectoriesInv ⟨mmu, dir :: s.dirs⟩ := by
  obtain ⟨running, frame, new⟩ := Mmu.createPageDir_spec inv.running created
  have sameFrame : dir = frame := by
    rw [Mmu.addrV2p_kernel running.isDir new.isKernel new.entry new.aligned] at physical
    simp only [Option.some.injEq, pgSize] at physical
    omega
  subst sameFrame
  have others : ∀ other ∈ s.dirs, other ≠ dir := by
    intro other mem same
    exact inv.taken other mem ⟨.kernel, same ▸ new.wasFree⟩
  constructor
  case layout => exact running.layout
  case active =>
    simp only [new.cr3]
    exact List.mem_cons_of_mem _ inv.active
  case isDir =>
    intro other mem
    rcases List.mem_cons.mp mem with rfl | old
    · exact new.isDir
    · exact (inv.isDir other old).congr
        (new.other other (inv.notTable other old) (others other old))
  case notTable =>
    intro other mem isTable
    rcases List.mem_cons.mp mem with rfl | old
    · have := Mmu.Free.notKernelTable ⟨_, new.wasFree⟩ inv.layout
      have := isTable.2
      omega
    · exact inv.notTable other old isTable
  case taken =>
    rintro other mem ⟨pf, free⟩
    obtain ⟨wasFree, ne⟩ := (new.free pf other).mp free
    rcases List.mem_cons.mp mem with rfl | old
    · exact ne rfl
    · exact inv.taken other old ⟨pf, wasFree⟩

theorem DirectoriesInv.kernelPages {s : Directories} (inv : DirectoriesInv s) {mmu : Mmu}
    {pgCnt vaddr : Nat} (got : s.mmu.getKernelPages pgCnt = some (mmu, vaddr)) :
    DirectoriesInv ⟨mmu, s.dirs⟩ := by
  obtain ⟨_, _, frames, pages⟩ := Mmu.getKernelPages_spec inv.running got
  refine inv.setMmu pages.layout pages.cr3 (fun dir mem => ?_) ?_
  · refine pages.other dir (inv.notTable dir mem) fun i inside same => ?_
    exact inv.taken dir mem ⟨.kernel, same ▸ pages.wasFree i inside⟩
  · rintro dir _ ⟨pf, free⟩
    exact ⟨pf, ((pages.free pf dir).mp free).1⟩

/-- Only CR3 changes. -/
theorem pageDirActivate_eq {s s' : Mmu} {pgdir : Option Nat}
    (activated : s.pageDirActivate pgdir = some s') : s' = { s with cr3 := s'.cr3 } := by
  cases pgdir with
  | none =>
      cases activated
      rfl
  | some vaddr =>
      simp only [Mmu.pageDirActivate, Option.bind_eq_bind, Option.bind_eq_some_iff] at activated
      obtain ⟨phyAddr, _, result⟩ := activated
      cases result
      rfl

theorem DirectoriesInv.activate {s : Directories} (inv : DirectoriesInv s) {mmu : Mmu}
    {pgdir : Option Nat} (activated : s.mmu.pageDirActivate pgdir = some mmu)
    (isDir : mmu.cr3 ∈ s.dirs) : DirectoriesInv ⟨mmu, s.dirs⟩ := by
  have same := pageDirActivate_eq activated
  obtain ⟨layout, active, dirs, notTable, taken⟩ := inv
  obtain ⟨⟨mem, cr3, pool, kernelVaddr⟩, list⟩ := s
  obtain ⟨mem', cr3', pool', kernelVaddr'⟩ := mmu
  cases same
  exact ⟨⟨layout.aligned, layout.low, layout.order, layout.vaddrStart, layout.vaddrHigh⟩, isDir,
    dirs, notTable, taken⟩

theorem DirectoriesInv.elsewhere {s : Directories} (inv : DirectoriesInv s) {mmu : Mmu}
    (elsewhere : Elsewhere s mmu) : DirectoriesInv ⟨mmu, s.dirs⟩ := by
  constructor
  case layout => exact elsewhere.layout.layout inv.layout
  case active =>
    simp only [elsewhere.cr3]
    exact inv.active
  case isDir =>
    intro dir mem
    obtain ⟨kernel, self⟩ := inv.isDir dir mem
    refine ⟨fun idx low high => ?_, ?_⟩
    · exact (elsewhere.entries dir mem idx low).trans (kernel idx low high)
    · exact (elsewhere.entries dir mem 1023 (by decide)).trans self
  case notTable => exact inv.notTable
  case taken => exact fun dir mem free => inv.taken dir mem (elsewhere.taken dir mem free)

/-- One step keeps the invariant. -/
theorem DirectoriesInv.step {s s' : Directories} (inv : DirectoriesInv s)
    (step : DirectoryStep s s') : DirectoriesInv s' := by
  cases step with
  | create created physical => exact inv.create created physical
  | map isKernel added =>
      obtain ⟨_, rfl⟩ := Mmu.pageTableAdd_kernel inv.running.isDir (kernelPage_of_addr isKernel) added
      exact inv.setEntry isKernel
  | unmap isKernel removed =>
      obtain ⟨_, rfl⟩ :=
        Mmu.pageTablePteRemove_kernel inv.running.isDir (kernelPage_of_addr isKernel) removed
      exact inv.setEntry isKernel
  | kernelPages got => exact inv.kernelPages got
  | activate activated isDir => exact inv.activate activated isDir
  | elsewhere elsewhere => exact inv.elsewhere elsewhere

/-! ### The start -/

theorem setupPage_isDir (m : Frames) : IsDir (setupPage m) 0x100 := by
  refine ⟨fun idx low high => ?_, by simp [setupPage, pgSize]⟩
  by_cases first : idx = 768
  · subst first
    simp [setupPage, pgSize]
  · simp only [setupPage, if_true]
    rw [if_neg (by omega), if_neg (by omega), if_pos (by omega),
      show 0x102000 + (idx - 769) * 0x1000 = (0x101 + (idx - 768)) * pgSize by
        simp only [pgSize]
        omega]

theorem memPoolInit_mmuLayout (m : Frames) (loaded : MemState) (allMem : Nat) :
    Mmu.Layout ⟨m, 0x100, (memPoolInit loaded allMem).pool,
      (memPoolInit loaded allMem).kernelVaddr⟩ := by
  have pages := kernelFreePages_lt allMem
  constructor
  case aligned =>
    rintro (_ | _)
    · simp only [MemState.pool, memPoolInit]
      decide
    · simp only [MemState.pool, memPoolInit, usedMem, pgSize]
      omega
  case low =>
    simp only [MemState.pool, memPoolInit]
    decide
  case order =>
    simp only [MemState.pool, memPoolInit, bitmapInit, usedMem, pgSize]
    omega
  case vaddrStart => rfl
  case vaddrHigh =>
    simp only [memPoolInit, bitmapInit, heapAddr, kHeapStart, pgSize]
    omega

theorem DirectoriesInv.start {s : Directories} (start : DirectoriesStart s) : DirectoriesInv s := by
  obtain ⟨m, loaded, allMem, rfl⟩ := start
  have layout := memPoolInit_mmuLayout (setupPage m) loaded allMem
  refine ⟨layout, List.mem_singleton.mpr rfl, ?_, ?_, ?_⟩
  · intro dir mem
    obtain rfl := List.mem_singleton.mp mem
    exact setupPage_isDir m
  · intro dir mem isTable
    obtain rfl := List.mem_singleton.mp mem
    exact absurd isTable.1 (by decide)
  · intro dir mem free
    obtain rfl := List.mem_singleton.mp mem
    exact absurd (Mmu.Free.notKernelTable free layout) (by decide)

theorem DirectoriesReachable.inv {s : Directories} (reachable : DirectoriesReachable s) :
    DirectoriesInv s := by
  obtain ⟨start, isStart, run⟩ := reachable
  induction run with
  | refl => exact DirectoriesInv.start isStart
  | tail _ step inductionHypothesis => exact inductionHypothesis.step step

/-! ### The directories agree -/

/-- The state after the loader and `mem_pool_init` on 32 megabytes. -/
def bootDirectories : Directories where
  mmu :=
    { mem := setupPage fun _ _ => 0
      cr3 := 0x100
      pool := (memPoolInit loaderMem 0x2000000).pool
      kernelVaddr := (memPoolInit loaderMem 0x2000000).kernelVaddr }
  dirs := [0x100]

end ZyOs.Userprog
