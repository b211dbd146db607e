import ZyOs.Memory.PageInvariant

/-!
Contract: the page layer of `kernel/memory.c` over physical memory, with every
access translated by the page directory that is loaded.

Owns:
- physical memory by frame and word, CR3, the two-level translation;
- `pde_ptr` and `pte_ptr`, which reach the page tables through entry 1023 of the
  directory, and the functions that use them: `page_table_add`, `malloc_page`,
  `get_kernel_pages`, `get_a_page_without_opvaddrbitmap`, `addr_v2p`,
  `page_table_pte_remove`, `mfree_page`.

A result of `none` is a page fault, a failed `ASSERT` or a `NULL` that the
caller cannot go on with. `memset` and `memcpy` look up a page once.

Does not own: what is kept in the pages.
-/

namespace ZyOs.Memory

open ZyOs.Kernel

/-! ### Translation -/

/-- Physical memory: the words of each frame. -/
abbrev Frames := Nat → Nat → Nat

/-- The frame an entry of a directory or of a page table points to. -/
def entryFrame (entry : Nat) : Nat := entry / pgSize

def present (entry : Nat) : Bool := entry % 2 = 1

/-- The frame of a virtual page under a directory. -/
def translatePage (m : Frames) (dir page : Nat) : Option Nat :=
  let pde := m dir (page / 1024)
  if present pde then
    let pte := m (entryFrame pde) (page % 1024)
    if present pte then some (entryFrame pte) else none
  else
    none

def setWord (m : Frames) (frame idx value : Nat) : Frames :=
  Function.update m frame (Function.update (m frame) idx value)

/-- `PTE_IDX`; `PDE_IDX` is `pdeIdx`. -/
def pteIdx (vaddr : Nat) : Nat := vaddr / 2 ^ 12 % 1024

/-- The machine: memory, the frame of the loaded directory, and the pools. -/
structure Mmu where
  mem : Frames
  cr3 : Nat
  pool : PoolFlags → Pool
  kernelVaddr : VirtualAddr

namespace Mmu

def lookup (s : Mmu) (vaddr : Nat) : Option Nat := translatePage s.mem s.cr3 (vaddr / pgSize)

/-- The word at a virtual address. -/
def read (s : Mmu) (vaddr : Nat) : Option Nat := do
  let frame ← s.lookup vaddr
  return s.mem frame (vaddr % pgSize / 4)

def write (s : Mmu) (vaddr value : Nat) : Option Mmu := do
  let frame ← s.lookup vaddr
  return { s with mem := setWord s.mem frame (vaddr % pgSize / 4) value }

/-- `memset(vaddr, 0, PG_SIZE)`. -/
def clearPage (s : Mmu) (vaddr : Nat) : Option Mmu := do
  let frame ← s.lookup vaddr
  return { s with mem := Function.update s.mem frame fun _ => 0 }

/-- `memcpy` of words within one page. -/
def memcpy (s : Mmu) (dst src words : Nat) : Option Mmu := do
  let srcFrame ← s.lookup src
  let dstFrame ← s.lookup dst
  let first := dst % pgSize / 4
  return { s with
    mem := Function.update s.mem dstFrame fun idx =>
      if first ≤ idx ∧ idx < first + words then s.mem srcFrame (src % pgSize / 4 + (idx - first))
      else s.mem dstFrame idx }

/-! ### The page tables -/

def pdePtr (vaddr : Nat) : Nat := 0xfffff000 + pdeIdx vaddr * 4

def ptePtr (vaddr : Nat) : Nat := 0xffc00000 + pdeIdx vaddr * 2 ^ 12 + pteIdx vaddr * 4

def setPoolBit (s : Mmu) (pf : PoolFlags) (bitIdx : Nat) (value : Bool) : Mmu :=
  { s with
    pool := Function.update s.pool pf
      { s.pool pf with poolBitmap := bitmapSet (s.pool pf).poolBitmap bitIdx value } }

/-- `palloc`. -/
def palloc (s : Mmu) (pf : PoolFlags) : Option (Mmu × Nat) := do
  let bitIdx ← bitmapScan (s.pool pf).poolBitmap 1
  if bitIdx = -1 then
    none
  else
    return (s.setPoolBit pf bitIdx.toNat true,
      bitIdx.toNat * pgSize + (s.pool pf).phyAddrStart)

/-- `page_table_add`. -/
def pageTableAdd (s : Mmu) (vaddr phyaddr : Nat) : Option Mmu := do
  let pde ← s.read (pdePtr vaddr)
  if present pde then
    let pte ← s.read (ptePtr vaddr)
    if present pte then none else s.write (ptePtr vaddr) (pteOf phyaddr)
  else
    let (s, pdePhyaddr) ← s.palloc .kernel
    let s ← s.write (pdePtr vaddr) (pteOf pdePhyaddr)
    let s ← s.clearPage (ptePtr vaddr)
    let pte ← s.read (ptePtr vaddr)
    if present pte then none else s.write (ptePtr vaddr) (pteOf phyaddr)

/-- `addr_v2p`. -/
def addrV2p (s : Mmu) (vaddr : Nat) : Option Nat := do
  let pte ← s.read (ptePtr vaddr)
  return pte / pgSize * pgSize + vaddr % pgSize

/-- `page_table_pte_remove`. -/
def pageTablePteRemove (s : Mmu) (vaddr : Nat) : Option Mmu := do
  let pte ← s.read (ptePtr vaddr)
  s.write (ptePtr vaddr) (pte / 2 * 2)

/-! ### Kernel pages -/

/-- `vaddr_get(PF_KERNEL, ..)`. -/
def vaddrGet (s : Mmu) (pgCnt : Nat) : Option (Mmu × Nat) := do
  let bitIdxStart ← bitmapScan s.kernelVaddr.vaddrBitmap pgCnt
  if bitIdxStart = -1 then
    none
  else
    return ({ s with kernelVaddr := { s.kernelVaddr with
        vaddrBitmap := bitmapSetRun s.kernelVaddr.vaddrBitmap bitIdxStart.toNat true pgCnt } },
      s.kernelVaddr.vaddrStart + bitIdxStart.toNat * pgSize)

/-- The loop of `malloc_page(PF_KERNEL, ..)`. -/
def mapPages : Nat → Mmu → Nat → Option Mmu
  | 0, s, _ => some s
  | cnt + 1, s, vaddr => do
      let (s, pagePhyaddr) ← s.palloc .kernel
      let s ← s.pageTableAdd vaddr pagePhyaddr
      mapPages cnt s (vaddr + pgSize)

/-- `memset` of several pages. -/
def clearPages : Nat → Mmu → Nat → Option Mmu
  | 0, s, _ => some s
  | cnt + 1, s, vaddr => do
      let s ← s.clearPage vaddr
      clearPages cnt s (vaddr + pgSize)

/-- `get_kernel_pages`: `malloc_page(PF_KERNEL, ..)` and `memset`. -/
def getKernelPages (s : Mmu) (pgCnt : Nat) : Option (Mmu × Nat) := do
  if pgCnt > 0 ∧ pgCnt < 3840 then
    let (s, vaddr) ← s.vaddrGet pgCnt
    let s ← mapPages pgCnt s vaddr
    let s ← clearPages pgCnt s vaddr
    return (s, vaddr)
  else
    none

/-- `get_a_page_without_opvaddrbitmap`. -/
def getAPageWithoutOpvaddrbitmap (s : Mmu) (pf : PoolFlags) (vaddr : Nat) : Option Mmu := do
  let (s, pagePhyaddr) ← s.palloc pf
  s.pageTableAdd vaddr pagePhyaddr

/-- `pfree`. -/
def pfree (s : Mmu) (pgPhyAddr : Nat) : Mmu :=
  let pf : PoolFlags := if pgPhyAddr ≥ (s.pool .user).phyAddrStart then .user else .kernel
  s.setPoolBit pf ((pgPhyAddr - (s.pool pf).phyAddrStart) / pgSize) false

/-- `mfree_page(PF_KERNEL, vaddr, 1)`. -/
def mfreeKernelPage (s : Mmu) (vaddr : Nat) : Option Mmu := do
  let pgPhyAddr ← s.addrV2p vaddr
  if vaddr % pgSize = 0 ∧ pgPhyAddr % pgSize = 0 ∧ pgPhyAddr ≥ 0x102000 ∧
      (pgPhyAddr < (s.pool .user).phyAddrStart →
        pgPhyAddr ≥ (s.pool .kernel).phyAddrStart) then
    let s ← (s.pfree pgPhyAddr).pageTablePteRemove vaddr
    return { s with kernelVaddr := { s.kernelVaddr with
      vaddrBitmap := bitmapSet s.kernelVaddr.vaddrBitmap
        ((vaddr - s.kernelVaddr.vaddrStart) / pgSize) false } }
  else
    none

/-! ### Page directories -/

/-- `create_page_dir`; the frame of a new directory is that of its page. -/
def createPageDir (s : Mmu) : Option (Mmu × Nat) := do
  let (s, pageDirVaddr) ← s.getKernelPages 1
  let s ← s.memcpy (pageDirVaddr + 0x300 * 4) (0xfffff000 + 0x300 * 4) 256
  let newPageDirPhyAddr ← s.addrV2p pageDirVaddr
  let s ← s.write (pageDirVaddr + 1023 * 4) (pteOf newPageDirPhyAddr)
  return (s, pageDirVaddr)

/-- `page_dir_activate` for a task with this `pgdir`. -/
def pageDirActivate (s : Mmu) (pgdir : Option Nat) : Option Mmu :=
  match pgdir with
  | none => some { s with cr3 := 0x100000 / pgSize }
  | some vaddr => do
      let phyAddr ← s.addrV2p vaddr
      return { s with cr3 := phyAddr / pgSize }

end Mmu

/-! ### The loader -/

/-- `setup_page`: the directory is at `0x100000`. The rest of memory has any
contents. -/
def setupPage (m : Frames) : Frames := fun frame idx =>
  if frame = 0x100 then
    if idx = 0 ∨ idx = 768 then pteOf 0x101000
    else if idx = 1023 then pteOf 0x100000
    else if 769 ≤ idx ∧ idx < 769 + 254 then pteOf (0x102000 + (idx - 769) * 0x1000)
    else 0
  else if frame = 0x101 ∧ idx < 256 then
    pteOf (idx * 4096)
  else
    m frame idx

end ZyOs.Memory
