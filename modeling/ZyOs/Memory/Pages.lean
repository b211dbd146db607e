import ZyOs.Kernel.Bitmap
import ZyOs.Kernel.List

/-!
Contract: the page layer of `kernel/memory.c`: `vaddr_get`, `palloc`,
`page_table_add`, `malloc_page`, `pfree`, `page_table_pte_remove`,
`vaddr_remove`, `mfree_page` and `mem_pool_init`.

Owns:
- the two physical pools, the virtual-address bitmaps and the page tables of
  the address space that is loaded;
- the words of memory, addressed by virtual address.

A page-table entry is found by the virtual page number, as `pte_ptr` does
through the self-map; a directory entry by the upper ten bits. A call is one
step. Most callers hold the lock of the pool; `get_kernel_pages` takes none, and
`page_table_add` takes a page table from the kernel's pool under either lock:
`Memory.PoolLocks` has the same functions action by action.

Does not own: the heap that `sys_malloc` builds from pages, and the TLB:
`page_table_pte_remove` is without its `invlpg`, which `Memory.HeapTlb` adds.
-/

namespace ZyOs.Memory

open ZyOs.Lib ZyOs.Kernel

abbrev pgSize : Nat := 4096

abbrev kHeapStart : Nat := 0xc0100000

/-- `enum pool_flags`. -/
inductive PoolFlags where
  | kernel
  | user
deriving DecidableEq, Repr

/-- `struct pool`. -/
structure Pool where
  poolBitmap : Bitmap
  phyAddrStart : Nat
  poolSize : Nat

/-- `struct virtual_addr`. -/
structure VirtualAddr where
  vaddrBitmap : Bitmap
  vaddrStart : Nat

/-- The `ASSERT`s on the modelled paths; `elemFindLoop` stands for a list walk
that never ends. -/
inductive MemPanic where
  | bitmapScan
  | vaddrGetUser
  | mallocPageCnt
  | pteRepeat
  | mfreePageArg
  | mfreePagePhy
  | mfreePagePool
  | mallocElemFind
  | freeNull
  | freeHeapStart
  | freeLarge
  | freeElemFind
  | elemFindLoop
deriving DecidableEq, Repr

/-- Memory as the running task sees it. `pgdirNull` is `cur->pgdir == NULL`;
`userprogVaddr` and `uBlockDesc` are the running task's own. -/
structure MemState where
  word : Words
  pte : Nat → Nat
  pde : Nat → Nat
  kernelPool : Pool
  userPool : Pool
  kernelVaddr : VirtualAddr
  userprogVaddr : VirtualAddr
  kBlockDescs : Nat
  uBlockDesc : Nat
  pgdirNull : Bool

def MemState.pool (s : MemState) : PoolFlags → Pool
  | .kernel => s.kernelPool
  | .user => s.userPool

def MemState.setPoolBitmap (s : MemState) (pf : PoolFlags) (btmp : Bitmap) : MemState :=
  match pf with
  | .kernel => { s with kernelPool := { s.kernelPool with poolBitmap := btmp } }
  | .user => { s with userPool := { s.userPool with poolBitmap := btmp } }

def MemState.vaddr (s : MemState) : PoolFlags → VirtualAddr
  | .kernel => s.kernelVaddr
  | .user => s.userprogVaddr

def MemState.setVaddrBitmap (s : MemState) (pf : PoolFlags) (btmp : Bitmap) : MemState :=
  match pf with
  | .kernel => { s with kernelVaddr := { s.kernelVaddr with vaddrBitmap := btmp } }
  | .user => { s with userprogVaddr := { s.userprogVaddr with vaddrBitmap := btmp } }

/-- The loops that set or clear `cnt` bits in a row. -/
def bitmapSetRun (btmp : Bitmap) (start : Nat) (value : Bool) : Nat → Bitmap
  | 0 => btmp
  | cnt + 1 => bitmapSet (bitmapSetRun btmp start value cnt) (start + cnt) value

/-- `vaddr_get`; `none` is the `NULL` it returns when there is no run. -/
def vaddrGet (s : MemState) (pf : PoolFlags) (pgCnt : Nat) :
    Except MemPanic (MemState × Option Nat) :=
  match bitmapScan (s.vaddr pf).vaddrBitmap pgCnt with
  | none => .error .bitmapScan
  | some bitIdxStart =>
      if bitIdxStart = -1 then
        .ok (s, none)
      else
        let btmp := bitmapSetRun (s.vaddr pf).vaddrBitmap bitIdxStart.toNat true pgCnt
        let vaddrStart := (s.vaddr pf).vaddrStart + bitIdxStart.toNat * pgSize
        if pf = .user ∧ ¬ vaddrStart < 0xc0000000 - pgSize then
          .error .vaddrGetUser
        else
          .ok (s.setVaddrBitmap pf btmp, some vaddrStart)

/-- `palloc`. -/
def palloc (s : MemState) (pf : PoolFlags) : Except MemPanic (MemState × Option Nat) :=
  match bitmapScan (s.pool pf).poolBitmap 1 with
  | none => .error .bitmapScan
  | some bitIdx =>
      if bitIdx = -1 then
        .ok (s, none)
      else
        .ok (s.setPoolBitmap pf (bitmapSet (s.pool pf).poolBitmap bitIdx.toNat true),
          some (bitIdx.toNat * pgSize + (s.pool pf).phyAddrStart))

/-- `page_phyaddr | PG_US_U | PG_RW_W | PG_P_1`. -/
def pteOf (phyaddr : Nat) : Nat := phyaddr ||| 7

def pdeIdx (vaddr : Nat) : Nat := vaddr / 2 ^ 22

def pageOf (vaddr : Nat) : Nat := vaddr / pgSize

/-- `page_table_add`. -/
def pageTableAdd (s : MemState) (vaddr phyaddr : Nat) : Except MemPanic MemState :=
  if s.pde (pdeIdx vaddr) % 2 = 1 then
    if s.pte (pageOf vaddr) % 2 = 1 then
      .error .pteRepeat
    else
      .ok { s with pte := Function.update s.pte (pageOf vaddr) (pteOf phyaddr) }
  else do
    -- the directory entry is absent: a page of the kernel pool becomes the page table
    let (s, pdePhyaddr) ← palloc s .kernel
    let cleared := fun page => if pdeIdx (page * pgSize) = pdeIdx vaddr then 0 else s.pte page
    .ok { s with
      pde := Function.update s.pde (pdeIdx vaddr) (pteOf (pdePhyaddr.getD 0))
      pte := Function.update cleared (pageOf vaddr) (pteOf phyaddr) }

/-- The loop of `malloc_page`: whether it went through to the end. -/
def mapPages (pf : PoolFlags) : Nat → MemState → Nat → Except MemPanic (MemState × Bool)
  | 0, s, _ => .ok (s, true)
  | cnt + 1, s, vaddr =>
      match palloc s pf with
      | .error panic => .error panic
      | .ok (s, none) => .ok (s, false)
      | .ok (s, some pagePhyaddr) =>
          match pageTableAdd s vaddr pagePhyaddr with
          | .error panic => .error panic
          | .ok s => mapPages pf cnt s (vaddr + pgSize)

/-- `malloc_page`. -/
def mallocPage (s : MemState) (pf : PoolFlags) (pgCnt : Nat) :
    Except MemPanic (MemState × Option Nat) :=
  if pgCnt > 0 ∧ pgCnt < 3840 then
    match vaddrGet s pf pgCnt with
    | .error panic => .error panic
    | .ok (s, none) => .ok (s, none)
    | .ok (s, some vaddrStart) =>
        match mapPages pf pgCnt s vaddrStart with
        | .error panic => .error panic
        | .ok (s, done) => .ok (s, if done then some vaddrStart else none)
  else
    .error .mallocPageCnt

/-- `pfree`. -/
def pfree (s : MemState) (pgPhyAddr : Nat) : MemState :=
  let pf : PoolFlags := if pgPhyAddr ≥ s.userPool.phyAddrStart then .user else .kernel
  let bitIdx := (pgPhyAddr - (s.pool pf).phyAddrStart) / pgSize
  s.setPoolBitmap pf (bitmapSet (s.pool pf).poolBitmap bitIdx false)

/-- `addr_v2p`. -/
def addrV2p (s : MemState) (vaddr : Nat) : Nat :=
  s.pte (pageOf vaddr) / pgSize * pgSize + vaddr % pgSize

/-- `page_table_pte_remove`. -/
def pageTablePteRemove (s : MemState) (vaddr : Nat) : MemState :=
  { s with pte := Function.update s.pte (pageOf vaddr) (s.pte (pageOf vaddr) / 2 * 2) }

/-- `vaddr_remove`. -/
def vaddrRemove (s : MemState) (pf : PoolFlags) (vaddr pgCnt : Nat) : MemState :=
  let bitIdxStart := (vaddr - (s.vaddr pf).vaddrStart) / pgSize
  s.setVaddrBitmap pf (bitmapSetRun (s.vaddr pf).vaddrBitmap bitIdxStart false pgCnt)

/-- The loops of `mfree_page`, for pages of the user pool and of the kernel
pool: they differ in the range their `ASSERT` allows. -/
def unmapPages (inPool : Nat → Bool) : Nat → MemState → Nat → Except MemPanic MemState
  | 0, s, _ => .ok s
  | cnt + 1, s, vaddr =>
      let pgPhyAddr := addrV2p s vaddr
      if pgPhyAddr % pgSize = 0 ∧ inPool pgPhyAddr then
        unmapPages inPool cnt (pageTablePteRemove (pfree s pgPhyAddr) vaddr) (vaddr + pgSize)
      else
        .error .mfreePagePool

/-- `mfree_page`. -/
def mfreePage (s : MemState) (pf : PoolFlags) (vaddr pgCnt : Nat) : Except MemPanic MemState :=
  if pgCnt ≥ 1 ∧ vaddr % pgSize = 0 then
    let pgPhyAddr := addrV2p s vaddr
    if pgPhyAddr % pgSize = 0 ∧ pgPhyAddr ≥ 0x102000 then
      let userStart := s.userPool.phyAddrStart
      let kernelStart := s.kernelPool.phyAddrStart
      let inPool : Nat → Bool :=
        if pgPhyAddr ≥ userStart then fun phyAddr => phyAddr ≥ userStart
        else fun phyAddr => phyAddr ≥ kernelStart && phyAddr < userStart
      match unmapPages inPool pgCnt s vaddr with
      | .error panic => .error panic
      | .ok s => .ok (vaddrRemove s pf vaddr pgCnt)
    else
      .error .mfreePagePhy
  else
    .error .mfreePageArg

/-- `used_mem`: the low megabyte and the page tables. -/
def usedMem : Nat := pgSize * 256 + 0x100000

/-- `all_free_pages`, a `uint16_t`. -/
def allFreePages (allMem : Nat) : Nat :=
  (allMem + 2 ^ 32 - usedMem) % 2 ^ 32 / pgSize % 2 ^ 16

def kernelFreePages (allMem : Nat) : Nat := allFreePages allMem / 2

def userFreePages (allMem : Nat) : Nat := allFreePages allMem - kernelFreePages allMem

/-- `mem_pool_init`. The memory in which the bitmaps are placed has any
contents; `bitmap_init` clears the bytes that belong to them. -/
def memPoolInit (s : MemState) (allMem : Nat) : MemState :=
  let kbmLength := kernelFreePages allMem / 8
  let ubmLength := userFreePages allMem / 8
  { s with
    kernelPool :=
      { poolBitmap := bitmapInit { s.kernelPool.poolBitmap with btmpBytesLen := kbmLength }
        phyAddrStart := usedMem
        poolSize := kernelFreePages allMem * pgSize }
    userPool :=
      { poolBitmap := bitmapInit { s.userPool.poolBitmap with btmpBytesLen := ubmLength }
        phyAddrStart := usedMem + kernelFreePages allMem * pgSize
        poolSize := userFreePages allMem * pgSize }
    kernelVaddr :=
      { vaddrBitmap := bitmapInit { s.kernelVaddr.vaddrBitmap with btmpBytesLen := kbmLength }
        vaddrStart := kHeapStart } }

end ZyOs.Memory
