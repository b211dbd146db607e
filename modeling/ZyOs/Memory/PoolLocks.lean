import ZyOs.Lib.Interleaving
import ZyOs.Memory.PageRun

/-!
Contract: the page layer of `kernel/memory.c` as several tasks run it at the
same time. The functions are those of `Memory.Pages`, action by action: a task
switch may come between any two accesses to a bitmap, a page table or a lock.

Owns:
- the pools and `kernel_vaddr` with the locks of the pools;
- the page tables of the kernel's half, which all directories share, and each
  task's own half;
- ghost lists of what is handed out: the frames of each pool, the virtual pages
  of each half, and the regions of each heap with the frames they were given.

A lock is one action: `lock_acquire` waits until the lock is free. Which pages
`sys_malloc` asks for and `sys_free` gives back is decided by the heap; here it
is any choice, under the same lock.
-/

namespace ZyOs.Memory

open ZyOs.Lib ZyOs.Kernel

/-! ### The shared state -/

structure PoolRes where
  pool : Pool
  /-- Ghost: the bits of the frames that are handed out. -/
  frames : List Nat

/-- One half of an address space: the bitmap of its addresses and its page
tables, by virtual page. -/
structure Space where
  vaddr : VirtualAddr
  pte : Nat → Nat
  /-- Ghost: the virtual pages that are mapped for a caller. -/
  pages : List Nat
  /-- Ghost: what the heap of this half holds. -/
  regions : List Region

/-- The half that is shared is that of `none`. -/
structure PoolShared (Task : Type) where
  pool : PoolFlags → PoolRes
  lock : PoolFlags → Option Task
  space : Option Task → Space
  pde : Task → Nat → Nat
  pgdirNull : Task → Bool

/-- The bitmaps a call works on; `vaddr .user` is the running task's own. -/
inductive BitmapId where
  | pool (pf : PoolFlags)
  | vaddr (pf : PoolFlags)
deriving DecidableEq, Repr

inductive PoolLabel where
  | lockAcquire (pf : PoolFlags)
  | lockRelease (pf : PoolFlags)
  | bitmapScan (btmp : BitmapId)
  | bitmapSet (btmp : BitmapId)
  | readPde (vaddr : Nat)
  | writePde (vaddr : Nat)
  | readPte (vaddr : Nat)
  | writePte (vaddr : Nat)
  | heap
deriving DecidableEq, Repr

variable {Task : Type} [DecidableEq Task]

/-- The half a request on a pool gets its addresses from. -/
def halfOf (t : Task) : PoolFlags → Option Task
  | .kernel => none
  | .user => some t

/-- The half a virtual address lies in. -/
def halfAt (t : Task) (vaddr : Nat) : Option Task :=
  if vaddr < 0xc0000000 then some t else none

namespace PoolShared

def setPool (s : PoolShared Task) (pf : PoolFlags) (res : PoolRes) : PoolShared Task :=
  { s with pool := Function.update s.pool pf res }

def setSpace (s : PoolShared Task) (half : Option Task) (space : Space) : PoolShared Task :=
  { s with space := Function.update s.space half space }

def setLock (s : PoolShared Task) (pf : PoolFlags) (holder : Option Task) : PoolShared Task :=
  { s with lock := Function.update s.lock pf holder }

end PoolShared

/-- `bitmap_set` on a pool; a set bit is a frame handed out. -/
def PoolRes.grant (res : PoolRes) (bitIdx : Nat) : PoolRes :=
  { pool := { res.pool with poolBitmap := bitmapSet res.pool.poolBitmap bitIdx true }
    frames := bitIdx :: res.frames }

/-- `bitmap_set` on a pool, to clear a bit. -/
def PoolRes.clear (res : PoolRes) (bitIdx : Nat) : PoolRes :=
  { res with pool := { res.pool with poolBitmap := bitmapSet res.pool.poolBitmap bitIdx false } }

/-- The frame at `phyAddr` is no longer handed out. -/
def PoolRes.release (res : PoolRes) (phyAddr : Nat) : PoolRes :=
  { res with frames := res.frames.erase ((phyAddr - res.pool.phyAddrStart) / pgSize) }

def Space.setVaddrBit (space : Space) (bitIdx : Nat) (value : Bool) : Space :=
  { space with
    vaddr := { space.vaddr with vaddrBitmap := bitmapSet space.vaddr.vaddrBitmap bitIdx value } }

/-- The page-table entry of a page is written for a caller. -/
def Space.map (space : Space) (page phyaddr : Nat) : Space :=
  { space with
    pte := Function.update space.pte page (pteOf phyaddr)
    pages := page :: space.pages }

/-- The page-table entry of a page loses its P bit. -/
def Space.unmap (space : Space) (page : Nat) : Space :=
  { space with
    pte := Function.update space.pte page (space.pte page / 2 * 2)
    pages := space.pages.erase page }

/-- `memset` of the page table that holds the entry of a page. -/
def Space.clearTable (space : Space) (vaddr : Nat) : Space :=
  { space with
    pte := fun page => if pdeIdx (page * pgSize) = pdeIdx vaddr then 0 else space.pte page }

/-! ### The functions, action by action -/

abbrev PoolCode (Task α : Type) := Code (PoolShared Task) PoolLabel α

def lockAcquire (t : Task) (pf : PoolFlags) : PoolCode Task Unit :=
  .await (.lockAcquire pf) (fun s => s.lock pf = none) fun s => s.setLock pf (some t)

def lockRelease (pf : PoolFlags) : PoolCode Task Unit :=
  .write (.lockRelease pf) fun s => s.setLock pf none

/-- `palloc`. -/
def pallocCode (pf : PoolFlags) : PoolCode Task (Option Nat) := do
  let scanned ← Code.read (.bitmapScan (.pool pf)) fun s =>
    bitmapScan (s.pool pf).pool.poolBitmap 1
  match scanned with
  | none => .halt
  | some bitIdx =>
      if bitIdx = -1 then
        return none
      else
        .action (.bitmapSet (.pool pf)) (fun _ => true)
          (fun s => s.setPool pf ((s.pool pf).grant bitIdx.toNat))
          fun s => .done (some (bitIdx.toNat * pgSize + (s.pool pf).pool.phyAddrStart))

/-- `page_table_add`. -/
def pageTableAddCode (t : Task) (vaddr phyaddr : Nat) : PoolCode Task Unit := do
  let pde ← Code.read (.readPde vaddr) fun s => s.pde t (pdeIdx vaddr)
  if pde % 2 = 1 then
    let pte ← Code.read (.readPte vaddr) fun s => (s.space (halfAt t vaddr)).pte (pageOf vaddr)
    if pte % 2 = 1 then
      .halt
    else
      Code.write (.writePte vaddr) fun s => s.setSpace (halfAt t vaddr)
        ((s.space (halfAt t vaddr)).map (pageOf vaddr) phyaddr)
  else
    let pdePhyaddr ← pallocCode .kernel
    Code.write (.writePde vaddr) fun s => { s with
      pde := Function.update s.pde t
        (Function.update (s.pde t) (pdeIdx vaddr) (pteOf (pdePhyaddr.getD 0))) }
    Code.write (.writePte vaddr) fun s => s.setSpace (halfAt t vaddr)
      ((s.space (halfAt t vaddr)).clearTable vaddr)
    Code.write (.writePte vaddr) fun s => s.setSpace (halfAt t vaddr)
      ((s.space (halfAt t vaddr)).map (pageOf vaddr) phyaddr)

/-- The loop of `vaddr_get` and of `vaddr_remove`. -/
def setVaddrBits (t : Task) (pf : PoolFlags) (bitIdxStart : Nat) (value : Bool) :
    Nat → PoolCode Task Unit
  | 0 => return
  | cnt + 1 => do
      setVaddrBits t pf bitIdxStart value cnt
      Code.write (.bitmapSet (.vaddr pf)) fun s =>
        s.setSpace (halfOf t pf) ((s.space (halfOf t pf)).setVaddrBit (bitIdxStart + cnt) value)

/-- `vaddr_get`. -/
def vaddrGetCode (t : Task) (pf : PoolFlags) (pgCnt : Nat) : PoolCode Task (Option Nat) := do
  let (scanned, first) ← Code.read (.bitmapScan (.vaddr pf)) fun s =>
    (bitmapScan (s.space (halfOf t pf)).vaddr.vaddrBitmap pgCnt,
      (s.space (halfOf t pf)).vaddr.vaddrStart)
  match scanned with
  | none => .halt
  | some bitIdxStart =>
      if bitIdxStart = -1 then
        return none
      else
        setVaddrBits t pf bitIdxStart.toNat true pgCnt
        let vaddrStart := first + bitIdxStart.toNat * pgSize
        if pf = .user ∧ ¬ vaddrStart < 0xc0000000 - pgSize then
          .halt
        else
          return some vaddrStart

/-- The loop of `malloc_page`; it returns the frames, or `none` where the source
returns `NULL`. -/
def mapPagesCode (t : Task) (pf : PoolFlags) : Nat → Nat → PoolCode Task (Option (List Nat))
  | 0, _ => return some []
  | cnt + 1, vaddr => do
      match ← pallocCode pf with
      | none => return none
      | some pagePhyaddr =>
          pageTableAddCode t vaddr pagePhyaddr
          return (← mapPagesCode t pf cnt (vaddr + pgSize)).map (pagePhyaddr :: ·)

/-- `malloc_page`; the region it returns is `NULL` for `none`. -/
def mallocPageCode (t : Task) (pf : PoolFlags) (pgCnt : Nat) :
    PoolCode Task (Option Region) := do
  if pgCnt > 0 ∧ pgCnt < 3840 then
    match ← vaddrGetCode t pf pgCnt with
    | none => return none
    | some vaddrStart =>
        return (← mapPagesCode t pf pgCnt vaddrStart).map fun frames =>
          ⟨vaddrStart, pgCnt, frames⟩
  else
    .halt

/-- `pfree`, for a page that was handed out as the frame at `granted`. -/
def pfreeCode (pf : PoolFlags) (granted pgPhyAddr : Nat) : PoolCode Task Unit := do
  let userStart ← Code.read .heap fun s => (s.pool .user).pool.phyAddrStart
  let freed : PoolFlags := if pgPhyAddr ≥ userStart then .user else .kernel
  Code.write (.bitmapSet (.pool freed)) fun s =>
    let s := s.setPool freed ((s.pool freed).clear
      ((pgPhyAddr - (s.pool freed).pool.phyAddrStart) / pgSize))
    s.setPool pf ((s.pool pf).release granted)

/-- `addr_v2p`. -/
def addrV2pCode (t : Task) (vaddr : Nat) : PoolCode Task Nat :=
  Code.read (.readPte vaddr) fun s =>
    (s.space (halfAt t vaddr)).pte (pageOf vaddr) / pgSize * pgSize + vaddr % pgSize

/-- The loops of `mfree_page`, over the frames the pages were given. -/
def unmapPagesCode (t : Task) (pf : PoolFlags) (inPool : Nat → Bool) :
    List Nat → Nat → PoolCode Task Unit
  | [], _ => return
  | granted :: frames, vaddr => do
      let pgPhyAddr ← addrV2pCode t vaddr
      if pgPhyAddr % pgSize = 0 ∧ inPool pgPhyAddr then
        pfreeCode pf granted pgPhyAddr
        Code.write (.writePte vaddr) fun s => s.setSpace (halfAt t vaddr)
          ((s.space (halfAt t vaddr)).unmap (pageOf vaddr))
        unmapPagesCode t pf inPool frames (vaddr + pgSize)
      else
        .halt

/-- `mfree_page`. -/
def mfreePageCode (t : Task) (pf : PoolFlags) (r : Region) : PoolCode Task Unit := do
  if r.pgCnt ≥ 1 ∧ r.vaddr % pgSize = 0 then
    let pgPhyAddr ← addrV2pCode t r.vaddr
    let (kernelStart, userStart) ← Code.read .heap fun s =>
      ((s.pool .kernel).pool.phyAddrStart, (s.pool .user).pool.phyAddrStart)
    if pgPhyAddr % pgSize = 0 ∧ pgPhyAddr ≥ 0x102000 then
      let inPool : Nat → Bool :=
        if pgPhyAddr ≥ userStart then fun phyAddr => phyAddr ≥ userStart
        else fun phyAddr => phyAddr ≥ kernelStart && phyAddr < userStart
      unmapPagesCode t pf inPool r.frames r.vaddr
      let first ← Code.read .heap fun s => (s.space (halfOf t pf)).vaddr.vaddrStart
      setVaddrBits t pf ((r.vaddr - first) / pgSize) false r.pgCnt
    else
      .halt
  else
    .halt

/-! ### The calls -/

/-- `get_kernel_pages`. -/
def getKernelPages (t : Task) (pgCnt : Nat) : PoolCode Task Unit := do
  let _ ← mallocPageCode t .kernel pgCnt

/-- `get_user_pages`. -/
def getUserPages (t : Task) (pgCnt : Nat) : PoolCode Task Unit := do
  lockAcquire t .user
  let _ ← mallocPageCode t .user pgCnt
  lockRelease .user

/-- `get_a_page`; `bit_idx` is an `int32_t`. -/
def getAPage (t : Task) (pf : PoolFlags) (vaddr : Nat) : PoolCode Task Unit := do
  lockAcquire t pf
  let (pgdirNull, first) ← Code.read .heap fun s =>
    (s.pgdirNull t, (s.space (halfOf t pf)).vaddr.vaddrStart)
  if (pgdirNull = false ∧ pf = .user) ∨ (pgdirNull = true ∧ pf = .kernel) then
    let bitIdx := (vaddr + 2 ^ 32 - first) % 2 ^ 32 / pgSize
    if bitIdx = 0 then
      .halt
    else
      Code.write (.bitmapSet (.vaddr pf)) fun s =>
        s.setSpace (halfOf t pf) ((s.space (halfOf t pf)).setVaddrBit bitIdx true)
      match ← pallocCode pf with
      | none => return
      | some pagePhyaddr =>
          pageTableAddCode t vaddr pagePhyaddr
          lockRelease pf
  else
    .halt

/-- The pool a heap call of a task works on. -/
def poolOf (pgdirNull : Bool) : PoolFlags := if pgdirNull then .kernel else .user

/-- `sys_malloc`; `pgCnt` is what the heap asks the page layer for, `none` if a
free block serves the request. -/
def sysMallocCode (t : Task) (pgCnt : Option Nat) : PoolCode Task Unit := do
  let pgdirNull ← Code.read .heap fun s => s.pgdirNull t
  let pf := poolOf pgdirNull
  lockAcquire t pf
  match pgCnt with
  | none => lockRelease pf
  | some cnt =>
      match ← mallocPageCode t pf cnt with
      | none => lockRelease pf
      | some r =>
          Code.write .heap fun s => s.setSpace (halfOf t pf)
            { s.space (halfOf t pf) with regions := r :: (s.space (halfOf t pf)).regions }
          lockRelease pf

/-- `sys_free`; `r` is the region that becomes free with the block, if one does.
Only a region of the heap can be given back. -/
def sysFreeCode (t : Task) (r : Option Region) : PoolCode Task Unit := do
  let pgdirNull ← Code.read .heap fun s => s.pgdirNull t
  let pf := poolOf pgdirNull
  lockAcquire t pf
  match r with
  | none => lockRelease pf
  | some r =>
      Code.await .heap (fun s => r ∈ (s.space (halfOf t pf)).regions) fun s =>
        s.setSpace (halfOf t pf)
          { s.space (halfOf t pf) with regions := (s.space (halfOf t pf)).regions.erase r }
      mfreePageCode t pf r
      lockRelease pf

inductive PoolCall where
  | sysMalloc (pgCnt : Option Nat)
  | sysFree (r : Option Region)
  | getKernelPages (pgCnt : Nat)
  | getUserPages (pgCnt : Nat)
  | getAPage (pf : PoolFlags) (vaddr : Nat)

def PoolCall.code (t : Task) : PoolCall → PoolCode Task Unit
  | .sysMalloc pgCnt => sysMallocCode t pgCnt
  | .sysFree r => sysFreeCode t r
  | .getKernelPages pgCnt => Memory.getKernelPages t pgCnt
  | .getUserPages pgCnt => Memory.getUserPages t pgCnt
  | .getAPage pf vaddr => Memory.getAPage t pf vaddr

/-- A kernel thread has no bitmap of user addresses, and `get_a_page` is asked
for an address of the half its pool serves. -/
def PoolCall.WellFormed (isThread : Bool) : PoolCall → Prop
  | .getUserPages _ => isThread = false
  | .getAPage .kernel vaddr => 0xc0000000 ≤ vaddr ∧ vaddr < 0xffc00000
  | .getAPage .user vaddr => vaddr < 0xc0000000
  | _ => True

/-- The calls a task may make. -/
def IsPoolCall (isThread : Task → Bool) (t : Task) (body : PoolCode Task Unit) : Prop :=
  ∃ call : PoolCall, call.WellFormed (isThread t) ∧ body = call.code t

/-- The number of bytes `create_user_vaddr_bitmap` gives a process. -/
abbrev userBitmapLen : Nat := (0xc0000000 - 0x8048000) / pgSize / 8

/-- `mem_pool_init` has run on the page tables of the loader; the tasks, some of
them kernel threads, have not asked for memory yet. -/
structure PoolInitial (isThread : Task → Bool) (c : System Task (PoolShared Task) PoolLabel) :
    Prop where
  booted : ∃ loaded allMem, KernelTables loaded ∧
    (∀ page, 0xc0000 ≤ page → page < 0xc0100 → loaded.pte page % 2 = 1) ∧
    c.shared.pool .kernel = ⟨(memPoolInit loaded allMem).kernelPool, []⟩ ∧
    c.shared.pool .user = ⟨(memPoolInit loaded allMem).userPool, []⟩ ∧
    c.shared.space none = ⟨(memPoolInit loaded allMem).kernelVaddr, loaded.pte, [], []⟩
  locks : ∀ pf, c.shared.lock pf = none
  pde : ∀ t idx, 768 ≤ idx → idx < 1023 → c.shared.pde t idx % 2 = 1
  process : ∀ t, isThread t = false → (c.shared.space (some t)).vaddr.vaddrStart = 0x8048000 ∧
    (c.shared.space (some t)).vaddr.vaddrBitmap.btmpBytesLen = userBitmapLen
  empty : ∀ t, (c.shared.space (some t)).pages = [] ∧ (c.shared.space (some t)).regions = []
  pgdirNull : c.shared.pgdirNull = isThread
  idle : ∀ t, c.code t = .done ()

/-! ### What is asked of a run -/

/-- The lock a bitmap is under; a task's own bitmap needs none. -/
def BitmapId.lock : BitmapId → Option PoolFlags
  | .pool pf => some pf
  | .vaddr .kernel => some .kernel
  | .vaddr .user => none

/-- A task that is about to scan or to set a bitmap holds its lock. -/
def Locked (t : Task) (label : PoolLabel) (s : PoolShared Task) : Prop :=
  ∀ btmp pf, label = .bitmapScan btmp ∨ label = .bitmapSet btmp → btmp.lock = some pf →
    s.lock pf = some t

/-- Every scan and every set of a run is under its lock, and nothing is handed
out twice. -/
structure PoolsExclusive (c : System Task (PoolShared Task) PoolLabel) : Prop where
  locked : ∀ t label, (c.code t).label = some label → Locked t label c.shared
  frames : ∀ pf, (c.shared.pool pf).frames.Nodup
  kernelPages : (c.shared.space none).pages.Nodup

end ZyOs.Memory
