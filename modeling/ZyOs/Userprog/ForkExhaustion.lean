import ZyOs.Lib.Outcomes
import ZyOs.Userprog.Fork

/-!
Contract: `sys_fork` with memory that runs out: every allocation may return `NULL`, and
what comes after it is followed as it is written.

Owns:
- the calls below `sys_fork` with their `NULL`s, checked or not, over the machine, the
  task lists and the open counts;
- when `sys_fork` returns -1 and leaves everything as it was.

A `NULL` is what `palloc` and `vaddr_get` return where their bitmap has no room;
`bitmap_scan` itself stops there. `exhausted` is not in the source: it notes that one of
them has returned `NULL`.

Does not own: the kernel stack of the child.
-/

namespace ZyOs.Userprog.Exhaustion

open Kernel Lib Memory

/-! ### The state -/

/-- The machine, the task lists, and `file_table` with the open counts of its inodes. -/
structure System where
  mmu : Mmu
  intr : Bool
  readyList : List Nat
  allList : List Nat
  fdInode : Nat → Option Nat
  iOpenCnts : Nat → Nat
  exhausted : Bool

/-- The fields of `struct task_struct` that a fork reads; a task is known by the address
of its page. -/
structure Task extends Pcb where
  fdTable : List Int

/-- Why `sys_fork` does not return. -/
inductive Stop where
  | pageFault
  | assertion
deriving DecidableEq

abbrev Call := EStateM Stop System

/-- A read through the page tables. -/
def load {α : Type} (reads : Mmu → Option α) : Call α := fun s =>
  match reads s.mmu with
  | none => .error .pageFault s
  | some a => .ok a s

/-- A write through the page tables. -/
def store (writes : Mmu → Option Mmu) : Call Unit := fun s =>
  match writes s.mmu with
  | none => .error .pageFault s
  | some mmu => .ok () { s with mmu := mmu }

/-! ### The functions -/

/-- `palloc`. -/
def palloc (pf : PoolFlags) : Call (Option Nat) := fun s =>
  match firstClear (s.mmu.pool pf).poolBitmap with
  | none => .ok none { s with exhausted := true }
  | some bitIdx => .ok (some (bitIdx * pgSize + (s.mmu.pool pf).phyAddrStart))
      { s with mmu := s.mmu.setPoolBit pf bitIdx true }

/-- `vaddr_get(PF_KERNEL, ..)`. -/
def vaddrGet (pgCnt : Nat) : Call (Option Nat) := fun s =>
  match bitmapScan s.mmu.kernelVaddr.vaddrBitmap pgCnt with
  | some (.ofNat bitIdxStart) =>
      .ok (some (s.mmu.kernelVaddr.vaddrStart + bitIdxStart * pgSize))
        { s with mmu := { s.mmu with kernelVaddr := { s.mmu.kernelVaddr with
          vaddrBitmap := bitmapSetRun s.mmu.kernelVaddr.vaddrBitmap bitIdxStart true pgCnt } } }
  | _ => .ok none { s with exhausted := true }

/-- `page_table_add`; the page of a new table is not checked. -/
def pageTableAdd (vaddr phyaddr : Nat) : Call Unit := do
  let pde ← load fun m => m.read (Mmu.pdePtr vaddr)
  if present pde then
    let pte ← load fun m => m.read (Mmu.ptePtr vaddr)
    if present pte then
      throw .assertion
    else
      store fun m => m.write (Mmu.ptePtr vaddr) (pteOf phyaddr)
  else
    let pdePhyaddr ← palloc .kernel
    store fun m => m.write (Mmu.pdePtr vaddr) (pteOf (pdePhyaddr.getD 0))
    store fun m => m.clearPage (Mmu.ptePtr vaddr)
    let pte ← load fun m => m.read (Mmu.ptePtr vaddr)
    if present pte then
      throw .assertion
    else
      store fun m => m.write (Mmu.ptePtr vaddr) (pteOf phyaddr)

/-- The loop of `malloc_page(PF_KERNEL, ..)`: whether it went through to the end. -/
def mapPages : Nat → Nat → Call Bool
  | 0, _ => return true
  | cnt + 1, vaddr => do
      match ← palloc .kernel with
      | none => return false
      | some pagePhyaddr =>
          pageTableAdd vaddr pagePhyaddr
          mapPages cnt (vaddr + pgSize)

/-- `malloc_page(PF_KERNEL, ..)`. -/
def mallocPage (pgCnt : Nat) : Call (Option Nat) := do
  if pgCnt > 0 ∧ pgCnt < 3840 then
    match ← vaddrGet pgCnt with
    | none => return none
    | some vaddr =>
        let done ← mapPages pgCnt vaddr
        return if done then some vaddr else none
  else
    throw .assertion

/-- `get_kernel_pages`. -/
def getKernelPages (pgCnt : Nat) : Call (Option Nat) := do
  match ← mallocPage pgCnt with
  | none => return none
  | some vaddr =>
      store fun m => Mmu.clearPages pgCnt m vaddr
      return some vaddr

/-- `get_a_page_without_opvaddrbitmap`. -/
def getAPageWithoutOpvaddrbitmap (pf : PoolFlags) (vaddr : Nat) : Call (Option Nat) := do
  match ← palloc pf with
  | none => return none
  | some pagePhyaddr =>
      pageTableAdd vaddr pagePhyaddr
      return some vaddr

/-- `copy_pcb_vaddrbitmap_stack0`; `pid` is what `fork_pid` returns. -/
def copyPcbVaddrbitmapStack0 (pid : Nat) (parent : Task) : Call (Option Task) := do
  let child := { parent with
    pid := pid
    elapsedTicks := 0
    status := .ready
    ticks := parent.priority
    parentPid := parent.pid }
  match ← getKernelPages bitmapPgCnt with
  | none => return none
  | some vaddrBtmp =>
      store fun m => copyPages bitmapPgCnt m vaddrBtmp child.bits
      if child.name.length < 11 then
        return some { child with bits := vaddrBtmp, name := child.name ++ "_fork" }
      else
        throw .assertion

/-- `create_page_dir`. -/
def createPageDir : Call (Option Nat) := do
  match ← getKernelPages 1 with
  | none => return none
  | some pageDirVaddr =>
      store fun m => m.memcpy (pageDirVaddr + 0x300 * 4) (0xfffff000 + 0x300 * 4) 256
      let newPageDirPhyAddr ← load fun m => m.addrV2p pageDirVaddr
      store fun m => m.write (pageDirVaddr + 1023 * 4) (pteOf newPageDirPhyAddr)
      return some pageDirVaddr

/-- The copy of one page in `copy_body_stack3`; the new page is not checked. -/
def copyPage (child parent : Task) (bufPage progVaddr : Nat) : Call Unit := do
  store fun m => m.memcpy bufPage progVaddr 1024
  store fun m => m.pageDirActivate (some child.pgdir)
  let _ ← getAPageWithoutOpvaddrbitmap .user progVaddr
  store fun m => m.memcpy progVaddr bufPage 1024
  store fun m => m.pageDirActivate (some parent.pgdir)

/-- The inner loop of `copy_body_stack3`, with the bits that are left. -/
def copyBits (child parent : Task) (bufPage idxByte : Nat) : Nat → Nat → Call Unit
  | 0, _ => return ()
  | left + 1, idxBit => do
      let byte ← load fun m => readByte m (parent.bits + idxByte)
      if byte.testBit idxBit then
        copyPage child parent bufPage ((idxByte * 8 + idxBit) * pgSize + parent.vaddrStart)
        copyBits child parent bufPage idxByte left (idxBit + 1)
      else
        copyBits child parent bufPage idxByte left (idxBit + 1)

/-- The outer loop, with the bytes that are left. -/
def copyBytes (child parent : Task) (bufPage : Nat) : Nat → Nat → Call Unit
  | 0, _ => return ()
  | left + 1, idxByte => do
      let byte ← load fun m => readByte m (parent.bits + idxByte)
      if byte ≠ 0 then
        copyBits child parent bufPage idxByte 8 0
        copyBytes child parent bufPage left (idxByte + 1)
      else
        copyBytes child parent bufPage left (idxByte + 1)

/-- `copy_body_stack3`. -/
def copyBodyStack3 (child parent : Task) (bufPage : Nat) : Call Unit :=
  copyBytes child parent bufPage parent.btmpBytesLen 0

/-- One round of `update_inode_open_cnts`. -/
def updateInodeOpenCnt (globalFd : Int) : Call Unit := fun s =>
  if globalFd < 32 then
    if globalFd ≠ -1 then
      match s.fdInode globalFd.toNat with
      | none => .error .pageFault s
      | some inode => .ok () { s with
          iOpenCnts := Function.update s.iOpenCnts inode (s.iOpenCnts inode + 1) }
    else
      .ok () s
  else
    .error .assertion s

/-- `update_inode_open_cnts`. -/
def updateInodeOpenCnts (thread : Task) : Call Unit :=
  (thread.fdTable.drop 3).forM updateInodeOpenCnt

/-- `copy_process`. -/
def copyProcess (pid : Nat) (parent : Task) : Call (Option Task) := do
  match ← getKernelPages 1 with
  | none => return none
  | some bufPage =>
      match ← copyPcbVaddrbitmapStack0 pid parent with
      | none => return none
      | some child =>
          match ← createPageDir with
          | none => return none
          | some pgdir =>
              let child := { child with pgdir := pgdir }
              copyBodyStack3 child parent bufPage
              updateInodeOpenCnts child
              store fun m => m.mfreeKernelPage bufPage
              return some child

/-- The two `list_append`s. -/
def linkTask (thread : Nat) : Call Unit := fun s =>
  if thread ∈ s.readyList ∨ thread ∈ s.allList then
    .error .assertion s
  else
    .ok () { s with readyList := s.readyList ++ [thread], allList := s.allList ++ [thread] }

/-- `sys_fork`; -1 is `none`. -/
def sysFork (pid : Nat) (parent : Task) : Call (Option Nat) := do
  match ← getKernelPages 1 with
  | none => return none
  | some childThread =>
      let s ← get
      if s.intr = false ∧ parent.pgdir ≠ 0 then
        match ← copyProcess pid parent with
        | none => return none
        | some child =>
            linkTask childThread
            return some child.pid
      else
        throw .assertion

/-! ### What a failed fork may leave -/

/-- The pools, the address space of the parent, the open counts and the lists are as they
were. -/
structure Restored (s s' : System) : Prop where
  pools : ∀ pf, (s'.mmu.pool pf).poolBitmap = (s.mmu.pool pf).poolBitmap
  loaded : s'.mmu.cr3 = s.mmu.cr3
  tables : ∀ page, translatePage s'.mmu.mem s.mmu.cr3 page = translatePage s.mmu.mem s.mmu.cr3 page
  memory : ∀ page frame, translatePage s.mmu.mem s.mmu.cr3 page = some frame →
    ∀ idx, s'.mmu.mem frame idx = s.mmu.mem frame idx
  iOpenCnts : s'.iOpenCnts = s.iOpenCnts
  readyList : s'.readyList = s.readyList
  allList : s'.allList = s.allList

variable {pid : Nat} {parent : Task} {s s' : System}

/-- `sys_fork` returns -1 and leaves all this as it was. -/
def FailsCleanly (pid : Nat) (parent : Task) (s : System) : Prop :=
  ∃ s', sysFork pid parent s = .ok none s' ∧ Restored s s'

/-- An allocation of this `sys_fork` returns `NULL`. -/
def Exhausts (pid : Nat) (parent : Task) (s : System) : Prop :=
  (stateAfter (sysFork pid parent { s with exhausted := false })).exhausted = true

/-- There is no page for the task structure of a child. -/
def NoPcb (s : System) : Prop :=
  firstClear (s.mmu.pool .kernel).poolBitmap = none ∨ firstClear s.mmu.kernelVaddr.vaddrBitmap = none

/-! ### The kernel pool only fills -/

/-- What is taken of the kernel pool stays taken. -/
def Fills (s s' : System) : Prop :=
  ∀ bit, bitmapScanTest (s.mmu.pool .kernel).poolBitmap bit = true →
    bitmapScanTest (s'.mmu.pool .kernel).poolBitmap bit = true

instance : Std.Refl Fills := ⟨fun _ _ taken => taken⟩

instance : IsTrans System Fills := ⟨fun _ _ _ first second bit taken => second bit (first bit taken)⟩

theorem Fills.of_pool (same : s'.mmu.pool = s.mmu.pool) : Fills s s' := by
  intro bit taken
  rw [same]
  exact taken

/-- A write that leaves the pools alone. -/
def KeepsPool (writes : Mmu → Option Mmu) : Prop := ∀ m m', writes m = some m' → m'.pool = m.pool

theorem keepsPool_write (vaddr value : Nat) : KeepsPool fun m => m.write vaddr value := by
  intro m m' written
  obtain ⟨frame, -, written⟩ := Option.bind_eq_some_iff.mp written
  cases written
  rfl

theorem keepsPool_clearPage (vaddr : Nat) : KeepsPool fun m => m.clearPage vaddr := by
  intro m m' cleared
  obtain ⟨frame, -, cleared⟩ := Option.bind_eq_some_iff.mp cleared
  cases cleared
  rfl

theorem keepsPool_memcpy (dst src words : Nat) : KeepsPool fun m => m.memcpy dst src words := by
  intro m m' copied
  obtain ⟨srcFrame, -, copied⟩ := Option.bind_eq_some_iff.mp copied
  obtain ⟨dstFrame, -, copied⟩ := Option.bind_eq_some_iff.mp copied
  cases copied
  rfl

theorem keepsPool_clearPages {cnt : Nat} {vaddr : Nat} : KeepsPool fun m => Mmu.clearPages cnt m vaddr := by
  intro m m' cleared
  induction cnt generalizing m vaddr with
  | zero =>
      cases cleared
      rfl
  | succ cnt inductionHypothesis =>
      obtain ⟨m₁, isFirst, rest⟩ := Option.bind_eq_some_iff.mp cleared
      exact (inductionHypothesis m₁ rest).trans (keepsPool_clearPage vaddr m m₁ isFirst)

theorem keepsPool_copyPages {cnt : Nat} {dst src : Nat} : KeepsPool fun m => copyPages cnt m dst src := by
  intro m m' copied
  induction cnt generalizing m dst src with
  | zero =>
      cases copied
      rfl
  | succ cnt inductionHypothesis =>
      obtain ⟨m₁, isFirst, rest⟩ := Option.bind_eq_some_iff.mp copied
      exact (inductionHypothesis m₁ rest).trans (keepsPool_memcpy dst src 1024 m m₁ isFirst)

theorem fills_load {α : Type} (reads : Mmu → Option α) : Moves Fills (load reads) := by
  constructor
  intro s
  unfold load
  cases reads s.mmu with
  | none => exact fun _ taken => taken
  | some a => exact fun _ taken => taken

theorem fills_store {writes : Mmu → Option Mmu} (keeps : KeepsPool writes) : Moves Fills (store writes) := by
  constructor
  intro s
  unfold store
  cases written : writes s.mmu with
  | none => exact fun _ taken => taken
  | some m => exact Fills.of_pool (keeps _ _ written)

theorem fills_palloc (pf : PoolFlags) : Moves Fills (palloc pf) := by
  constructor
  intro s
  unfold palloc
  cases firstClear (s.mmu.pool pf).poolBitmap with
  | none => exact fun _ taken => taken
  | some bitIdx =>
      intro bit taken
      show bitmapScanTest (Function.update s.mmu.pool pf _ .kernel).poolBitmap bit = true
      by_cases same : PoolFlags.kernel = pf
      · rw [← same, Function.update_self]
        show bitmapScanTest (bitmapSet _ bitIdx true) bit = true
        rw [bitmapScanTest_bitmapSet]
        split
        · rfl
        · exact taken
      · rw [Function.update_of_ne same]
        exact taken

theorem fills_vaddrGet (pgCnt : Nat) : Moves Fills (vaddrGet pgCnt) := by
  constructor
  intro s
  unfold vaddrGet
  split
  · exact fun _ taken => taken
  · exact fun _ taken => taken

theorem fills_pageTableAdd (vaddr phyaddr : Nat) : Moves Fills (pageTableAdd vaddr phyaddr) := by
  have isSet : Moves Fills (do
      let pte ← load fun m => m.read (Mmu.ptePtr vaddr)
      if present pte then
        throw .assertion
      else
        store fun m => m.write (Mmu.ptePtr vaddr) (pteOf phyaddr)) :=
    (fills_load _).bind fun pte => .ite (.throw _) (fills_store (keepsPool_write _ _))
  refine (fills_load _).bind fun pde => .ite isSet ?_
  refine (fills_palloc _).bind fun pdePhyaddr => ?_
  refine (fills_store (keepsPool_write _ _)).bind fun _ => ?_
  exact (fills_store (keepsPool_clearPage _)).bind fun _ => isSet

theorem fills_mapPages {cnt : Nat} : ∀ {vaddr : Nat}, Moves Fills (mapPages cnt vaddr) := by
  induction cnt with
  | zero => exact .pure _
  | succ cnt inductionHypothesis =>
      intro vaddr
      refine (fills_palloc _).bind fun page => ?_
      cases page with
      | none => exact .pure _
      | some pagePhyaddr => exact (fills_pageTableAdd _ _).bind fun _ => inductionHypothesis

theorem fills_mallocPage (pgCnt : Nat) : Moves Fills (mallocPage pgCnt) := by
  refine .ite ((fills_vaddrGet _).bind fun vaddr => ?_) (.throw _)
  cases vaddr with
  | none => exact .pure _
  | some vaddr => exact fills_mapPages.bind fun done => .pure _

theorem fills_getKernelPages (pgCnt : Nat) : Moves Fills (getKernelPages pgCnt) := by
  refine (fills_mallocPage _).bind fun vaddr => ?_
  cases vaddr with
  | none => exact .pure _
  | some vaddr => exact (fills_store keepsPool_clearPages).bind fun _ => .pure _

theorem fills_copyPcb (pid : Nat) (parent : Task) : Moves Fills (copyPcbVaddrbitmapStack0 pid parent) := by
  refine (fills_getKernelPages _).bind fun vaddrBtmp => ?_
  cases vaddrBtmp with
  | none => exact .pure _
  | some vaddrBtmp => exact (fills_store keepsPool_copyPages).bind fun _ => .ite (.pure _) (.throw _)

theorem fills_createPageDir : Moves Fills createPageDir := by
  refine (fills_getKernelPages _).bind fun pageDirVaddr => ?_
  cases pageDirVaddr with
  | none => exact .pure _
  | some pageDirVaddr =>
      refine (fills_store (keepsPool_memcpy _ _ _)).bind fun _ => (fills_load _).bind fun phyAddr => ?_
      exact (fills_store (keepsPool_write _ _)).bind fun _ => .pure _

/-! ### One page -/

/-- The state with a kernel address taken. -/
def withVaddr (s : System) (bit : Nat) : System :=
  { s with mmu := { s.mmu with kernelVaddr := { s.mmu.kernelVaddr with
    vaddrBitmap := bitmapSetRun s.mmu.kernelVaddr.vaddrBitmap bit true 1 } } }

/-- `vaddr_get` of one page finds the first clear bit. -/
theorem vaddrGet_one (s : System) : vaddrGet 1 s = match firstClear s.mmu.kernelVaddr.vaddrBitmap with
    | none => .ok none { s with exhausted := true }
    | some bit => .ok (some (s.mmu.kernelVaddr.vaddrStart + bit * pgSize)) (withVaddr s bit) := by
  unfold vaddrGet
  rw [bitmapScan_eq]
  cases firstClear s.mmu.kernelVaddr.vaddrBitmap with
  | none => rfl
  | some bit => rfl

theorem palloc_none {pf : PoolFlags} (full : firstClear (s.mmu.pool pf).poolBitmap = none) :
    palloc pf s = .ok none { s with exhausted := true } := by
  unfold palloc
  rw [full]

theorem palloc_some {pf : PoolFlags} {bit : Nat} (found : firstClear (s.mmu.pool pf).poolBitmap = some bit) :
    palloc pf s = .ok (some (bit * pgSize + (s.mmu.pool pf).phyAddrStart))
      { s with mmu := s.mmu.setPoolBit pf bit true } := by
  unfold palloc
  rw [found]

/-- Where there is no page, the only trace is a kernel address that stays taken. -/
theorem getKernelPages_noPcb (noPcb : NoPcb s) : ∃ s', getKernelPages 1 s = .ok none s' ∧
    s'.mmu.pool = s.mmu.pool ∧ s'.mmu.mem = s.mmu.mem ∧ s'.mmu.cr3 = s.mmu.cr3 ∧
    s'.iOpenCnts = s.iOpenCnts ∧ s'.readyList = s.readyList ∧ s'.allList = s.allList := by
  have isVaddr := vaddrGet_one s
  cases found : firstClear s.mmu.kernelVaddr.vaddrBitmap with
  | none =>
      rw [found] at isVaddr
      have isNull : mallocPage 1 s = .ok none { s with exhausted := true } := bind_of_ok isVaddr
      exact ⟨_, bind_of_ok isNull, rfl, rfl, rfl, rfl, rfl, rfl⟩
  | some bit =>
      rw [found] at isVaddr
      have full : firstClear ((withVaddr s bit).mmu.pool .kernel).poolBitmap = none := by
        refine noPcb.resolve_right fun noVaddr => ?_
        rw [found] at noVaddr
        cases noVaddr
      have notMapped : ∀ vaddr, mapPages 1 vaddr (withVaddr s bit) =
          .ok false { withVaddr s bit with exhausted := true } := fun vaddr => bind_of_ok (palloc_none full)
      have isNull : mallocPage 1 s = .ok none { withVaddr s bit with exhausted := true } :=
        (bind_of_ok isVaddr).trans (bind_of_ok (notMapped _))
      exact ⟨_, bind_of_ok isNull, rfl, rfl, rfl, rfl, rfl, rfl⟩

/-- The frame of a page is taken before anything else is done with it. -/
theorem mapPages_one {vaddr bit : Nat} (isFrame : firstClear (s.mmu.pool .kernel).poolBitmap = some bit)
    {done : Bool} (isRun : mapPages 1 vaddr s = .ok done s') :
    done = true ∧ bitmapScanTest (s'.mmu.pool .kernel).poolBitmap bit = true := by
  obtain ⟨page, s₁, isPalloc, rest⟩ := bind_eq_ok isRun
  rw [palloc_some isFrame] at isPalloc
  cases isPalloc
  obtain ⟨_, s₂, isAdded, isEnd⟩ := bind_eq_ok rest
  cases isEnd
  refine ⟨rfl, (fills_pageTableAdd _ _).of_ok isAdded bit ?_⟩
  show bitmapScanTest (Function.update s.mmu.pool .kernel _ .kernel).poolBitmap bit = true
  rw [Function.update_self]
  show bitmapScanTest (bitmapSet _ bit true) bit = true
  rw [bitmapScanTest_bitmapSet, if_pos rfl]

/-- Where there is one, it is taken, and the result is not `NULL`. -/
theorem getKernelPages_one (isRoom : ¬ NoPcb s) {result : Option Nat}
    (isRun : getKernelPages 1 s = .ok result s') :
    result ≠ none ∧ ∃ bit, bitmapScanTest (s.mmu.pool .kernel).poolBitmap bit = false ∧
      bitmapScanTest (s'.mmu.pool .kernel).poolBitmap bit = true := by
  have isVaddr := vaddrGet_one s
  cases found : firstClear s.mmu.kernelVaddr.vaddrBitmap with
  | none => exact absurd (.inr found) isRoom
  | some start =>
      rw [found] at isVaddr
      cases isFrame : firstClear (s.mmu.pool .kernel).poolBitmap with
      | none => exact absurd (.inl isFrame) isRoom
      | some bit =>
          obtain ⟨vaddr, s₁, isMalloc, isCleared⟩ := bind_eq_ok isRun
          have isMapped : mallocPage 1 s = _ := bind_of_ok isVaddr
          rw [isMapped] at isMalloc
          obtain ⟨done, s₂, isMap, isDone⟩ := bind_eq_ok isMalloc
          obtain ⟨rfl, isTaken⟩ := mapPages_one (s := withVaddr s start) isFrame isMap
          cases isDone
          obtain ⟨_, s₃, isStored, isResult⟩ := bind_eq_ok isCleared
          cases isResult
          exact ⟨Option.some_ne_none _, bit, (firstClear_some isFrame).2.1,
            (fills_store keepsPool_clearPages).of_ok isStored bit isTaken⟩

/-- `copy_process` fails only before it gives anything back. -/
theorem copyProcess_none (isRun : copyProcess pid parent s = .ok none s') : Fills s s' := by
  obtain ⟨bufPage, s₁, isBuf, rest⟩ := bind_eq_ok isRun
  refine IsTrans.trans _ _ _ ((fills_getKernelPages 1).of_ok isBuf) ?_
  cases bufPage with
  | none =>
      cases rest
      exact fun _ taken => taken
  | some bufPage =>
      obtain ⟨child, s₂, isChild, rest⟩ := bind_eq_ok rest
      refine IsTrans.trans _ _ _ ((fills_copyPcb pid parent).of_ok isChild) ?_
      cases child with
      | none =>
          cases rest
          exact fun _ taken => taken
      | some child =>
          obtain ⟨pgdir, s₃, isDir, rest⟩ := bind_eq_ok rest
          refine IsTrans.trans _ _ _ (fills_createPageDir.of_ok isDir) ?_
          cases pgdir with
          | none =>
              cases rest
              exact fun _ taken => taken
          | some pgdir =>
              -- nothing behind the page directory returns -1
              obtain ⟨-, s₄, -, rest⟩ := bind_eq_ok rest
              obtain ⟨-, s₅, -, rest⟩ := bind_eq_ok rest
              obtain ⟨-, s₆, -, rest⟩ := bind_eq_ok rest
              cases rest

/-- `sys_fork` fails cleanly exactly when there is no page for the task structure. -/
theorem failsCleanly_iff : FailsCleanly pid parent s ↔ NoPcb s := by
  constructor
  · rintro ⟨s', isRun, restored⟩
    by_contra isRoom
    obtain ⟨childThread, s₁, isPcb, rest⟩ := bind_eq_ok isRun
    obtain ⟨isSome, bit, isClear, isTaken⟩ := getKernelPages_one isRoom isPcb
    have fills : Fills s₁ s' := by
      cases childThread with
      | none => exact absurd rfl isSome
      | some childThread =>
          obtain ⟨read, s₂, isRead, rest⟩ := bind_eq_ok rest
          cases isRead
          change (if _ then _ else _ : Call (Option Nat)) s₁ = .ok none s' at rest
          split at rest
          · obtain ⟨child, s₃, isCopy, rest⟩ := bind_eq_ok rest
            cases child with
            | none =>
                cases rest
                exact copyProcess_none isCopy
            | some child =>
                obtain ⟨-, s₄, -, rest⟩ := bind_eq_ok rest
                cases rest
          · cases rest
    have stillTaken := fills bit isTaken
    rw [restored.pools, isClear] at stillTaken
    cases stillTaken
  · intro noPcb
    obtain ⟨s', isNull, pools, mem, cr3, iOpenCnts, readyList, allList⟩ := getKernelPages_noPcb noPcb
    refine ⟨s', bind_of_ok isNull, fun pf => by rw [pools], cr3, fun page => by rw [mem],
      fun page frame _ idx => by rw [mem], iOpenCnts, readyList, allList⟩

/-- When an allocation of `sys_fork` returns `NULL`, it returns -1 and leaves the pools, the
parent, the open counts and the lists as they were exactly if that is the task structure's:
what was allocated before a later `NULL` is not given back. -/
theorem sys_fork_null_iff (pid : Nat) (parent : Task) (s : System) :
    (Exhausts pid parent s → FailsCleanly pid parent s) ↔ (Exhausts pid parent s → NoPcb s) :=
  imp_congr_right fun _ => failsCleanly_iff

/-! ### One page left -/

/-- A process whose directory is in the first of the 32 frames of the kernel pool; all but
the last are taken and mapped from `K_HEAP_START` on. -/
def onePageLeft : System where
  mmu :=
    { mem := fun frame idx =>
        if frame = 0x200 then
          if idx = 1023 then pteOf 0x200000
          else if 768 ≤ idx then setupPage (fun _ _ => 0) 0x100 idx
          else 0
        else if frame = 0x101 ∧ 256 ≤ idx ∧ idx < 256 + 31 then
          pteOf (0x200000 + (idx - 256) * pgSize)
        else
          setupPage (fun _ _ => 0) frame idx
      cr3 := 0x200
      pool := fun
        | .kernel => ⟨⟨4, fun idxByte => if idxByte = 3 then 0x7f else 0xff⟩, 0x200000, 32 * pgSize⟩
        | .user => ⟨⟨4, fun _ => 0⟩, 0x220000, 32 * pgSize⟩
      kernelVaddr := ⟨⟨4, fun idxByte => if idxByte = 3 then 0x7f else 0xff⟩, 0xc0100000⟩ }
  intr := false
  readyList := []
  allList := [0xc009e000, 0xc0118000]
  fdInode _ := none
  iOpenCnts _ := 0
  exhausted := false

/-- This process, with its address bitmap behind the directory. -/
def smallTask : Task where
  pid := 3
  parentPid := 1
  status := .running
  priority := 31
  ticks := 31
  elapsedTicks := 0
  name := "shell"
  pgdir := 0xc0100000
  vaddrStart := 0x8048000
  btmpBytesLen := (0xc0000000 - 0x8048000) / pgSize / 8
  bits := 0xc0101000
  fdTable := [0, 1, 2, -1, -1, -1, -1, -1]

/-- The child's structure takes the last page, and the copy buffer is `NULL`. -/
theorem sys_fork_loses_page : ¬ ∀ pid parent s, Exhausts pid parent s → FailsCleanly pid parent s := by
  intro clean
  have exhausts : Exhausts 4 smallTask onePageLeft := by
    unfold Exhausts
    decide +kernel
  have noPcb := failsCleanly_iff.mp (clean 4 smallTask onePageLeft exhausts)
  revert noPcb
  unfold NoPcb
  decide +kernel

end ZyOs.Userprog.Exhaustion
