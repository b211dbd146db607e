import ZyOs.Memory.Pages
import Mathlib.Order.Interval.Set.Basic

/-!
Contract: what `malloc_page` and `mfree_page` do for the kernel: they hand out
and take back runs of pages of the kernel's heap area.

`PageInv start s used` relates a state to the one the run started from: a page
of the heap area is in `used` exactly if it was handed out since, used pages
are mapped to distinct frames of the kernel pool, and the two bitmaps differ
from those of `start` exactly by the used pages and their frames.
-/

namespace ZyOs.Memory

open ZyOs.Lib ZyOs.Kernel

/-- The address of a page of the heap area, by its bit in `kernel_vaddr`. -/
def heapAddr (page : Nat) : Nat := kHeapStart + page * pgSize

theorem pageOf_heapAddr (page : Nat) : pageOf (heapAddr page) = 0xc0100 + page := by
  simp only [pageOf, heapAddr, kHeapStart, pgSize]
  omega

theorem heapAddr_succ (page : Nat) : heapAddr page + pgSize = heapAddr (page + 1) := by
  simp only [heapAddr, pgSize]
  omega

theorem pageOf_heapAddr_inj {page other : Nat}
    (same : pageOf (heapAddr page) = pageOf (heapAddr other)) : page = other := by
  rw [pageOf_heapAddr, pageOf_heapAddr] at same
  omega

theorem heapAddr_inj {q r : Nat} (same : heapAddr q = heapAddr r) : q = r := by
  simp only [heapAddr, pgSize] at same
  omega

/-- The number of pages `kernel_vaddr` can hand out: its bits, and the one bit
after them that `bitmap_scan` looks at. -/
def heapPages (s : MemState) : Nat := 8 * s.kernelVaddr.vaddrBitmap.btmpBytesLen + 1

/-- What the boot code guarantees about the kernel's half of memory. -/
structure Layout (s : MemState) : Prop where
  phyAligned : s.kernelPool.phyAddrStart % pgSize = 0
  phyLow : 0x102000 ≤ s.kernelPool.phyAddrStart
  phyHigh : s.kernelPool.phyAddrStart + 8 * s.kernelPool.poolBitmap.btmpBytesLen * pgSize ≤
    s.userPool.phyAddrStart
  vaddrStart : s.kernelVaddr.vaddrStart = kHeapStart
  vaddrHigh : heapAddr (heapPages s) ≤ 0xffc00000
  pde : ∀ page < heapPages s, s.pde (pdeIdx (heapAddr page)) % 2 = 1
  pte : ∀ page < heapPages s, bitmapScanTest s.kernelVaddr.vaddrBitmap page = false →
    s.pte (pageOf (heapAddr page)) % 2 = 0

/-- The kernel's half at boot. `setup_page` puts its page tables into the directory;
that no page above the first megabyte is mapped is assumed of the memory that the
page tables lie in, which `setup_page` does not clear there. -/
structure KernelTables (s : MemState) : Prop where
  pde : ∀ idx, 768 ≤ idx → idx < 1023 → s.pde idx % 2 = 1
  pte : ∀ page, 0xc0100 ≤ page → page < 0xffc00 → s.pte page % 2 = 0

theorem kernelFreePages_lt (allMem : Nat) : kernelFreePages allMem < 2 ^ 15 := by
  have lt : allFreePages allMem < 2 ^ 16 := Nat.mod_lt _ (by decide)
  unfold kernelFreePages
  omega

/-- `mem_pool_init` lays the pools out, whatever the size of memory. -/
theorem memPoolInit_layout {s : MemState} (tables : KernelTables s) (allMem : Nat) :
    Layout (memPoolInit s allMem) := by
  obtain ⟨word, pte, pde, kernelPool, userPool, kernelVaddr, userprogVaddr, kBlockDescs,
    uBlockDesc, pgdirNull⟩ := s
  have pages := kernelFreePages_lt allMem
  constructor
  case phyAligned =>
    simp only [memPoolInit]
    decide
  case phyLow =>
    simp only [memPoolInit]
    decide
  case phyHigh =>
    simp only [memPoolInit, bitmapInit, pgSize]
    omega
  case vaddrStart => simp only [memPoolInit]
  case vaddrHigh =>
    simp only [memPoolInit, bitmapInit, heapPages, heapAddr, kHeapStart, pgSize]
    omega
  case pde =>
    intro page inArea
    simp only [memPoolInit, bitmapInit, heapPages] at inArea ⊢
    refine tables.pde _ ?_ ?_ <;>
    · simp only [pdeIdx, heapAddr, kHeapStart, pgSize]
      omega
  case pte =>
    intro page inArea _
    simp only [memPoolInit, bitmapInit, heapPages] at inArea ⊢
    rw [pageOf_heapAddr]
    exact tables.pte _ (by omega) (by omega)

/-- What the page functions of the kernel leave alone. -/
structure SameStatics (start s : MemState) : Prop where
  pde : s.pde = start.pde
  poolLen : s.kernelPool.poolBitmap.btmpBytesLen = start.kernelPool.poolBitmap.btmpBytesLen
  phyAddrStart : s.kernelPool.phyAddrStart = start.kernelPool.phyAddrStart
  poolSize : s.kernelPool.poolSize = start.kernelPool.poolSize
  userPool : s.userPool = start.userPool
  vaddrLen : s.kernelVaddr.vaddrBitmap.btmpBytesLen = start.kernelVaddr.vaddrBitmap.btmpBytesLen
  vaddrStart : s.kernelVaddr.vaddrStart = start.kernelVaddr.vaddrStart
  kBlockDescs : s.kBlockDescs = start.kBlockDescs
  pgdirNull : s.pgdirNull = start.pgdirNull

def frameAddr (start : MemState) (frame : Nat) : Nat :=
  start.kernelPool.phyAddrStart + frame * pgSize

/-- The part of the invariant about frames and page tables. -/
structure MapInv (start s : MemState) (used : Set Nat) (frame : Nat → Nat) : Prop where
  statics : SameStatics start s
  inArea : ∀ page ∈ used, page < heapPages start
  frameLt : ∀ page ∈ used, frame page < 8 * start.kernelPool.poolBitmap.btmpBytesLen
  frameInj : ∀ page ∈ used, ∀ other ∈ used, frame page = frame other → page = other
  frameFresh : ∀ page ∈ used,
    bitmapScanTest start.kernelPool.poolBitmap (frame page) = false
  poolBit : ∀ bit, bitmapScanTest s.kernelPool.poolBitmap bit = true ↔
    bitmapScanTest start.kernelPool.poolBitmap bit = true ∨ ∃ page ∈ used, frame page = bit
  pteUsed : ∀ page ∈ used, s.pte (pageOf (heapAddr page)) = pteOf (frameAddr start (frame page))
  pteFree : ∀ page < heapPages start, page ∉ used →
    bitmapScanTest start.kernelVaddr.vaddrBitmap page = false →
    s.pte (pageOf (heapAddr page)) % 2 = 0

/-- The pages in `used` are those handed out since `start`. -/
structure PageInv (start s : MemState) (used : Set Nat) : Prop where
  map : ∃ frame, MapInv start s used frame
  vaddrFresh : ∀ page ∈ used, bitmapScanTest start.kernelVaddr.vaddrBitmap page = false
  vaddrBit : ∀ page, bitmapScanTest s.kernelVaddr.vaddrBitmap page = true ↔
    bitmapScanTest start.kernelVaddr.vaddrBitmap page = true ∨ page ∈ used

theorem PageInv.statics {start s : MemState} {used : Set Nat} (inv : PageInv start s used) :
    SameStatics start s := by
  obtain ⟨_, map⟩ := inv.map
  exact map.statics

theorem Layout.pageInv {start : MemState} (layout : Layout start) : PageInv start start ∅ where
  map := by
    refine ⟨fun _ => 0, ?_⟩
    constructor
    case statics => exact ⟨rfl, rfl, rfl, rfl, rfl, rfl, rfl, rfl, rfl⟩
    case pteFree => exact fun page inArea _ clear => layout.pte page inArea clear
    all_goals simp
  vaddrFresh := by simp
  vaddrBit := by simp

/-! ### Page-table entries -/

theorem pteOf_eq {phyaddr : Nat} (aligned : phyaddr % pgSize = 0) : pteOf phyaddr = phyaddr + 7 := by
  have split : phyaddr = 2 ^ 12 * (phyaddr / pgSize) := by
    simp only [pgSize] at aligned ⊢
    omega
  unfold pteOf
  rw [split]
  exact (Nat.two_pow_add_eq_or_of_lt (by decide) _).symm

theorem pteOf_present (phyaddr : Nat) : pteOf phyaddr % 2 = 1 := by
  have bit : (pteOf phyaddr).testBit 0 = true := by
    simp [pteOf]
  simpa [Nat.testBit_zero] using bit

theorem Layout.frameAligned {start : MemState} (layout : Layout start) (frame : Nat) :
    frameAddr start frame % pgSize = 0 := by
  have := layout.phyAligned
  simp only [frameAddr, pgSize] at this ⊢
  omega

/-! ### Runs of bits -/

theorem bitmapSetRun_len (btmp : Bitmap) (start cnt : Nat) (value : Bool) :
    (bitmapSetRun btmp start value cnt).btmpBytesLen = btmp.btmpBytesLen := by
  induction cnt with
  | zero => rfl
  | succ cnt inductionHypothesis => simp [bitmapSetRun, inductionHypothesis]

theorem bitmapScanTest_bitmapSetRun (btmp : Bitmap) (start cnt i : Nat) (value : Bool) :
    bitmapScanTest (bitmapSetRun btmp start value cnt) i =
      if i ∈ Set.Ico start (start + cnt) then value else bitmapScanTest btmp i := by
  induction cnt with
  | zero => simp [bitmapSetRun]
  | succ cnt inductionHypothesis =>
      rw [bitmapSetRun, bitmapScanTest_bitmapSet, inductionHypothesis]
      simp only [Set.mem_Ico]
      split_ifs <;> first | rfl | omega

/-! ### Taking pages -/

/-- `palloc` takes a clear bit of the kernel pool or fails the `ASSERT` in
`bitmap_scan`. -/
theorem palloc_kernel (s : MemState) :
    palloc s .kernel = .error .bitmapScan ∨
      ∃ frame < 8 * s.kernelPool.poolBitmap.btmpBytesLen,
        bitmapScanTest s.kernelPool.poolBitmap frame = false ∧
        palloc s .kernel = .ok
          (s.setPoolBitmap .kernel (bitmapSet s.kernelPool.poolBitmap frame true),
            some (s.kernelPool.phyAddrStart + frame * pgSize)) := by
  unfold palloc
  cases scanned : bitmapScan (s.pool .kernel).poolBitmap 1 with
  | none => exact .inl rfl
  | some result =>
      rw [bitmapScan_eq] at scanned
      simp only [if_true, Option.map_eq_some_iff] at scanned
      obtain ⟨frame, first, rfl⟩ := scanned
      obtain ⟨inside, clear, _⟩ := firstClear_some first
      refine .inr ⟨frame, inside, clear, ?_⟩
      simp only [show ((frame : Int) = -1) = False by simp, if_false, Int.toNat_natCast,
        MemState.pool]
      rw [Nat.add_comm]

/-- Mapping one more page. -/
theorem MapInv.mapPage {start s : MemState} {used : Set Nat} {frame : Nat → Nat}
    (inv : MapInv start s used frame) {page bit : Nat}
    (inArea : page < heapPages start) (fresh : page ∉ used)
    (bitLt : bit < 8 * s.kernelPool.poolBitmap.btmpBytesLen)
    (clear : bitmapScanTest s.kernelPool.poolBitmap bit = false) :
    MapInv start
      { s.setPoolBitmap .kernel (bitmapSet s.kernelPool.poolBitmap bit true) with
        pte := Function.update s.pte (pageOf (heapAddr page)) (pteOf (frameAddr start bit)) }
      (insert page used) (Function.update frame page bit) := by
  have startClear : bitmapScanTest start.kernelPool.poolBitmap bit = false := by
    by_contra set
    have := (inv.poolBit bit).mpr (.inl (by simpa using set))
    rw [clear] at this
    cases this
  have notTaken : ∀ other ∈ used, frame other ≠ bit := by
    intro other mem same
    have := (inv.poolBit bit).mpr (.inr ⟨other, mem, same⟩)
    rw [clear] at this
    cases this
  have notPage : ∀ other ∈ used, other ≠ page := by
    rintro other mem rfl
    exact fresh mem
  obtain ⟨statics, area, frameLt, frameInj, frameFresh, poolBit, pteUsed, pteFree⟩ := inv
  constructor
  case statics =>
    obtain ⟨pde, poolLen, phyAddrStart, poolSize, userPool, vaddrLen, vaddrStart, descs, pgdir⟩ :=
      statics
    exact ⟨pde, poolLen, phyAddrStart, poolSize, userPool, vaddrLen, vaddrStart, descs, pgdir⟩
  case inArea =>
    rintro other (rfl | mem)
    · exact inArea
    · exact area other mem
  case frameLt =>
    rintro other (rfl | mem)
    · simpa [statics.poolLen] using bitLt
    · simpa [notPage other mem] using frameLt other mem
  case frameInj =>
    rintro first (rfl | memFirst) second (rfl | memSecond)
    · exact fun _ => rfl
    · have := notTaken second memSecond
      simp [notPage second memSecond, this.symm]
    · have := notTaken first memFirst
      simp [notPage first memFirst, this]
    · simpa [notPage first memFirst, notPage second memSecond] using
        frameInj first memFirst second memSecond
  case frameFresh =>
    rintro other (rfl | mem)
    · simpa using startClear
    · simpa [notPage other mem] using frameFresh other mem
  case poolBit =>
    intro other
    simp only [MemState.setPoolBitmap, bitmapScanTest_bitmapSet]
    by_cases isBit : other = bit
    · subst isBit
      simp
    · simp only [if_neg isBit, poolBit, Set.mem_insert_iff]
      constructor
      · rintro (set | ⟨user, mem, same⟩)
        · exact .inl set
        · exact .inr ⟨user, .inr mem, by simpa [notPage user mem] using same⟩
      · rintro (set | ⟨user, rfl | mem, same⟩)
        · exact .inl set
        · simp only [Function.update_self] at same
          exact absurd same.symm isBit
        · exact .inr ⟨user, mem, by simpa [notPage user mem] using same⟩
  case pteUsed =>
    rintro other (rfl | mem)
    · simp
    · have apart : pageOf (heapAddr other) ≠ pageOf (heapAddr page) :=
        fun same => notPage other mem (pageOf_heapAddr_inj same)
      simpa [notPage other mem, apart] using pteUsed other mem
  case pteFree =>
    intro other otherInArea notUsed otherClear
    simp only [Set.mem_insert_iff, not_or] at notUsed
    have apart : pageOf (heapAddr other) ≠ pageOf (heapAddr page) :=
      fun same => notUsed.1 (pageOf_heapAddr_inj same)
    simpa [apart] using pteFree other otherInArea notUsed.2 otherClear

/-- The loop of `malloc_page` maps every page of its run, or the pool runs out. -/
theorem MapInv.mapPages {start : MemState} (layout : Layout start) {cnt : Nat} :
    ∀ {s : MemState} {used : Set Nat} {frame : Nat → Nat} {page : Nat},
      MapInv start s used frame →
      (∀ other ∈ Set.Ico page (page + cnt), other < heapPages start ∧ other ∉ used ∧
        bitmapScanTest start.kernelVaddr.vaddrBitmap other = false) →
      Memory.mapPages .kernel cnt s (heapAddr page) = .error .bitmapScan ∨
        ∃ t frame', Memory.mapPages .kernel cnt s (heapAddr page) = .ok (t, true) ∧
          MapInv start t (used ∪ Set.Ico page (page + cnt)) frame' ∧
          t.word = s.word ∧ t.kernelVaddr = s.kernelVaddr := by
  induction cnt with
  | zero =>
      intro s used frame page inv _
      refine .inr ⟨s, frame, rfl, ?_, rfl, rfl⟩
      simpa using inv
  | succ cnt inductionHypothesis =>
      intro s used frame page inv run
      obtain ⟨inArea, fresh, startClear⟩ := run page ⟨le_refl _, by omega⟩
      unfold Memory.mapPages
      rcases palloc_kernel s with failed | ⟨bit, bitLt, clear, allocated⟩
      · exact .inl (by rw [failed])
      · have mapped := inv.mapPage inArea fresh bitLt clear
        have added : pageTableAdd
            (s.setPoolBitmap .kernel (bitmapSet s.kernelPool.poolBitmap bit true))
            (heapAddr page) (s.kernelPool.phyAddrStart + bit * pgSize) =
            .ok { s.setPoolBitmap .kernel (bitmapSet s.kernelPool.poolBitmap bit true) with
              pte := Function.update s.pte (pageOf (heapAddr page))
                (pteOf (frameAddr start bit)) } := by
          have present : s.pde (pdeIdx (heapAddr page)) % 2 = 1 := by
            rw [inv.statics.pde]
            exact layout.pde page inArea
          have absent := inv.pteFree page inArea fresh startClear
          simp [pageTableAdd, MemState.setPoolBitmap, present, absent, frameAddr,
            inv.statics.phyAddrStart]
        rw [allocated]
        simp only [added, heapAddr_succ]
        have rest : ∀ other ∈ Set.Ico (page + 1) (page + 1 + cnt), other < heapPages start ∧
            other ∉ insert page used ∧
            bitmapScanTest start.kernelVaddr.vaddrBitmap other = false := by
          intro other mem
          obtain ⟨low, high⟩ := mem
          obtain ⟨otherInArea, otherFresh, otherClear⟩ := run other ⟨by omega, by omega⟩
          refine ⟨otherInArea, ?_, otherClear⟩
          rintro (same | mem)
          · omega
          · exact otherFresh mem
        rcases inductionHypothesis mapped rest with failed | ⟨t, frame', ok, tInv, word, vaddr⟩
        · exact .inl failed
        · refine .inr ⟨t, frame', ok, ?_, word, vaddr⟩
          have sameSet : insert page used ∪ Set.Ico (page + 1) (page + 1 + cnt) =
              used ∪ Set.Ico page (page + (cnt + 1)) := by
            ext other
            simp only [Set.mem_union, Set.mem_insert_iff, Set.mem_Ico]
            constructor
            · rintro ((rfl | mem) | range)
              · exact .inr ⟨by omega, by omega⟩
              · exact .inl mem
              · exact .inr ⟨by omega, by omega⟩
            · rintro (mem | range)
              · exact .inl (.inr mem)
              · by_cases isPage : other = page
                · exact .inl (.inl isPage)
                · exact .inr ⟨by omega, by omega⟩
          rw [← sameSet]
          exact tInv

/-- What `malloc_page` does for the kernel. -/
inductive MallocPageResult (start s : MemState) (used : Set Nat) (pgCnt : Nat) :
    Except MemPanic (MemState × Option Nat) → Prop where
  | panic {panic : MemPanic} (exhausted : panic = .bitmapScan ∨ panic = .mallocPageCnt) :
      MallocPageResult start s used pgCnt (.error panic)
  | null (t : MemState) : MallocPageResult start s used pgCnt (.ok (t, none))
  | pages {t : MemState} {page : Nat} (positive : 0 < pgCnt)
      (fresh : ∀ other ∈ Set.Ico page (page + pgCnt), other ∉ used)
      (inv : PageInv start t (used ∪ Set.Ico page (page + pgCnt)))
      (word : t.word = s.word) :
      MallocPageResult start s used pgCnt (.ok (t, some (heapAddr page)))

theorem PageInv.mallocPage {start s : MemState} {used : Set Nat} (layout : Layout start)
    (inv : PageInv start s used) (pgCnt : Nat) :
    MallocPageResult start s used pgCnt (mallocPage s .kernel pgCnt) := by
  obtain ⟨frame, map⟩ := inv.map
  unfold Memory.mallocPage
  split
  · rename_i bounds
    unfold vaddrGet
    cases scanned : bitmapScan (s.vaddr .kernel).vaddrBitmap pgCnt with
    | none => exact .panic (.inl rfl)
    | some result =>
        rcases bitmapScan_spec scanned with rfl | ⟨page, rfl, upper, _, clear⟩
        · exact .null s
        · simp only [MemState.vaddr] at upper clear
          have run : ∀ other ∈ Set.Ico page (page + pgCnt), other < heapPages start ∧
              other ∉ used ∧ bitmapScanTest start.kernelVaddr.vaddrBitmap other = false := by
            intro other mem
            obtain ⟨low, high⟩ := mem
            have bitClear := clear other low high
            have notSet : ¬ (bitmapScanTest start.kernelVaddr.vaddrBitmap other = true ∨
                other ∈ used) := by
              rw [← inv.vaddrBit other, bitClear]
              simp
            rw [not_or] at notSet
            refine ⟨?_, notSet.2, by simpa using notSet.1⟩
            unfold heapPages
            rw [← map.statics.vaddrLen]
            omega
          have mapSet : MapInv start
              (s.setVaddrBitmap .kernel
                (bitmapSetRun s.kernelVaddr.vaddrBitmap page true pgCnt)) used frame := by
            obtain ⟨statics, area, frameLt, frameInj, frameFresh, poolBit, pteUsed, pteFree⟩ := map
            obtain ⟨pde, poolLen, phyAddrStart, poolSize, userPool, vaddrLen, vaddrStart, descs,
              pgdir⟩ := statics
            refine ⟨⟨pde, poolLen, phyAddrStart, poolSize, userPool, ?_, vaddrStart, descs, pgdir⟩,
              area, frameLt, frameInj, frameFresh, poolBit, pteUsed, pteFree⟩
            simp [MemState.setVaddrBitmap, bitmapSetRun_len, vaddrLen]
          have address : s.kernelVaddr.vaddrStart + page * pgSize = heapAddr page := by
            rw [map.statics.vaddrStart, layout.vaddrStart]
            rfl
          simp only [show ((page : Int) = -1) = False by simp, if_false, Int.toNat_natCast,
            MemState.vaddr, show (PoolFlags.kernel = .user) = False by simp, false_and, address]
          rcases mapSet.mapPages layout run with failed | ⟨t, frame', ok, tInv, word, vaddr⟩
          · rw [failed]
            exact .panic (.inl rfl)
          · rw [ok]
            refine .pages bounds.1 (fun other mem => (run other mem).2.1) ⟨⟨frame', tInv⟩, ?_, ?_⟩ word
            · rintro other (mem | mem)
              · exact inv.vaddrFresh other mem
              · exact (run other mem).2.2
            · intro other
              rw [vaddr]
              simp only [MemState.setVaddrBitmap, bitmapScanTest_bitmapSetRun, Set.mem_union]
              by_cases mem : other ∈ Set.Ico page (page + pgCnt)
              · simp [mem]
              · simp only [if_neg mem, inv.vaddrBit other]
                simp [mem]
  · exact .panic (.inr rfl)

/-! ### Giving pages back -/

/-- A used page translates to its frame. -/
theorem MapInv.addrV2p {start s : MemState} {used : Set Nat} {frame : Nat → Nat}
    (layout : Layout start) (inv : MapInv start s used frame) {page : Nat} (mem : page ∈ used) :
    addrV2p s (heapAddr page) = frameAddr start (frame page) := by
  have aligned := layout.frameAligned (frame page)
  unfold Memory.addrV2p
  rw [inv.pteUsed page mem, pteOf_eq aligned]
  simp only [heapAddr, kHeapStart, pgSize] at aligned ⊢
  omega

/-- The frame of a used page lies in the kernel pool. -/
theorem MapInv.frameRange {start s : MemState} {used : Set Nat} {frame : Nat → Nat}
    (layout : Layout start) (inv : MapInv start s used frame) {page : Nat} (mem : page ∈ used) :
    start.kernelPool.phyAddrStart ≤ frameAddr start (frame page) ∧
      frameAddr start (frame page) < start.userPool.phyAddrStart := by
  have lt := inv.frameLt page mem
  have high := layout.phyHigh
  simp only [frameAddr, pgSize] at high ⊢
  omega

/-- Unmapping one used page clears its frame's bit. -/
theorem MapInv.unmapPage {start s : MemState} {used : Set Nat} {frame : Nat → Nat}
    (layout : Layout start) (inv : MapInv start s used frame) {page : Nat} (mem : page ∈ used) :
    MapInv start
      (pageTablePteRemove (pfree s (frameAddr start (frame page))) (heapAddr page))
      (used \ {page}) frame := by
  obtain ⟨_, inKernel⟩ := inv.frameRange layout mem
  have freed : pfree s (frameAddr start (frame page)) =
      s.setPoolBitmap .kernel (bitmapSet s.kernelPool.poolBitmap (frame page) false) := by
    have notUser : ¬ frameAddr start (frame page) ≥ s.userPool.phyAddrStart := by
      rw [inv.statics.userPool]
      omega
    have bitIdx : (frameAddr start (frame page) - s.kernelPool.phyAddrStart) / pgSize =
        frame page := by
      rw [inv.statics.phyAddrStart]
      simp [frameAddr]
    simp [pfree, notUser, MemState.pool, bitIdx]
  rw [freed]
  have fresh := inv.frameFresh page mem
  obtain ⟨statics, area, frameLt, frameInj, frameFresh, poolBit, pteUsed, pteFree⟩ := inv
  constructor
  case statics =>
    obtain ⟨pde, poolLen, phyAddrStart, poolSize, userPool, vaddrLen, vaddrStart, descs, pgdir⟩ :=
      statics
    exact ⟨pde, poolLen, phyAddrStart, poolSize, userPool, vaddrLen, vaddrStart, descs, pgdir⟩
  case inArea => exact fun other memOther => area other memOther.1
  case frameLt => exact fun other memOther => frameLt other memOther.1
  case frameInj =>
    exact fun first memFirst second memSecond => frameInj first memFirst.1 second memSecond.1
  case frameFresh => exact fun other memOther => frameFresh other memOther.1
  case poolBit =>
    intro bit
    simp only [pageTablePteRemove, MemState.setPoolBitmap, bitmapScanTest_bitmapSet]
    by_cases isBit : bit = frame page
    · subst isBit
      simp only [if_true, Bool.false_eq_true, fresh, false_or, false_iff]
      rintro ⟨other, ⟨memOther, notPage⟩, same⟩
      exact notPage (frameInj other memOther page mem same)
    · simp only [if_neg isBit, poolBit]
      constructor
      · rintro (set | ⟨other, memOther, same⟩)
        · exact .inl set
        · refine .inr ⟨other, ⟨memOther, ?_⟩, same⟩
          rintro rfl
          exact isBit same.symm
      · rintro (set | ⟨other, memOther, same⟩)
        · exact .inl set
        · exact .inr ⟨other, memOther.1, same⟩
  case pteUsed =>
    rintro other ⟨memOther, notPage⟩
    have apart : pageOf (heapAddr other) ≠ pageOf (heapAddr page) :=
      fun same => notPage (pageOf_heapAddr_inj same)
    simpa [pageTablePteRemove, MemState.setPoolBitmap, apart] using pteUsed other memOther
  case pteFree =>
    intro other inArea notUsed clear
    by_cases isPage : other = page
    · subst isPage
      simp [pageTablePteRemove]
    · have apart : pageOf (heapAddr other) ≠ pageOf (heapAddr page) :=
        fun same => isPage (pageOf_heapAddr_inj same)
      have notBefore : other ∉ used := fun memOther => notUsed ⟨memOther, isPage⟩
      simpa [pageTablePteRemove, MemState.setPoolBitmap, apart] using
        pteFree other inArea notBefore clear

/-- The loop of `mfree_page` over a run of used pages. -/
theorem MapInv.unmapPages {start : MemState} (layout : Layout start) {frame : Nat → Nat}
    {inPool : Nat → Bool}
    (allowed : ∀ phyAddr, start.kernelPool.phyAddrStart ≤ phyAddr →
      phyAddr < start.userPool.phyAddrStart → inPool phyAddr = true) {cnt : Nat} :
    ∀ {s : MemState} {used : Set Nat} {page : Nat}, MapInv start s used frame →
      Set.Ico page (page + cnt) ⊆ used →
      ∃ t, Memory.unmapPages inPool cnt s (heapAddr page) = .ok t ∧
        MapInv start t (used \ Set.Ico page (page + cnt)) frame ∧
        t.word = s.word ∧ t.kernelVaddr = s.kernelVaddr := by
  induction cnt with
  | zero =>
      intro s used page inv _
      exact ⟨s, rfl, by simpa using inv, rfl, rfl⟩
  | succ cnt inductionHypothesis =>
      intro s used page inv run
      have mem : page ∈ used := run ⟨le_refl _, by omega⟩
      obtain ⟨low, high⟩ := inv.frameRange layout mem
      have rest : Set.Ico (page + 1) (page + 1 + cnt) ⊆ used \ {page} := by
        intro other memOther
        obtain ⟨lower, upper⟩ := memOther
        refine ⟨run ⟨by omega, by omega⟩, ?_⟩
        simp only [Set.mem_singleton_iff]
        omega
      obtain ⟨t, ok, tInv, word, vaddr⟩ := inductionHypothesis (inv.unmapPage layout mem) rest
      refine ⟨t, ?_, ?_, ?_, ?_⟩
      · unfold Memory.unmapPages
        rw [inv.addrV2p layout mem, heapAddr_succ]
        simp only [layout.frameAligned, allowed _ low high, and_self, if_true]
        exact ok
      · have sameSet : (used \ {page}) \ Set.Ico (page + 1) (page + 1 + cnt) =
            used \ Set.Ico page (page + (cnt + 1)) := by
          ext other
          simp only [Set.mem_sdiff, Set.mem_singleton_iff, Set.mem_Ico]
          constructor
          · rintro ⟨⟨memOther, notPage⟩, notRest⟩
            exact ⟨memOther, fun range => notRest ⟨by omega, by omega⟩⟩
          · rintro ⟨memOther, notRange⟩
            refine ⟨⟨memOther, fun isPage => notRange ⟨by omega, by omega⟩⟩, fun range => ?_⟩
            exact notRange ⟨by omega, by omega⟩
        rw [← sameSet]
        exact tInv
      · rw [word]
        simp [pageTablePteRemove, pfree, MemState.setPoolBitmap]
        split <;> rfl
      · rw [vaddr]
        simp [pageTablePteRemove, pfree, MemState.setPoolBitmap]
        split <;> rfl

/-- `mfree_page` of used pages never fails an `ASSERT`. -/
theorem PageInv.mfreePage {start s : MemState} {used : Set Nat} (layout : Layout start)
    (inv : PageInv start s used) {page pgCnt : Nat} (positive : 0 < pgCnt)
    (run : Set.Ico page (page + pgCnt) ⊆ used) :
    ∃ t, mfreePage s .kernel (heapAddr page) pgCnt = .ok t ∧
      PageInv start t (used \ Set.Ico page (page + pgCnt)) ∧ t.word = s.word := by
  obtain ⟨frame, map⟩ := inv.map
  have mem : page ∈ used := run ⟨le_refl _, by omega⟩
  obtain ⟨low, high⟩ := map.frameRange layout mem
  have aligned : heapAddr page % pgSize = 0 := by
    simp only [heapAddr, kHeapStart, pgSize]
    omega
  have notUser : ¬ frameAddr start (frame page) ≥ s.userPool.phyAddrStart := by
    rw [map.statics.userPool]
    omega
  have aboveTables : frameAddr start (frame page) ≥ 0x102000 := by
    have := layout.phyLow
    omega
  have allowed : ∀ phyAddr, start.kernelPool.phyAddrStart ≤ phyAddr →
      phyAddr < start.userPool.phyAddrStart →
      (decide (phyAddr ≥ s.kernelPool.phyAddrStart) &&
        decide (phyAddr < s.userPool.phyAddrStart)) = true := by
    intro phyAddr lower upper
    rw [map.statics.phyAddrStart, map.statics.userPool]
    simp [lower, upper]
  obtain ⟨t, ok, tInv, word, vaddr⟩ := map.unmapPages layout allowed run
  refine ⟨vaddrRemove t .kernel (heapAddr page) pgCnt, ?_, ?_, word⟩
  · unfold Memory.mfreePage
    rw [map.addrV2p layout mem]
    simp only [layout.frameAligned, aligned, aboveTables, notUser, and_self, if_true,
      if_false, show pgCnt ≥ 1 from positive, ok]
  · have bitIdx : (heapAddr page - t.kernelVaddr.vaddrStart) / pgSize = page := by
      rw [vaddr, map.statics.vaddrStart, layout.vaddrStart]
      simp [heapAddr]
    have removed : vaddrRemove t .kernel (heapAddr page) pgCnt =
        t.setVaddrBitmap .kernel
          (bitmapSetRun t.kernelVaddr.vaddrBitmap page false pgCnt) := by
      simp [vaddrRemove, MemState.vaddr, bitIdx]
    rw [removed]
    refine ⟨⟨frame, ?_⟩, fun other memOther => inv.vaddrFresh other memOther.1, ?_⟩
    · obtain ⟨statics, area, frameLt, frameInj, frameFresh, poolBit, pteUsed, pteFree⟩ := tInv
      obtain ⟨pde, poolLen, phyAddrStart, poolSize, userPool, vaddrLen, vaddrStart, descs,
        pgdir⟩ := statics
      refine ⟨⟨pde, poolLen, phyAddrStart, poolSize, userPool, ?_, vaddrStart, descs, pgdir⟩,
        area, frameLt, frameInj, frameFresh, poolBit, pteUsed, pteFree⟩
      simp [MemState.setVaddrBitmap, bitmapSetRun_len, vaddrLen]
    · intro other
      simp only [MemState.setVaddrBitmap, bitmapScanTest_bitmapSetRun, Set.mem_sdiff]
      by_cases memRun : other ∈ Set.Ico page (page + pgCnt)
      · have clear := inv.vaddrFresh other (run memRun)
        simp [memRun, clear]
      · rw [if_neg memRun, vaddr, inv.vaddrBit other]
        simp [memRun]

/-- Used pages are mapped. -/
theorem PageInv.present {start s : MemState} {used : Set Nat} (inv : PageInv start s used)
    {page : Nat} (mem : page ∈ used) : s.pte (pageOf (heapAddr page)) % 2 = 1 := by
  obtain ⟨frame, map⟩ := inv.map
  rw [map.pteUsed page mem]
  exact pteOf_present _

/-- With no page in use both bitmaps are what they were. -/
theorem PageInv.restored {start s : MemState} (inv : PageInv start s ∅) :
    s.kernelPool.poolBitmap = start.kernelPool.poolBitmap ∧
      s.kernelVaddr.vaddrBitmap = start.kernelVaddr.vaddrBitmap := by
  obtain ⟨frame, map⟩ := inv.map
  refine ⟨Bitmap.ext_test map.statics.poolLen fun bit => ?_,
    Bitmap.ext_test map.statics.vaddrLen fun page => ?_⟩
  · exact Bool.eq_iff_iff.mpr (by simpa using map.poolBit bit)
  · exact Bool.eq_iff_iff.mpr (by simpa using inv.vaddrBit page)

/-- The page functions do not look at the words of memory. -/
theorem PageInv.setWord {start s : MemState} {used : Set Nat} (inv : PageInv start s used)
    (word : Words) : PageInv start { s with word := word } used := by
  obtain ⟨⟨frame, statics, area, frameLt, frameInj, frameFresh, poolBit, pteUsed, pteFree⟩,
    vaddrFresh, vaddrBit⟩ := inv
  obtain ⟨pde, poolLen, phyAddrStart, poolSize, userPool, vaddrLen, vaddrStart, descs, pgdir⟩ :=
    statics
  exact ⟨⟨frame, ⟨pde, poolLen, phyAddrStart, poolSize, userPool, vaddrLen, vaddrStart, descs,
    pgdir⟩, area, frameLt, frameInj, frameFresh, poolBit, pteUsed, pteFree⟩, vaddrFresh, vaddrBit⟩

end ZyOs.Memory
