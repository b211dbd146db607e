import ZyOs.Memory.PageInvariant
import Mathlib.Order.CompletePartialOrder

/-!
Contract: what holds in every state of a run of `malloc_page(PF_KERNEL, ..)`
and `mfree_page(PF_KERNEL, ..)` that starts after `mem_pool_init`.

A region remembers the frames its pages were given when it was handed out.
`Grants s t r` is the difference between a state `s` without the region `r` and
a state `t` with it; an allocation steps from `s` to `t` and a release from `t`
back to `s`.
-/

namespace ZyOs.Memory

open ZyOs.Lib ZyOs.Kernel

/-! ### Regions and runs -/

/-- The physical pages behind `pgCnt` pages from `vaddr` on. -/
def translation (s : MemState) (vaddr pgCnt : Nat) : List Nat :=
  (List.range pgCnt).map fun i => addrV2p s (vaddr + i * pgSize)

/-- A region `malloc_page` returned, with the physical pages it was given. -/
structure Region where
  vaddr : Nat
  pgCnt : Nat
  frames : List Nat
deriving DecidableEq, Repr

/-- The pages of a region, by their bits in `kernel_vaddr`. -/
def Region.pages (r : Region) : Set Nat :=
  Set.Ico ((r.vaddr - kHeapStart) / pgSize) ((r.vaddr - kHeapStart) / pgSize + r.pgCnt)

structure PageState where
  mem : MemState
  live : List Region

def livePages (live : List Region) : Set Nat := { page | ∃ r ∈ live, page ∈ r.pages }

/-- The calls of a run: each succeeds, and the run of bits an allocation finds
lies inside the bitmap. -/
inductive PageStep : PageState → PageState → Prop where
  | malloc {s : PageState} {pgCnt vaddr : Nat} {t : MemState}
      (ok : mallocPage s.mem .kernel pgCnt = .ok (t, some vaddr))
      (inside : vaddr + pgCnt * pgSize ≤
        heapAddr (8 * s.mem.kernelVaddr.vaddrBitmap.btmpBytesLen)) :
      PageStep s ⟨t, ⟨vaddr, pgCnt, translation t vaddr pgCnt⟩ :: s.live⟩
  | mfree {s : PageState} {r : Region} {t : MemState} (isLive : r ∈ s.live)
      (ok : mfreePage s.mem .kernel r.vaddr r.pgCnt = .ok t) :
      PageStep s ⟨t, s.live.erase r⟩

/-- `mem_pool_init` has run on the page tables the loader built. -/
def PageInitial (start : PageState) : Prop :=
  ∃ s allMem, KernelTables s ∧ start = ⟨memPoolInit s allMem, []⟩

def PageReachable (start s : PageState) : Prop :=
  PageInitial start ∧ Relation.ReflTransGen PageStep start s

/-! ### What a region adds -/

structure Grants (s t : MemState) (r : Region) : Prop where
  vaddrFresh : ∀ page ∈ r.pages, bitmapScanTest s.kernelVaddr.vaddrBitmap page = false
  vaddrBit : ∀ page, bitmapScanTest t.kernelVaddr.vaddrBitmap page = true ↔
    bitmapScanTest s.kernelVaddr.vaddrBitmap page = true ∨ page ∈ r.pages
  poolFresh : ∀ bit, s.kernelPool.phyAddrStart + bit * pgSize ∈ r.frames →
    bitmapScanTest s.kernelPool.poolBitmap bit = false
  poolBit : ∀ bit, bitmapScanTest t.kernelPool.poolBitmap bit = true ↔
    bitmapScanTest s.kernelPool.poolBitmap bit = true ∨
      s.kernelPool.phyAddrStart + bit * pgSize ∈ r.frames
  frames : translation t r.vaddr r.pgCnt = r.frames
  present : ∀ page ∈ r.pages, t.pte (pageOf (heapAddr page)) % 2 = 1
  absent : ∀ page ∈ r.pages, s.pte (pageOf (heapAddr page)) % 2 = 0
  otherPte : ∀ vpage, (∀ page ∈ r.pages, vpage ≠ pageOf (heapAddr page)) →
    t.pte vpage = s.pte vpage

/-! ### Page tables outside a run of pages -/

/-- Mapping a run leaves every other entry of the page tables alone. -/
theorem mapPages_pte {start : MemState} (layout : Layout start) {cnt : Nat} :
    ∀ {s t : MemState} {page : Nat} {done : Bool}, s.pde = start.pde →
      page + cnt ≤ heapPages start →
      mapPages .kernel cnt s (heapAddr page) = .ok (t, done) →
      ∀ vpage, (∀ other ∈ Set.Ico page (page + cnt), vpage ≠ pageOf (heapAddr other)) →
        t.pte vpage = s.pte vpage := by
  induction cnt with
  | zero =>
      intro s t page done _ _ ok vpage _
      cases ok
      rfl
  | succ cnt inductionHypothesis =>
      intro s t page done pde inArea ok vpage outside
      have notFirst : vpage ≠ pageOf (heapAddr page) := outside page ⟨le_refl _, by omega⟩
      have present : s.pde (pdeIdx (heapAddr page)) % 2 = 1 := by
        rw [pde]
        exact layout.pde page (by omega)
      unfold mapPages at ok
      rcases palloc_kernel s with failed | ⟨bit, _, _, allocated⟩
      · rw [failed] at ok
        cases ok
      · rw [allocated] at ok
        simp only [pageTableAdd, MemState.setPoolBitmap, present, if_true, heapAddr_succ] at ok
        by_cases repeated : s.pte (pageOf (heapAddr page)) % 2 = 1
        · simp only [repeated, if_true] at ok
          cases ok
        · simp only [repeated, if_false] at ok
          have rest : ∀ other ∈ Set.Ico (page + 1) (page + 1 + cnt),
              vpage ≠ pageOf (heapAddr other) := by
            rintro other ⟨low, high⟩
            exact outside other ⟨by omega, by omega⟩
          exact (inductionHypothesis (by exact pde) (by omega) ok vpage rest).trans
            (Function.update_of_ne notFirst _ _)

theorem pfree_pte (s : MemState) (phyAddr : Nat) : (pfree s phyAddr).pte = s.pte := by
  simp only [pfree, MemState.setPoolBitmap]
  split <;> rfl

/-- Unmapping a run leaves every other entry alone, too. -/
theorem unmapPages_pte {inPool : Nat → Bool} {cnt : Nat} :
    ∀ {s t : MemState} {page : Nat}, unmapPages inPool cnt s (heapAddr page) = .ok t →
      ∀ vpage, (∀ other ∈ Set.Ico page (page + cnt), vpage ≠ pageOf (heapAddr other)) →
        t.pte vpage = s.pte vpage := by
  induction cnt with
  | zero =>
      intro s t page ok vpage _
      cases ok
      rfl
  | succ cnt inductionHypothesis =>
      intro s t page ok vpage outside
      have notFirst : vpage ≠ pageOf (heapAddr page) := outside page ⟨le_refl _, by omega⟩
      have rest : ∀ other ∈ Set.Ico (page + 1) (page + 1 + cnt),
          vpage ≠ pageOf (heapAddr other) := by
        rintro other ⟨low, high⟩
        exact outside other ⟨by omega, by omega⟩
      simp only [unmapPages, heapAddr_succ] at ok
      split at ok
      · rw [inductionHypothesis ok vpage rest]
        simp only [pageTablePteRemove]
        rw [Function.update_of_ne notFirst, pfree_pte]
      · cases ok

theorem mallocPage_pte {start s t : MemState} {used : Set Nat} (layout : Layout start)
    (inv : PageInv start s used) {page pgCnt : Nat}
    (ok : mallocPage s .kernel pgCnt = .ok (t, some (heapAddr page))) (vpage : Nat)
    (outside : ∀ other ∈ Set.Ico page (page + pgCnt), vpage ≠ pageOf (heapAddr other)) :
    t.pte vpage = s.pte vpage := by
  simp only [mallocPage, vaddrGet, MemState.vaddr] at ok
  split at ok
  · cases scanned : bitmapScan s.kernelVaddr.vaddrBitmap pgCnt with
    | none => simp [scanned] at ok
    | some result =>
        rcases bitmapScan_spec scanned with rfl | ⟨first, rfl, upper, _, _⟩
        · simp [scanned] at ok
        · have address : s.kernelVaddr.vaddrStart + first * pgSize = heapAddr first := by
            rw [inv.statics.vaddrStart, layout.vaddrStart]
            rfl
          have inArea : first + pgCnt ≤ heapPages start := by
            rw [heapPages, ← inv.statics.vaddrLen]
            exact upper
          simp only [scanned, show ((first : Int) = -1) = False by simp, if_false,
            Int.toNat_natCast, show (PoolFlags.kernel = .user) = False by simp, false_and,
            address] at ok
          split at ok
          · cases ok
          · rename_i done mapped
            cases done with
            | false => simp at ok
            | true =>
                simp only [if_true, Except.ok.injEq, Prod.mk.injEq, Option.some.injEq] at ok
                obtain ⟨rfl, same⟩ := ok
                obtain rfl := heapAddr_inj same
                exact mapPages_pte layout (by exact inv.statics.pde) inArea mapped vpage outside
  · cases ok

theorem mfreePage_pte {s t : MemState} {page pgCnt : Nat}
    (ok : mfreePage s .kernel (heapAddr page) pgCnt = .ok t) (vpage : Nat)
    (outside : ∀ other ∈ Set.Ico page (page + pgCnt), vpage ≠ pageOf (heapAddr other)) :
    t.pte vpage = s.pte vpage := by
  simp only [mfreePage] at ok
  split at ok
  · split at ok
    · split at ok
      · cases ok
      · rename_i unmapped
        cases ok
        exact unmapPages_pte unmapped vpage outside
    · cases ok
  · cases ok

/-! ### Allocation and release add and remove a region -/

theorem addrV2p_congr {s t : MemState} {vaddr : Nat}
    (same : t.pte (pageOf vaddr) = s.pte (pageOf vaddr)) : addrV2p t vaddr = addrV2p s vaddr := by
  simp only [addrV2p, same]

theorem mem_translation {s : MemState} {page pgCnt phyAddr : Nat} :
    phyAddr ∈ translation s (heapAddr page) pgCnt ↔
      ∃ other ∈ Set.Ico page (page + pgCnt), addrV2p s (heapAddr other) = phyAddr := by
  have address : ∀ i, heapAddr page + i * pgSize = heapAddr (page + i) := by
    intro i
    simp only [heapAddr, pgSize]
    omega
  simp only [translation, List.mem_map, List.mem_range, address]
  constructor
  · rintro ⟨i, inside, same⟩
    exact ⟨page + i, ⟨by omega, by omega⟩, same⟩
  · rintro ⟨other, ⟨low, high⟩, same⟩
    refine ⟨other - page, by omega, ?_⟩
    rw [show page + (other - page) = other by omega]
    exact same

theorem translation_congr {s t : MemState} {page pgCnt : Nat}
    (same : ∀ other ∈ Set.Ico page (page + pgCnt),
      t.pte (pageOf (heapAddr other)) = s.pte (pageOf (heapAddr other))) :
    translation t (heapAddr page) pgCnt = translation s (heapAddr page) pgCnt := by
  refine List.map_congr_left fun i mem => addrV2p_congr ?_
  have address : heapAddr page + i * pgSize = heapAddr (page + i) := by
    simp only [heapAddr, pgSize]
    omega
  rw [address]
  exact same _ ⟨by omega, by have := List.mem_range.mp mem; omega⟩

theorem Region.pages_eq (page pgCnt : Nat) (frames : List Nat) :
    (Region.mk (heapAddr page) pgCnt frames).pages = Set.Ico page (page + pgCnt) := by
  have bit : (heapAddr page - kHeapStart) / pgSize = page := by
    simp [heapAddr]
  simp only [Region.pages, bit]

theorem frameAddr_inj {start : MemState} {frame other : Nat}
    (same : frameAddr start frame = frameAddr start other) : frame = other := by
  simp only [frameAddr, pgSize] at same
  omega

/-- The bits of the kernel pool, read off the page tables. -/
theorem PageInv.poolBit {start s : MemState} {used : Set Nat} (layout : Layout start)
    (inv : PageInv start s used) (bit : Nat) :
    bitmapScanTest s.kernelPool.poolBitmap bit = true ↔
      bitmapScanTest start.kernelPool.poolBitmap bit = true ∨
        ∃ page ∈ used, addrV2p s (heapAddr page) = frameAddr start bit := by
  obtain ⟨frame, map⟩ := inv.map
  rw [map.poolBit bit]
  refine or_congr_right (exists_congr fun page => and_congr_right fun mem => ?_)
  rw [map.addrV2p layout mem]
  exact ⟨fun same => by rw [same], frameAddr_inj⟩

/-- A physical page that a used page translates to was free at the start. -/
theorem PageInv.frameFresh {start s : MemState} {used : Set Nat} (layout : Layout start)
    (inv : PageInv start s used) {page bit : Nat} (mem : page ∈ used)
    (same : addrV2p s (heapAddr page) = frameAddr start bit) :
    bitmapScanTest start.kernelPool.poolBitmap bit = false := by
  obtain ⟨frame, map⟩ := inv.map
  rw [map.addrV2p layout mem] at same
  rw [← frameAddr_inj same]
  exact map.frameFresh page mem

/-- Used pages translatePage to different physical pages. -/
theorem PageInv.addrV2p_inj {start s : MemState} {used : Set Nat} (layout : Layout start)
    (inv : PageInv start s used) :
    Set.InjOn (fun page => addrV2p s (heapAddr page)) used := by
  obtain ⟨frame, map⟩ := inv.map
  intro page mem other memOther same
  simp only [map.addrV2p layout mem, map.addrV2p layout memOther] at same
  exact map.frameInj page mem other memOther (frameAddr_inj same)

/-- Two states whose used pages differ by a run, and whose page tables agree
elsewhere, differ by the region. -/
theorem PageInv.grants {start s t : MemState} {used : Set Nat} (layout : Layout start)
    {page pgCnt : Nat} (without : PageInv start s used)
    (having : PageInv start t (used ∪ Set.Ico page (page + pgCnt)))
    (fresh : ∀ other ∈ Set.Ico page (page + pgCnt), other ∉ used)
    (outside : ∀ vpage, (∀ other ∈ Set.Ico page (page + pgCnt), vpage ≠ pageOf (heapAddr other)) →
      t.pte vpage = s.pte vpage) :
    Grants s t ⟨heapAddr page, pgCnt, translation t (heapAddr page) pgCnt⟩ := by
  have keeps : ∀ other ∈ used, addrV2p t (heapAddr other) = addrV2p s (heapAddr other) := by
    intro other mem
    refine addrV2p_congr (outside _ fun new memNew same => ?_)
    exact fresh new memNew (pageOf_heapAddr_inj same ▸ mem)
  have phyAddrStart : s.kernelPool.phyAddrStart = start.kernelPool.phyAddrStart :=
    without.statics.phyAddrStart
  have startClear : ∀ other ∈ Set.Ico page (page + pgCnt),
      bitmapScanTest start.kernelVaddr.vaddrBitmap other = false :=
    fun other mem => having.vaddrFresh other (.inr mem)
  constructor
  case vaddrFresh =>
    rw [Region.pages_eq]
    intro other mem
    have notSet := (without.vaddrBit other).not.mpr (by simp [startClear other mem, fresh other mem])
    simpa using notSet
  case vaddrBit =>
    rw [Region.pages_eq]
    intro other
    rw [having.vaddrBit, without.vaddrBit, Set.mem_union, or_assoc]
  case poolFresh =>
    intro bit granted
    obtain ⟨new, memNew, same⟩ := mem_translation.mp granted
    rw [phyAddrStart] at same
    have notSet : ¬ bitmapScanTest s.kernelPool.poolBitmap bit = true := by
      rw [without.poolBit layout bit]
      rintro (set | ⟨other, mem, taken⟩)
      · rw [having.frameFresh layout (.inr memNew) same] at set
        cases set
      · rw [← keeps other mem] at taken
        have eq := having.addrV2p_inj layout (.inl mem) (.inr memNew) (taken.trans same.symm)
        exact fresh new memNew (eq ▸ mem)
    simpa using notSet
  case poolBit =>
    intro bit
    rw [having.poolBit layout bit, without.poolBit layout bit, mem_translation, phyAddrStart]
    constructor
    · rintro (set | ⟨other, mem | mem, same⟩)
      · exact .inl (.inl set)
      · exact .inl (.inr ⟨other, mem, (keeps other mem).symm.trans same⟩)
      · exact .inr ⟨other, mem, same⟩
    · rintro ((set | ⟨other, mem, same⟩) | ⟨other, mem, same⟩)
      · exact .inl set
      · exact .inr ⟨other, .inl mem, (keeps other mem).trans same⟩
      · exact .inr ⟨other, .inr mem, same⟩
  case frames => rfl
  case present =>
    rw [Region.pages_eq]
    exact fun other mem => having.present (.inr mem)
  case absent =>
    rw [Region.pages_eq]
    intro other mem
    obtain ⟨_, havingMap⟩ := having.map
    obtain ⟨_, withoutMap⟩ := without.map
    exact withoutMap.pteFree other (havingMap.inArea other (.inr mem)) (fresh other mem)
      (startClear other mem)
  case otherPte =>
    rw [Region.pages_eq]
    exact outside

/-! ### Runs -/

/-- What holds of every state of a run that started at `start`. -/
structure RegionInv (start s : MemState) (live : List Region) : Prop where
  pages : PageInv start s (livePages live)
  apart : live.Pairwise fun r r' => Disjoint r.pages r'.pages
  region : ∀ r ∈ live, ∃ page, r.vaddr = heapAddr page ∧ 0 < r.pgCnt ∧
    page + r.pgCnt ≤ 8 * start.kernelVaddr.vaddrBitmap.btmpBytesLen
  frames : ∀ r ∈ live, translation s r.vaddr r.pgCnt = r.frames

theorem livePages_nil : livePages [] = ∅ := by
  simp [livePages]

theorem livePages_cons (r : Region) (live : List Region) :
    livePages (r :: live) = livePages live ∪ r.pages := by
  ext page
  simp [livePages, or_comm]

section

variable {start s t : MemState} {live : List Region}

theorem RegionInv.pages_region (inv : RegionInv start s live) {r : Region} (isLive : r ∈ live) :
    ∃ page, r.vaddr = heapAddr page ∧ 0 < r.pgCnt ∧ r.pages = Set.Ico page (page + r.pgCnt) := by
  obtain ⟨page, vaddr, positive, _⟩ := inv.region r isLive
  refine ⟨page, vaddr, positive, ?_⟩
  rw [← Region.pages_eq page r.pgCnt r.frames, ← vaddr]

theorem RegionInv.nodup (inv : RegionInv start s live) : live.Nodup := by
  refine inv.apart.imp_of_mem ?_
  rintro r r' isLive _ disjoint rfl
  obtain ⟨page, _, positive, pages⟩ := inv.pages_region isLive
  have mem : page ∈ r.pages := by
    rw [pages]
    exact ⟨le_refl _, by omega⟩
  exact Set.disjoint_left.mp disjoint mem mem

theorem RegionInv.disjoint (inv : RegionInv start s live) {r r' : Region} (isLive : r ∈ live)
    (isLive' : r' ∈ live) (ne : r ≠ r') : Disjoint r.pages r'.pages := by
  have : Std.Symm fun r r' : Region => Disjoint r.pages r'.pages :=
    ⟨fun _ _ disjoint => disjoint.symm⟩
  exact inv.apart.forall isLive isLive' ne

theorem RegionInv.livePages_erase (inv : RegionInv start s live) {r : Region} (isLive : r ∈ live) :
    livePages (live.erase r) = livePages live \ r.pages := by
  ext page
  constructor
  · rintro ⟨other, mem, inOther⟩
    obtain ⟨ne, memLive⟩ := inv.nodup.mem_erase_iff.mp mem
    exact ⟨⟨other, memLive, inOther⟩,
      Set.disjoint_left.mp (inv.disjoint memLive isLive ne) inOther⟩
  · rintro ⟨⟨other, mem, inOther⟩, notIn⟩
    refine ⟨other, inv.nodup.mem_erase_iff.mpr ⟨?_, mem⟩, inOther⟩
    rintro rfl
    exact notIn inOther

/-- Regions keep their frames while the page tables change elsewhere. -/
theorem RegionInv.frames_congr (inv : RegionInv start s live) {r : Region} (isLive : r ∈ live)
    (same : ∀ page ∈ r.pages, t.pte (pageOf (heapAddr page)) = s.pte (pageOf (heapAddr page))) :
    translation t r.vaddr r.pgCnt = r.frames := by
  obtain ⟨page, vaddr, _, pages⟩ := inv.pages_region isLive
  rw [← inv.frames r isLive, vaddr]
  rw [pages] at same
  exact translation_congr same

/-- What a successful `malloc_page` does to the state of a run. -/
theorem RegionInv.mallocPage (layout : Layout start) (inv : RegionInv start s live)
    {pgCnt vaddr : Nat} (ok : mallocPage s .kernel pgCnt = .ok (t, some vaddr)) :
    ∃ page, vaddr = heapAddr page ∧ 0 < pgCnt ∧
      (∀ other ∈ Set.Ico page (page + pgCnt), other ∉ livePages live) ∧
      PageInv start t (livePages live ∪ Set.Ico page (page + pgCnt)) ∧
      Grants s t ⟨vaddr, pgCnt, translation t vaddr pgCnt⟩ := by
  have result := inv.pages.mallocPage layout pgCnt
  rw [ok] at result
  cases result with
  | pages positive fresh after _ =>
      exact ⟨_, rfl, positive, fresh, after, inv.pages.grants layout after fresh
        (mallocPage_pte layout inv.pages ok)⟩

/-- `mfree_page` of a live region succeeds and takes the region away. -/
theorem RegionInv.mfreePage (layout : Layout start) (inv : RegionInv start s live) {r : Region}
    (isLive : r ∈ live) :
    ∃ t, mfreePage s .kernel r.vaddr r.pgCnt = .ok t ∧
      PageInv start t (livePages (live.erase r)) ∧ Grants t s r := by
  obtain ⟨page, vaddr, positive, pages⟩ := inv.pages_region isLive
  have run : Set.Ico page (page + r.pgCnt) ⊆ livePages live := by
    rw [← pages]
    exact fun other mem => ⟨r, isLive, mem⟩
  obtain ⟨t, ok, after, _⟩ := inv.pages.mfreePage layout positive run
  rw [← vaddr] at ok
  have grants := PageInv.grants layout after
    (by rw [Set.sdiff_union_of_subset run]; exact inv.pages) (fun other mem => fun diff => diff.2 mem)
    (fun vpage outside => (mfreePage_pte (by rw [← vaddr]; exact ok) vpage outside).symm)
  rw [← vaddr, inv.frames r isLive] at grants
  refine ⟨t, ok, ?_, grants⟩
  rw [inv.livePages_erase isLive, pages]
  exact after

end

theorem PageStep.regionInv {start : MemState} (layout : Layout start) {s t : PageState}
    (inv : RegionInv start s.mem s.live) (step : PageStep s t) :
    RegionInv start t.mem t.live := by
  cases step with
  | malloc ok inside =>
      rename_i pgCnt vaddr t
      obtain ⟨page, rfl, positive, fresh, after, grants⟩ := inv.mallocPage layout ok
      have newPages := Region.pages_eq page pgCnt (translation t (heapAddr page) pgCnt)
      constructor
      case pages =>
        rw [livePages_cons, newPages]
        exact after
      case apart =>
        refine List.pairwise_cons.mpr ⟨fun r isLive => ?_, inv.apart⟩
        rw [newPages]
        exact Set.disjoint_left.mpr fun other mem inR => fresh other mem ⟨r, isLive, inR⟩
      case region =>
        rintro r (_ | ⟨_, isLive⟩)
        · rw [inv.pages.statics.vaddrLen] at inside
          simp only [heapAddr, pgSize] at inside
          have bound : page + pgCnt ≤ 8 * start.kernelVaddr.vaddrBitmap.btmpBytesLen := by
            omega
          exact ⟨page, rfl, positive, bound⟩
        · exact inv.region r isLive
      case frames =>
        rintro r (_ | ⟨_, isLive⟩)
        · rfl
        · refine inv.frames_congr isLive fun other inR => grants.otherPte _ ?_
          rw [newPages]
          intro new memNew same
          exact fresh new memNew ⟨r, isLive, pageOf_heapAddr_inj same ▸ inR⟩
  | mfree isLive ok =>
      rename_i r t
      obtain ⟨t', ok', after, grants⟩ := inv.mfreePage layout isLive
      rw [ok] at ok'
      cases ok'
      constructor
      case pages => exact after
      case apart => exact inv.apart.sublist List.erase_sublist
      case region => exact fun r' mem => inv.region r' (List.mem_of_mem_erase mem)
      case frames =>
        intro r' mem
        obtain ⟨ne, isLive'⟩ := inv.nodup.mem_erase_iff.mp mem
        refine inv.frames_congr isLive' fun other inR => (grants.otherPte _ ?_).symm
        intro page inPages same
        have disjoint := inv.disjoint isLive' isLive ne
        exact Set.disjoint_left.mp disjoint inR (pageOf_heapAddr_inj same ▸ inPages)

theorem PageReachable.regionInv {start s : PageState} (reachable : PageReachable start s) :
    Layout start.mem ∧ RegionInv start.mem s.mem s.live := by
  obtain ⟨⟨loaded, allMem, tables, rfl⟩, run⟩ := reachable
  have layout := memPoolInit_layout tables allMem
  refine ⟨layout, ?_⟩
  induction run with
  | refl =>
      constructor
      case pages =>
        rw [livePages_nil]
        exact layout.pageInv
      all_goals simp
  | tail _ step inductionHypothesis => exact step.regionInv layout inductionHypothesis

/-! ### Safety -/

/-- The virtual bitmap, the physical bitmap and the page tables agree on the
live regions. -/
structure PagesSafe (s : PageState) : Prop where
  disjoint : s.live.Pairwise fun r r' => Disjoint r.pages r'.pages
  injective : Set.InjOn (fun page => addrV2p s.mem (heapAddr page)) (livePages s.live)
  image : (fun page => addrV2p s.mem (heapAddr page)) '' livePages s.live =
    { phyAddr | ∃ bit < 8 * s.mem.kernelPool.poolBitmap.btmpBytesLen,
      bitmapScanTest s.mem.kernelPool.poolBitmap bit = true ∧
        phyAddr = s.mem.kernelPool.phyAddrStart + bit * pgSize }
  notUser : ∀ page ∈ livePages s.live,
    addrV2p s.mem (heapAddr page) < s.mem.userPool.phyAddrStart
  vaddr : { page | page < 8 * s.mem.kernelVaddr.vaddrBitmap.btmpBytesLen ∧
    bitmapScanTest s.mem.kernelVaddr.vaddrBitmap page = true } = livePages s.live
  absent : ∀ page < 8 * s.mem.kernelVaddr.vaddrBitmap.btmpBytesLen, page ∉ livePages s.live →
    s.mem.pte (pageOf (heapAddr page)) % 2 = 0
  -- only a full bitmap or a page count that is out of range can stop a call
  mallocAsserts : ∀ pgCnt panic, mallocPage s.mem .kernel pgCnt = .error panic →
    panic = .bitmapScan ∨ panic = .mallocPageCnt ∧ ¬ (0 < pgCnt ∧ pgCnt < 3840)
  mfreeAsserts : ∀ r ∈ s.live, ∃ t, mfreePage s.mem .kernel r.vaddr r.pgCnt = .ok t
  allocates : ∀ pgCnt vaddr t, mallocPage s.mem .kernel pgCnt = .ok (t, some vaddr) →
    Grants s.mem t ⟨vaddr, pgCnt, translation t vaddr pgCnt⟩
  undoes : ∀ r ∈ s.live, ∀ t, mfreePage s.mem .kernel r.vaddr r.pgCnt = .ok t →
    Grants t s.mem r

theorem palloc_error {s : MemState} {pf : PoolFlags} {panic : MemPanic}
    (failed : palloc s pf = .error panic) : panic = .bitmapScan := by
  unfold palloc at failed
  split at failed
  · cases failed
    rfl
  · split at failed <;> cases failed

theorem pageTableAdd_error {s : MemState} {vaddr phyaddr : Nat} {panic : MemPanic}
    (failed : pageTableAdd s vaddr phyaddr = .error panic) : panic ≠ .mallocPageCnt := by
  unfold pageTableAdd at failed
  split at failed
  · split at failed <;> cases failed
    decide
  · cases allocated : palloc s .kernel with
    | error inner =>
        rw [allocated] at failed
        cases failed
        rw [palloc_error allocated]
        decide
    | ok result =>
        rw [allocated] at failed
        cases failed

theorem mapPages_error {pf : PoolFlags} {cnt : Nat} {panic : MemPanic} :
    ∀ {s : MemState} {vaddr : Nat}, mapPages pf cnt s vaddr = .error panic →
      panic ≠ .mallocPageCnt := by
  induction cnt with
  | zero =>
      intro s vaddr failed
      cases failed
  | succ cnt inductionHypothesis =>
      intro s vaddr failed
      unfold mapPages at failed
      split at failed
      · rename_i allocated
        cases failed
        rw [palloc_error allocated]
        decide
      · cases failed
      · split at failed
        · rename_i added
          cases failed
          exact pageTableAdd_error added
        · exact inductionHypothesis failed

/-- The `ASSERT` on the page count fails only for a count it excludes. -/
theorem mallocPage_cnt {s : MemState} {pf : PoolFlags} {pgCnt : Nat}
    (failed : mallocPage s pf pgCnt = .error .mallocPageCnt) :
    ¬ (0 < pgCnt ∧ pgCnt < 3840) := by
  intro bounds
  simp only [mallocPage, vaddrGet, gt_iff_lt, bounds, and_self, if_true] at failed
  cases scanned : bitmapScan (s.vaddr pf).vaddrBitmap pgCnt with
  | none => simp [scanned] at failed
  | some bitIdxStart =>
      simp only [scanned] at failed
      split at failed
      · rename_i got
        split at got
        · cases got
        · split at got <;> cases got
          cases failed
      · cases failed
      · split at failed
        · rename_i mapped
          cases failed
          exact mapPages_error mapped rfl
        · cases failed

/-- In every state of a run of successful calls the page layer is consistent. -/
theorem kernel_pages_safe {start s : PageState} (reachable : PageReachable start s) :
    PagesSafe s := by
  obtain ⟨layout, inv⟩ := reachable.regionInv
  have started : ∀ bit < 8 * start.mem.kernelPool.poolBitmap.btmpBytesLen,
      bitmapScanTest start.mem.kernelPool.poolBitmap bit = false := by
    obtain ⟨⟨loaded, allMem, _, rfl⟩, _⟩ := reachable
    exact fun bit inside => bitmapScanTest_bitmapInit inside
  have startedVaddr : ∀ page < 8 * start.mem.kernelVaddr.vaddrBitmap.btmpBytesLen,
      bitmapScanTest start.mem.kernelVaddr.vaddrBitmap page = false := by
    obtain ⟨⟨loaded, allMem, _, rfl⟩, _⟩ := reachable
    exact fun page inside => bitmapScanTest_bitmapInit inside
  have liveInside : ∀ page ∈ livePages s.live,
      page < 8 * start.mem.kernelVaddr.vaddrBitmap.btmpBytesLen := by
    rintro page ⟨r, isLive, mem⟩
    obtain ⟨first, vaddr, _, inside⟩ := inv.region r isLive
    obtain ⟨first', vaddr', _, pages⟩ := inv.pages_region isLive
    obtain rfl := heapAddr_inj (vaddr.symm.trans vaddr')
    rw [pages] at mem
    obtain ⟨_, high⟩ := mem
    omega
  have statics := inv.pages.statics
  constructor
  case disjoint => exact inv.apart
  case injective => exact inv.pages.addrV2p_inj layout
  case image =>
    obtain ⟨frame, map⟩ := inv.pages.map
    ext phyAddr
    simp only [Set.mem_image, Set.mem_ofPred_eq, statics.poolLen, statics.phyAddrStart]
    constructor
    · rintro ⟨page, mem, rfl⟩
      refine ⟨frame page, map.frameLt page mem, ?_, map.addrV2p layout mem⟩
      exact (map.poolBit _).mpr (.inr ⟨page, mem, rfl⟩)
    · rintro ⟨bit, inside, set, rfl⟩
      rcases (inv.pages.poolBit layout bit).mp set with old | ⟨page, mem, same⟩
      · rw [started bit inside] at old
        cases old
      · exact ⟨page, mem, same⟩
  case notUser =>
    intro page mem
    obtain ⟨frame, map⟩ := inv.pages.map
    rw [map.addrV2p layout mem, statics.userPool]
    exact (map.frameRange layout mem).2
  case vaddr =>
    ext page
    simp only [Set.mem_ofPred_eq, statics.vaddrLen, inv.pages.vaddrBit]
    constructor
    · rintro ⟨inside, old | mem⟩
      · rw [startedVaddr page inside] at old
        cases old
      · exact mem
    · exact fun mem => ⟨liveInside page mem, .inr mem⟩
  case absent =>
    intro page inside notLive
    obtain ⟨frame, map⟩ := inv.pages.map
    rw [statics.vaddrLen] at inside
    exact map.pteFree page (by unfold heapPages; omega) notLive (startedVaddr page inside)
  case mallocAsserts =>
    intro pgCnt panic failed
    have result := inv.pages.mallocPage layout pgCnt
    rw [failed] at result
    cases result with
    | panic exhausted =>
        rcases exhausted with rfl | rfl
        · exact .inl rfl
        · exact .inr ⟨rfl, mallocPage_cnt failed⟩
  case mfreeAsserts =>
    intro r isLive
    obtain ⟨t, ok, _⟩ := inv.mfreePage layout isLive
    exact ⟨t, ok⟩
  case allocates =>
    intro pgCnt vaddr t ok
    obtain ⟨_, _, _, _, _, grants⟩ := inv.mallocPage layout ok
    exact grants
  case undoes =>
    intro r isLive t ok
    obtain ⟨t', ok', _, grants⟩ := inv.mfreePage layout isLive
    rw [ok] at ok'
    cases ok'
    exact grants

/-- The page tables after the loader. -/
def loaderMem : MemState where
  word := fun _ => 0xff
  pte := fun page => if page < 0xc0100 then 7 else 0
  pde := fun _ => 7
  kernelPool := ⟨⟨0, fun _ => 0xff⟩, 0, 0⟩
  userPool := ⟨⟨0, fun _ => 0xff⟩, 0, 0⟩
  kernelVaddr := ⟨⟨0, fun _ => 0xff⟩, 0⟩
  userprogVaddr := ⟨⟨0, fun _ => 0xff⟩, 0⟩
  kBlockDescs := 0xc0008000
  uBlockDesc := 0
  pgdirNull := true

theorem loaderMem_tables : KernelTables loaderMem := by
  refine ⟨fun _ _ _ => by simp [loaderMem], fun page low _ => ?_⟩
  simp only [loaderMem, show ¬ page < 0xc0100 by omega, if_false]

/-- With 32 megabytes, `malloc_page(PF_KERNEL, 2)` sets the first two bits of
`kernel_vaddr`. -/
theorem kernel_pages_safe_after_malloc :
    ∃ s, PageReachable ⟨memPoolInit loaderMem 0x2000000, []⟩ s ∧ s.live ≠ [] ∧
      bitmapScanTest s.mem.kernelVaddr.vaddrBitmap 1 = true := by
  have returned : (mallocPage (memPoolInit loaderMem 0x2000000) .kernel 2).toOption.map
      (fun result => (result.2, result.1.kernelVaddr.vaddrBitmap.btmpBytesLen)) =
      some (some kHeapStart, 480) := by
    decide +kernel
  obtain ⟨t, ok⟩ : ∃ t, mallocPage (memPoolInit loaderMem 0x2000000) .kernel 2 =
      .ok (t, some kHeapStart) := by
    cases outcome : mallocPage (memPoolInit loaderMem 0x2000000) .kernel 2 with
    | error panic => simp [outcome, Except.toOption] at returned
    | ok result =>
        simp only [outcome, Except.toOption, Option.map_some, Option.some.injEq,
          Prod.mk.injEq] at returned
        exact ⟨result.1, by rw [← returned.1]⟩
  have reachable : PageReachable ⟨memPoolInit loaderMem 0x2000000, []⟩
      ⟨t, [⟨kHeapStart, 2, translation t kHeapStart 2⟩]⟩ :=
    ⟨⟨loaderMem, _, loaderMem_tables, rfl⟩, .single (.malloc ok (by decide +kernel))⟩
  refine ⟨_, reachable, by simp, ?_⟩
  have bits := (kernel_pages_safe reachable).vaddr
  have mem : 1 ∈ livePages [⟨kHeapStart, 2, translation t kHeapStart 2⟩] :=
    ⟨_, List.mem_singleton.mpr rfl, by simp [Region.pages]⟩
  rw [← bits] at mem
  exact mem.2

end ZyOs.Memory
