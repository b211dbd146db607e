import ZyOs.Memory.HeapFootprint
import ZyOs.Memory.HeapTlb
import ZyOs.Memory.PageRun

/-!
Contract: `sys_malloc` and `sys_free` behind the TLB do what they do on the words that their
accesses find, as long as the entries that the TLB holds for new pages name their frames.

Owns:
- that the page functions do not look at the words of memory;
- the invariant: on the pages of the kernel image and of the arenas the TLB holds no entry but
  what the page tables say;
- what `malloc_page`, `mfree_page` and the accesses do to it, and the two calls.

Does not own: runs of calls.
-/

namespace ZyOs.Memory

open ZyOs.Lib ZyOs.Kernel

/-! ### The page functions do not look at the words of memory -/

/-- The result of a page function, with other words. -/
def withWords {α : Type} (w : Words) (outcome : Except MemPanic (MemState × α)) : Except MemPanic (MemState × α) :=
  outcome.map fun result => ({ result.1 with word := w }, result.2)

theorem pool_words (s : MemState) (pf : PoolFlags) (w : Words) :
    MemState.pool { s with word := w } pf = s.pool pf := by
  cases pf <;> rfl

theorem setPoolBitmap_words (s : MemState) (pf : PoolFlags) (btmp : Bitmap) (w : Words) :
    MemState.setPoolBitmap { s with word := w } pf btmp = { s.setPoolBitmap pf btmp with word := w } := by
  cases pf <;> rfl

theorem vaddr_words (s : MemState) (pf : PoolFlags) (w : Words) :
    MemState.vaddr { s with word := w } pf = s.vaddr pf := by
  cases pf <;> rfl

theorem setVaddrBitmap_words (s : MemState) (pf : PoolFlags) (btmp : Bitmap) (w : Words) :
    MemState.setVaddrBitmap { s with word := w } pf btmp = { s.setVaddrBitmap pf btmp with word := w } := by
  cases pf <;> rfl

theorem palloc_words (s : MemState) (pf : PoolFlags) (w : Words) :
    palloc { s with word := w } pf = withWords w (palloc s pf) := by
  unfold palloc
  rw [pool_words]
  split
  · rfl
  · split
    · rfl
    · rw [setPoolBitmap_words]
      rfl

theorem pageTableAdd_words (s : MemState) (vaddr phyaddr : Nat) (w : Words) :
    pageTableAdd { s with word := w } vaddr phyaddr =
      (pageTableAdd s vaddr phyaddr).map fun t => { t with word := w } := by
  unfold pageTableAdd
  dsimp only
  split
  · split <;> rfl
  · rw [palloc_words]
    cases palloc s .kernel <;> rfl

theorem mapPages_words (pf : PoolFlags) (w : Words) (cnt : Nat) :
    ∀ (s : MemState) (vaddr : Nat),
      mapPages pf cnt { s with word := w } vaddr = withWords w (mapPages pf cnt s vaddr) := by
  induction cnt with
  | zero => exact fun _ _ => rfl
  | succ cnt inductionHypothesis =>
      intro s vaddr
      unfold mapPages
      rw [palloc_words]
      rcases palloc s pf with panic | ⟨t, _ | pagePhyaddr⟩
      · rfl
      · rfl
      · simp only [withWords, Except.map]
        rw [pageTableAdd_words]
        cases pageTableAdd t vaddr pagePhyaddr with
        | error panic => rfl
        | ok t => exact inductionHypothesis t (vaddr + pgSize)

theorem vaddrGet_words (s : MemState) (pf : PoolFlags) (pgCnt : Nat) (w : Words) :
    vaddrGet { s with word := w } pf pgCnt = withWords w (vaddrGet s pf pgCnt) := by
  unfold vaddrGet
  rw [vaddr_words]
  split
  · rfl
  · split
    · rfl
    · dsimp only
      rw [setVaddrBitmap_words]
      split <;> rfl

theorem mallocPage_words (s : MemState) (pf : PoolFlags) (pgCnt : Nat) (w : Words) :
    mallocPage { s with word := w } pf pgCnt = withWords w (mallocPage s pf pgCnt) := by
  unfold mallocPage
  split
  · rw [vaddrGet_words]
    rcases vaddrGet s pf pgCnt with panic | ⟨t, _ | vaddr⟩
    · rfl
    · rfl
    · simp only [withWords, Except.map]
      rw [mapPages_words]
      cases mapPages pf pgCnt t vaddr <;> rfl
  · rfl

theorem pfree_words (s : MemState) (pgPhyAddr : Nat) (w : Words) :
    pfree { s with word := w } pgPhyAddr = { pfree s pgPhyAddr with word := w } := by
  unfold pfree
  dsimp only
  rw [pool_words, setPoolBitmap_words]

theorem unmapPages_words (inPool : Nat → Bool) (w : Words) (cnt : Nat) :
    ∀ (s : MemState) (vaddr : Nat), unmapPages inPool cnt { s with word := w } vaddr =
      (unmapPages inPool cnt s vaddr).map fun t => { t with word := w } := by
  induction cnt with
  | zero => exact fun _ _ => rfl
  | succ cnt inductionHypothesis =>
      intro s vaddr
      unfold unmapPages
      simp only [show addrV2p { s with word := w } vaddr = addrV2p s vaddr from rfl]
      split
      · rw [pfree_words]
        exact inductionHypothesis (pageTablePteRemove (pfree s (addrV2p s vaddr)) vaddr) (vaddr + pgSize)
      · rfl

theorem mfreePage_words (s : MemState) (vaddr pgCnt : Nat) (w : Words) :
    mfreePage { s with word := w } .kernel vaddr pgCnt =
      (mfreePage s .kernel vaddr pgCnt).map fun t => { t with word := w } := by
  simp only [mfreePage, show addrV2p { s with word := w } vaddr = addrV2p s vaddr from rfl]
  split
  · split
    · rw [unmapPages_words]
      generalize unmapPages _ pgCnt s vaddr = outcome
      cases outcome <;> rfl
    · rfl
  · rfl

/-- The bitmap of `kernel_vaddr` says which pages are in use. -/
theorem PageInv.used_unique {start s t : MemState} {used used' : Set Nat} (inv : PageInv start s used)
    (inv' : PageInv start t used') (same : t.kernelVaddr = s.kernelVaddr) : used' = used := by
  ext page
  have bit := inv.vaddrBit page
  have bit' := inv'.vaddrBit page
  rw [same, bit] at bit'
  constructor
  · intro mem
    rcases bit'.mpr (.inr mem) with set | old
    · rw [inv'.vaddrFresh page mem] at set
      cases set
    · exact old
  · intro mem
    rcases bit'.mp (.inr mem) with set | new
    · rw [inv.vaddrFresh page mem] at set
      cases set
    · exact new

/-! ### The invariant -/

/-- The pages that the heap touches: those of the kernel image and those in use. -/
def ownPages (used : Set Nat) : Set Nat := imagePages ∪ { page | ∃ q ∈ used, page = 0xc0100 + q }

theorem ownPages_mono {used used' : Set Nat} (sub : used ⊆ used') : ownPages used ⊆ ownPages used' := by
  rintro page (image | ⟨q, mem, rfl⟩)
  · exact .inl image
  · exact .inr ⟨q, sub mem, rfl⟩

/-- `w` is what accesses find on these pages. -/
structure TlbInv (used : Set Nat) (s : TlbMem) (w : Words) : Prop where
  image : ImageMapped s.mem
  entries : EntriesAgree s (ownPages used)
  shown : Set.EqOn (s.paged.view pgSize) w (onPages pgSize (ownPages used))

section

variable {start : MemState} {s : TlbMem} {used : Set Nat} {w : Words}

/-- A page in use has its frame in the page tables. -/
theorem MapInv.tableFrame {t : MemState} {frame : Nat → Nat} (layout : Layout start)
    (map : MapInv start t used frame) {q : Nat} (mem : q ∈ used) :
    Memory.tableFrame t (0xc0100 + q) = some (frameAddr start (frame q) / pgSize) := by
  have isPde : t.pde (pdeIdx ((0xc0100 + q) * pgSize)) % 2 = 1 := by
    rw [map.statics.pde]
    refine Eq.trans (congrArg (fun vaddr => start.pde (pdeIdx vaddr) % 2) ?_) (layout.pde q (map.inArea q mem))
    simp only [heapAddr, kHeapStart, pgSize]
    omega
  have isPte : t.pte (0xc0100 + q) = pteOf (frameAddr start (frame q)) := by
    rw [← pageOf_heapAddr]
    exact map.pteUsed q mem
  have aligned := layout.frameAligned (frame q)
  unfold Memory.tableFrame
  rw [isPte, if_pos ⟨isPde, pteOf_present _⟩, pteOf_eq aligned]
  simp only [pgSize] at aligned ⊢
  exact congrArg some (by omega)

/-- The pages are mapped to frames of their own. -/
theorem TlbInv.coherent (layout : Layout start) (pages : PageInv start s.mem used) (inv : TlbInv used s w) :
    s.paged.Coherent (ownPages used) := by
  obtain ⟨frame, map⟩ := pages.map
  have low := layout.phyLow
  have aligned := layout.phyAligned
  have isImage : ∀ page ∈ imagePages, s.paged.table page = some (page - 0xc0000) :=
    fun page mem => inv.image page mem.1 mem.2
  have isHeap : ∀ q ∈ used, s.paged.table (0xc0100 + q) = some (frameAddr start (frame q) / pgSize) :=
    fun q mem => map.tableFrame layout mem
  refine ⟨?_, inv.entries, ?_⟩
  · rintro page (image | ⟨q, mem, rfl⟩)
    · exact ⟨_, isImage page image⟩
    · exact ⟨_, isHeap q mem⟩
  · rintro page (image | ⟨q, mem, rfl⟩) other (image' | ⟨r, mem', rfl⟩) same
    · rw [isImage page image, isImage other image', Option.some.injEq] at same
      have first := image.1
      have second := image'.1
      omega
    · rw [isImage page image, isHeap r mem', Option.some.injEq] at same
      have last := image.2
      simp only [frameAddr, pgSize] at same
      omega
    · rw [isHeap q mem, isImage other image', Option.some.injEq] at same
      have last := image'.2
      simp only [frameAddr, pgSize] at same
      omega
    · rw [isHeap q mem, isHeap r mem', Option.some.injEq] at same
      have sameFrame : frame q = frame r := by
        simp only [frameAddr, pgSize] at same aligned
        omega
      rw [map.frameInj q mem r mem' sameFrame]

/-- What accesses leave alone. -/
structure Accessed (used : Set Nat) (s t : TlbMem) : Prop where
  mem : ∀ w, { t.mem with word := w } = { s.mem with word := w }
  others : ∀ page ∉ ownPages used, t.tlb page = s.tlb page

theorem Accessed.trans {t u : TlbMem} (first : Accessed used s t) (second : Accessed used t u) :
    Accessed used s u where
  mem w := (second.mem w).trans (first.mem w)
  others page notMem := (second.others page notMem).trans (first.others page notMem)

theorem tableFrame_words (t : MemState) (w : Words) : tableFrame { t with word := w } = tableFrame t := rfl

theorem Accessed.tableFrame {t : TlbMem} (accessed : Accessed used s t) : tableFrame t.mem = tableFrame s.mem := by
  rw [← tableFrame_words t.mem s.mem.word, accessed.mem, tableFrame_words]

/-- A program that stays within the pages does on the machine what it does on the words that
they show. -/
theorem TlbInv.access {α : Type} (layout : Layout start) (pages : PageInv start s.mem used)
    (inv : TlbInv used s w) {prog : Accesses.HeapProg α} {value : α} {w' : Words}
    (within : prog.Within pgSize (ownPages used) w) (isRun : prog.run w = .ok (value, w')) :
    ∃ t, Tlb.access prog s = .ok (value, t) ∧ TlbInv used t w' ∧ Accessed used s t := by
  have follows := within.follows (by decide) (inv.coherent layout pages) inv.shown
  rw [isRun] at follows
  cases isPaged : prog.runPaged pgSize s.paged with
  | error stop =>
      rw [isPaged] at follows
      cases follows
  | ok result =>
      obtain ⟨value', m⟩ := result
      rw [isPaged] at follows
      cases follows with
      | ok table coherent others shown =>
          have sameTable : tableFrame s.mem = m.table := table.symm
          refine ⟨{ s with mem := { s.mem with word := m.words }, tlb := m.tlb }, ?_, ?_, fun _ => rfl, others⟩
          · unfold Tlb.access
            rw [isPaged]
          · refine ⟨inv.image, fun page mem frame isEntry => ?_, ?_⟩
            · have agrees := coherent.entry page mem frame isEntry
              rw [← sameTable] at agrees
              exact agrees
            · have isPaged : TlbMem.paged { s with mem := { s.mem with word := m.words }, tlb := m.tlb } = m := by
                unfold TlbMem.paged
                rw [tableFrame_words, sameTable]
              rw [isPaged]
              exact shown

end

/-- What the machine does after a call that returns. -/
theorem Tlb.bind_ok {α β : Type} {call : Tlb.TlbCall α} {next : α → Tlb.TlbCall β} {s t : TlbMem} {value : α}
    (ok : call s = .ok (value, t)) : (call >>= next) s = next value t := by
  change (call s >>= fun result => next result.1 result.2) = _
  rw [ok]
  rfl

/-- After a call that stops there is nothing. -/
theorem Tlb.bind_error {α β : Type} {call : Tlb.TlbCall α} {next : α → Tlb.TlbCall β} {s : TlbMem}
    {stop : AccessStop MemPanic} (error : call s = .error stop) : (call >>= next) s = .error stop := by
  change (call s >>= fun result => next result.1 result.2) = _
  rw [error]
  rfl

theorem Tlb.mallocPage_ok {s : TlbMem} {t : MemState} {pf : PoolFlags} {n : Nat} {vaddr : Option Nat}
    (isRun : Memory.mallocPage s.mem pf n = .ok (t, vaddr)) :
    Tlb.mallocPage pf n s = .ok (vaddr, { s with mem := t }) := by
  unfold Tlb.mallocPage
  rw [isRun]

theorem Tlb.mallocPage_error {s : TlbMem} {pf : PoolFlags} {n : Nat} {panic : MemPanic}
    (isRun : Memory.mallocPage s.mem pf n = .error panic) :
    Tlb.mallocPage pf n s = .error (.fail panic) := by
  unfold Tlb.mallocPage
  rw [isRun]

/-! ### Pages that come and go -/

/-- The entries that the TLB has for pages about to be mapped name their frames. -/
def EntriesFit (s : TlbMem) (n : Nat) : Prop :=
  ∀ t q, mallocPage s.mem .kernel n = .ok (t, some (heapAddr q)) → ∀ page ∈ Set.Ico q (q + n),
    ∀ frame, s.tlb (0xc0100 + page) = some frame → tableFrame t (0xc0100 + page) = some frame

section

variable {start : MemState} {s : TlbMem} {used : Set Nat} {live : Nat → Option Nat}
  {arena : Nat → Option Arena} {free : Nat → List Nat} {w : Words}

theorem HeapInv.ownPagesInv (inv : HeapInv start { s.mem with word := w } live arena free) :
    PageInv start s.mem (usedPages arena) :=
  inv.pages.setWord s.mem.word

theorem descsOn_own (layout : HeapLayout start) (descsLow : 0xc0000000 ≤ start.kBlockDescs) (used : Set Nat) :
    Accesses.DescsOn start.kBlockDescs (ownPages used) := by
  intro cell low high
  have top := layout.descsHigh
  simp only [kHeapStart] at top
  refine .inl ⟨?_, ?_⟩ <;>
  · simp only [pgSize]
    omega

theorem arenasOn_own (arena : Nat → Option Arena) : Accesses.ArenasOn arena (ownPages (usedPages arena)) :=
  fun page mem => .inr ⟨page, mem, rfl⟩

/-- The heap reads nothing off its pages. -/
theorem HeapInv.congr_own {mem : MemState} {m m' : Words} (inv : HeapInv start { mem with word := m } live arena free)
    (layout : HeapLayout start) (descsLow : 0xc0000000 ≤ start.kBlockDescs)
    (same : Set.EqOn m' m (onPages pgSize (ownPages (usedPages arena)))) :
    HeapInv start { mem with word := m' } live arena free := by
  have arenasOn := arenasOn_own arena
  refine inv.setWord layout (fun cell low high => ?_) (fun q k isArena offset small => ?_) fun d inDescs b mem => ?_
  · exact same (descsOn_own layout descsLow _ cell low high)
  · simp only [arenaSize] at small
    exact same (arenasOn.header inv isArena (by omega))
  · have node := Accesses.nodeOn_of_block (inv.lists.block d inDescs b mem) (arenasOn.blocks inv d inDescs b mem)
    exact ⟨same node.prev, same node.next⟩

/-- A word of a live allocation lies on one of the pages. -/
theorem HeapInv.live_own {mem : MemState} (inv : HeapInv start mem live arena free) {p size cell : Nat}
    (isLive : live p = some size) (low : p ≤ cell) (high : cell < p + Memory.usable mem p) :
    cell ∈ onPages pgSize (ownPages (usedPages arena)) := by
  obtain ⟨q, k, isArena, _, first, last⟩ := inv.span isLive
  refine .inr ⟨cell / pgSize - 0xc0100, ⟨q, k, isArena, ?_, ?_⟩, ?_⟩ <;>
  · simp only [heapAddr, kHeapStart, pgSize, arenaSize] at first last ⊢
    omega

/-- Tables that agree on the pages, and words that are the same, show the same. -/
theorem view_congr {t : TlbMem} (words : t.mem.word = s.mem.word)
    (table : ∀ page ∈ ownPages used, tableFrame t.mem page = tableFrame s.mem page)
    (tlb : ∀ page ∈ ownPages used, t.tlb page = none ∨ t.tlb page = s.tlb page ∨
      t.tlb page = tableFrame s.mem page)
    (coherent : s.paged.Coherent (ownPages used)) :
    t.paged.Coherent (ownPages used) ∧
      Set.EqOn (t.paged.view pgSize) (s.paged.view pgSize) (onPages pgSize (ownPages used)) := by
  have coherent' : t.paged.Coherent (ownPages used) :=
    coherent.congr (Set.Subset.refl _) table tlb
  refine ⟨coherent', fun cell mem => ?_⟩
  obtain ⟨frame, isFrame, goes⟩ := coherent.translate mem
  obtain ⟨frame', isFrame', goes'⟩ := coherent'.translate mem
  have same : frame' = frame := by
    have both := isFrame'.symm.trans ((table _ mem).trans isFrame)
    exact Option.some.inj both
  rw [Paged.view_of_translate goes, Paged.view_of_translate goes', same]
  exact congrFun words _

/-- The page tables keep their entries for the pages in use while others are mapped. -/
theorem PageInv.malloc_table (pages : PageInv start s.mem used) (layout : Layout start) {n q : Nat}
    {t : MemState} (ok : Memory.mallocPage s.mem .kernel n = .ok (t, some (heapAddr q))) :
    (∀ page ∈ Set.Ico q (q + n), page ∉ used) ∧ PageInv start t (used ∪ Set.Ico q (q + n)) ∧
      t.word = s.mem.word ∧ ∀ page ∈ ownPages used, tableFrame t page = tableFrame s.mem page := by
  have result := pages.mallocPage layout n
  rw [ok] at result
  generalize isAddr : heapAddr q = a at result
  cases result with
  | pages positive fresh after word =>
      obtain rfl := heapAddr_inj isAddr
      refine ⟨fresh, after, word, fun page mem => ?_⟩
      have pde : t.pde = s.mem.pde := after.statics.pde.trans pages.statics.pde.symm
      have pte : t.pte page = s.mem.pte page := by
        refine mallocPage_pte layout pages ok page fun other inRun same => ?_
        rw [pageOf_heapAddr] at same
        rcases mem with image | ⟨r, isUsed, rfl⟩
        · have top := image.2
          omega
        · obtain rfl : r = other := by omega
          exact fresh r inRun isUsed
      unfold tableFrame
      rw [pde, pte]

/-- `malloc_page` adds its pages, with whatever they hold. -/
theorem TlbInv.grow (tlb : TlbInv used s w) (pages : PageInv start s.mem used) (layout : Layout start)
    {n q : Nat} {t : MemState} (fits : EntriesFit s n)
    (ok : mallocPage s.mem .kernel n = .ok (t, some (heapAddr q))) :
    TlbInv (used ∪ Set.Ico q (q + n)) { s with mem := t } ((TlbMem.paged { s with mem := t }).view pgSize) ∧
      Set.EqOn ((TlbMem.paged { s with mem := t }).view pgSize) w (onPages pgSize (ownPages used)) := by
  obtain ⟨fresh, after, word, table⟩ := pages.malloc_table layout ok
  have coherent := tlb.coherent layout pages
  obtain ⟨_, shown⟩ := view_congr (t := { s with mem := t }) word table
    (fun _ _ => .inr (.inl rfl)) coherent
  refine ⟨⟨fun page low high => ?_, fun page mem frame isEntry => ?_, fun _ _ => rfl⟩, shown.trans tlb.shown⟩
  · rw [table page (.inl ⟨low, high⟩)]
    exact tlb.image page low high
  · rcases mem with image | ⟨r, isUsed | new, rfl⟩
    · rw [table page (.inl image)]
      exact tlb.entries page (.inl image) frame isEntry
    · rw [table _ (.inr ⟨r, isUsed, rfl⟩)]
      exact tlb.entries _ (.inr ⟨r, isUsed, rfl⟩) frame isEntry
    · exact fits t q ok r new frame isEntry

/-- `mfree_page` takes its pages away; the entries that the TLB keeps for them are no longer its own. -/
theorem TlbInv.shrink (tlb : TlbInv used s w) (pages : PageInv start s.mem used) (layout : Layout start)
    {n q : Nat} {t : MemState} (ok : mfreePage s.mem .kernel (heapAddr q) n = .ok t)
    (pde : t.pde = s.mem.pde) (word : t.word = s.mem.word) :
    TlbInv (used \ Set.Ico q (q + n)) { s with mem := t, tlb := Function.update s.tlb s.stackPage none } w := by
  have sub : ownPages (used \ Set.Ico q (q + n)) ⊆ ownPages used := ownPages_mono Set.sdiff_subset
  have table : ∀ page ∈ ownPages (used \ Set.Ico q (q + n)), tableFrame t page = tableFrame s.mem page := by
    intro page mem
    have pte : t.pte page = s.mem.pte page := by
      refine mfreePage_pte ok page fun other inRun same => ?_
      rw [pageOf_heapAddr] at same
      rcases mem with image | ⟨r, isUsed, rfl⟩
      · have top := image.2
        omega
      · obtain rfl : r = other := by omega
        exact isUsed.2 inRun
    unfold tableFrame
    rw [pde, pte]
  have entry : ∀ page, Function.update s.tlb s.stackPage none page = none ∨
      Function.update s.tlb s.stackPage none page = s.tlb page ∨
      Function.update s.tlb s.stackPage none page = tableFrame s.mem page := by
    intro page
    by_cases same : page = s.stackPage
    · exact .inl (by rw [same, Function.update_self])
    · exact .inr (.inl (Function.update_of_ne same _ _))
  have coherent : s.paged.Coherent (ownPages (used \ Set.Ico q (q + n))) :=
    (tlb.coherent layout pages).congr sub (fun _ _ => rfl) fun _ _ => .inr (.inl rfl)
  obtain ⟨coherent', shown⟩ := view_congr
    (t := { s with mem := t, tlb := Function.update s.tlb s.stackPage none }) word table
    (fun page _ => entry page) coherent
  refine ⟨fun page low high => ?_, coherent'.entry, fun cell mem => (shown mem).trans (tlb.shown (sub mem))⟩
  rw [table page (.inl ⟨low, high⟩)]
  exact tlb.image page low high

/-- Accesses to the pages in use leave the entries for all others. -/
theorem EntriesFit.of_accessed {t : TlbMem} {n : Nat} (fits : EntriesFit s n)
    (pages : PageInv start s.mem used) (layout : Layout start) (accessed : Accessed used s t) :
    EntriesFit t n := by
  intro u q ok page mem frame isEntry
  have sameMem : t.mem = { s.mem with word := t.mem.word } := accessed.mem t.mem.word
  rw [sameMem, mallocPage_words] at ok
  cases isRun : mallocPage s.mem .kernel n with
  | error panic =>
      rw [isRun] at ok
      cases ok
  | ok result =>
      obtain ⟨u', r⟩ := result
      rw [isRun] at ok
      cases ok
      have fresh := (pages.malloc_table layout isRun).1 page mem
      have notOwn : 0xc0100 + page ∉ ownPages used := by
        rintro (image | ⟨q', isUsed, same⟩)
        · have top := image.2
          omega
        · obtain rfl : page = q' := by omega
          exact fresh isUsed
      rw [accessed.others _ notOwn] at isEntry
      exact fits u' q isRun page mem frame isEntry

/-! ### `sys_malloc` -/

/-- What `sys_malloc` does on the machine. -/
inductive TlbMalloc (start : MemState) (live : Nat → Option Nat) (size : Nat) :
    Except (AccessStop MemPanic) (Option Nat × TlbMem) → Prop where
  | panic {panic : MemPanic} (exhausted : panic = .bitmapScan ∨ panic = .mallocPageCnt) :
      TlbMalloc start live size (.error (.fail panic))
  | null (t : TlbMem) : TlbMalloc start live size (.ok (none, t))
  | block {t : TlbMem} {p : Nat} {w : Words} {arena : Nat → Option Arena} {free : Nat → List Nat}
      (fresh : live p = none)
      (zero : ∀ cell, p ≤ cell → cell < p + size → t.paged.view pgSize cell = 0)
      (inv : HeapInv start { t.mem with word := w } (Function.update live p (some size)) arena free)
      (busy : Busy (Function.update live p (some size)) arena)
      (tlb : TlbInv (usedPages arena) t w) : TlbMalloc start live size (.ok (some p, t))

/-- A block of the heap that the accesses see is one of the machine. -/
theorem TlbMalloc.of_words {t : TlbMem} {p size : Nat}
    (result : MallocResult start live size (.ok ({ t.mem with word := w }, some p)))
    (pages : PageInv start t.mem used) (tlb : TlbInv used t w) :
    TlbMalloc start live size (.ok (some p, t)) := by
  cases result with
  | block fresh zero inv busy =>
      have isUsed := pages.used_unique inv.pages rfl
      rw [← isUsed] at tlb
      refine .block fresh (fun cell low high => ?_) inv busy tlb
      have isLive : Function.update live p (some size) p = some size := Function.update_self _ _ _
      have fits : size ≤ usable { t.mem with word := w } p := by
        rcases inv.usable isLive with ⟨_, _, _, _, _, _, _, fits⟩ | ⟨_, _, _, _, _, fits⟩ <;> exact fits
      rw [tlb.shown (inv.live_own isLive low (by omega))]
      exact zero cell low high

theorem TlbInv.takeBlock (inv : HeapInv start { s.mem with word := w } live arena free)
    (layout : HeapLayout start) (descsLow : 0xc0000000 ≤ start.kBlockDescs)
    (tlb : TlbInv (usedPages arena) s w) {d size : Nat} (inDescs : d < descCnt) (nonempty : free d ≠ [])
    (fits : size ≤ blockSize d)
    (busy : ∀ q e, arena q = some (.small e) →
      (∃ idx < blocksPerArena e, live (blockAddr q e idx) ≠ none) ∨
        ∀ b ∈ free d, block2arena b = heapAddr q) :
    TlbMalloc start live size (Tlb.takeBlock (descAddr start.kBlockDescs d) s) := by
  have within := Accesses.within_takeBlock inv layout (descsOn_own layout descsLow _) (arenasOn_own arena)
    inDescs nonempty
  obtain ⟨t, ok, tlb', accessed⟩ := tlb.access layout.layout inv.ownPagesInv within (Accesses.run_takeBlock _ _)
  have result := inv.takeResult layout inDescs nonempty fits busy
  unfold Tlb.takeBlock
  rw [Tlb.bind_ok ok]
  have pages := inv.ownPagesInv.setWord t.mem.word
  rw [← accessed.mem] at result pages
  exact .of_words result pages tlb'

/-- Behind `malloc_page` the heap stands over the words that the accesses see now. -/
theorem TlbInv.addPages (inv : HeapInv start { s.mem with word := w } live arena free)
    (layout : HeapLayout start) (descsLow : 0xc0000000 ≤ start.kBlockDescs)
    (tlb : TlbInv (usedPages arena) s w) {n q : Nat} {t : MemState} (fits : EntriesFit s n)
    (isRun : mallocPage s.mem .kernel n = .ok (t, some (heapAddr q))) :
    ∃ w₀, TlbInv (usedPages arena ∪ Set.Ico q (q + n)) { s with mem := t } w₀ ∧
      HeapInv start { s.mem with word := w₀ } live arena free := by
  obtain ⟨tlb', same⟩ := tlb.grow inv.ownPagesInv layout.layout fits isRun
  exact ⟨_, tlb', inv.congr_own layout descsLow same⟩

/-- The page that `malloc_page` gave becomes an arena, and one of its blocks is taken. -/
theorem TlbInv.newArena (inv : HeapInv start { s.mem with word := w } live arena free)
    (layout : HeapLayout start) (descsLow : 0xc0000000 ≤ start.kBlockDescs)
    (tlb : TlbInv (usedPages arena) s w) (busy : Busy live arena) {size d q : Nat} {t : MemState}
    (inDescs : d < descCnt) (sizeFits : size ≤ blockSize d) (noFree : free d = []) (fits : EntriesFit s 1)
    (isRun : mallocPage s.mem .kernel 1 = .ok (t, some (heapAddr q))) :
    TlbMalloc start live size ((do
      Tlb.access (Accesses.initArena (heapAddr q) (descAddr start.kBlockDescs d))
      Tlb.takeBlock (descAddr start.kBlockDescs d) : Tlb.TlbCall (Option Nat)) { s with mem := t }) := by
  obtain ⟨fresh, after, _, _⟩ := inv.ownPagesInv.malloc_table layout.layout isRun
  obtain ⟨w₀, tlb₁, inv₁⟩ := tlb.addPages inv layout descsLow fits isRun
  have pageOn : 0xc0100 + q ∈ ownPages (usedPages arena ∪ Set.Ico q (q + 1)) :=
    .inr ⟨q, .inr ⟨le_refl _, Nat.lt_succ_self q⟩, rfl⟩
  have sub : ownPages (usedPages arena) ⊆ ownPages (usedPages arena ∪ Set.Ico q (q + 1)) :=
    ownPages_mono Set.subset_union_left
  obtain ⟨m, init, inv₂⟩ := inv₁.initArena layout inDescs fresh (after.setWord w₀) rfl
  have within := Accesses.within_initArena inv₁ layout (descsOn_own layout descsLow _)
    (fun page mem => sub (arenasOn_own arena page mem)) inDescs fresh pageOn
    (after.below layout (.inr ⟨le_refl _, Nat.lt_succ_self q⟩))
  have isInit : (Accesses.initArena (heapAddr q) (descAddr start.kBlockDescs d)).run w₀ = .ok ((), m) := by
    rw [Accesses.run_initArena, init]
    rfl
  obtain ⟨s₂, ok₂, tlb₂, accessed₂⟩ := tlb₁.access layout.layout after within isInit
  rw [Tlb.bind_ok ok₂]
  have absent : arena q = none := by
    by_contra present
    obtain ⟨l, isArena⟩ := Option.ne_none_iff_exists'.mp present
    exact fresh q ⟨le_refl _, Nat.lt_succ_self q⟩ (inv.firstPage isArena)
  have isUsed : usedPages (Function.update arena q (some (.small d))) =
      usedPages arena ∪ Set.Ico q (q + 1) := usedPages_add absent
  rw [← isUsed] at tlb₂
  have inv₂' : HeapInv start { s₂.mem with word := m } live (Function.update arena q (some (.small d)))
      (Function.update free d (free d ++ blockRun q d 0 (blocksPerArena d))) := by
    rw [accessed₂.mem]
    exact inv₂
  exact TlbInv.takeBlock inv₂' layout descsLow tlb₂ inDescs (newArena_nonempty inDescs) sizeFits
    (newArena_busy busy noFree)

/-- `sys_malloc` of at most 1024 bytes: from the free list, or from a new arena. -/
theorem TlbInv.mallocSmall (inv : HeapInv start { s.mem with word := w } live arena free)
    (layout : HeapLayout start) (descsLow : 0xc0000000 ≤ start.kBlockDescs)
    (tlb : TlbInv (usedPages arena) s w) (busy : Busy live arena) {size : Nat} (small : size ≤ 1024)
    (fits : listEmpty w (freeListOf (descAddr start.kBlockDescs (findDesc w start.kBlockDescs size))) = true →
      EntriesFit s 1) :
    TlbMalloc start live size (Tlb.mallocSmall .kernel start.kBlockDescs size s) := by
  obtain ⟨d, inDescs, found, sizeFits⟩ := inv.findDesc small
  have descsOn := descsOn_own layout descsLow (usedPages arena)
  have arenasOn := arenasOn_own arena
  obtain ⟨s₁, ok₁, tlb₁, accessed₁⟩ := tlb.access layout.layout inv.ownPagesInv
    (Accesses.within_findDesc descsOn size) (Accesses.run_findDesc _ _ _)
  have inv₁ : HeapInv start { s₁.mem with word := w } live arena free := by
    rw [accessed₁.mem]
    exact inv
  obtain ⟨s₂, ok₂, tlb₂, accessed₂⟩ := tlb₁.access layout.layout inv₁.ownPagesInv
    (Accesses.within_listEmpty descsOn inDescs) (Accesses.run_listEmpty _ _)
  have accessed := accessed₁.trans accessed₂
  have inv₂ : HeapInv start { s₂.mem with word := w } live arena free := by
    rw [accessed.mem]
    exact inv
  have isEmpty : listEmpty w (freeListOf (descAddr start.kBlockDescs d)) = (free d).isEmpty :=
    (inv.lists.isList d inDescs).listEmpty (inv.lists.apart layout.descsHigh inDescs)
  unfold Tlb.mallocSmall
  rw [Tlb.bind_ok ok₁, found, Tlb.bind_ok ok₂]
  cases empty : listEmpty w (freeListOf (descAddr start.kBlockDescs d)) with
  | false =>
      rw [empty] at isEmpty
      refine TlbInv.takeBlock inv₂ layout descsLow tlb₂ inDescs ?_ sizeFits fun q e isArena => .inl (busy q e isArena)
      intro noFree
      rw [noFree] at isEmpty
      cases isEmpty
  | true =>
      rw [if_pos rfl]
      have noFree : free d = [] := List.isEmpty_iff.mp (isEmpty.symm.trans empty)
      have fits₂ : EntriesFit s₂ 1 := (fits (by rw [found, empty])).of_accessed inv.ownPagesInv layout.layout accessed
      have result := inv₂.ownPagesInv.mallocPage layout.layout 1
      cases isRun : mallocPage s₂.mem .kernel 1 with
      | error panic =>
          rw [isRun] at result
          rw [Tlb.bind_error (Tlb.mallocPage_error isRun)]
          cases result with
          | panic exhausted => exact .panic exhausted
      | ok outcome =>
          obtain ⟨t, vaddr⟩ := outcome
          rw [isRun] at result
          rw [Tlb.bind_ok (Tlb.mallocPage_ok isRun)]
          cases result with
          | null => exact .null _
          | pages => exact TlbInv.newArena inv₂ layout descsLow tlb₂ busy inDescs sizeFits noFree fits₂ isRun

/-- `sys_malloc` of more than 1024 bytes. -/
theorem TlbInv.largeArena (inv : HeapInv start { s.mem with word := w } live arena free)
    (layout : HeapLayout start) (descsLow : 0xc0000000 ≤ start.kBlockDescs)
    (tlb : TlbInv (usedPages arena) s w) (busy : Busy live arena) {size n : Nat}
    (sizeFits : size + arenaSize ≤ n * pgSize) (fits : EntriesFit s n) :
    TlbMalloc start live size (Tlb.largeArena .kernel n s) := by
  unfold Tlb.largeArena
  have result := inv.ownPagesInv.mallocPage layout.layout n
  cases isRun : mallocPage s.mem .kernel n with
  | error panic =>
      rw [isRun] at result
      rw [Tlb.bind_error (Tlb.mallocPage_error isRun)]
      cases result with
      | panic exhausted => exact .panic exhausted
  | ok outcome =>
      obtain ⟨t, vaddr⟩ := outcome
      rw [isRun] at result
      rw [Tlb.bind_ok (Tlb.mallocPage_ok isRun)]
      cases result with
      | null => exact .null _
      | @pages _ q positive fresh after word =>
          dsimp only
          obtain ⟨w₀, tlb₁, inv₁⟩ := tlb.addPages inv layout descsLow fits isRun
          have within : (Accesses.largeArena (heapAddr q) n).Within pgSize
              (ownPages (usedPages arena ∪ Set.Ico q (q + n))) w₀ :=
            Accesses.within_largeArena positive fun page mem => .inr ⟨page, .inr mem, rfl⟩
          obtain ⟨s₂, ok₂, tlb₂, accessed₂⟩ := tlb₁.access layout.layout after within (Accesses.run_largeArena _ _ _)
          rw [Tlb.bind_ok ok₂]
          have flat := inv₁.largeArena layout busy sizeFits
          simp only [Memory.largeArena, mallocPage_words, isRun, withWords, Except.map] at flat
          have pages := after.setWord s₂.mem.word
          have sameMem := accessed₂.mem
          simp only at sameMem
          rw [← sameMem] at flat pages
          exact .of_words flat pages tlb₂

theorem TlbInv.sysMalloc (inv : HeapInv start { s.mem with word := w } live arena free)
    (layout : HeapLayout start) (descsLow : 0xc0000000 ≤ start.kBlockDescs)
    (tlb : TlbInv (usedPages arena) s w) (busy : Busy live arena) {size : Nat}
    (large : size > 1024 → EntriesFit s (divRoundUp (size + arenaSize) pgSize))
    (small : ¬ size > 1024 →
      listEmpty w (freeListOf (descAddr start.kBlockDescs (findDesc w start.kBlockDescs size))) = true →
      EntriesFit s 1) :
    TlbMalloc start live size (Tlb.sysMalloc size s) := by
  have kernel : s.mem.pgdirNull = true := inv.pages.statics.pgdirNull.trans layout.pgdirNull
  have descs : s.mem.kBlockDescs = start.kBlockDescs := inv.pages.statics.kBlockDescs
  have poolSize := inv.pages.statics.poolSize
  have bound := layout.poolSize
  unfold Tlb.sysMalloc
  rw [Tlb.bind_ok (show (get : Tlb.TlbCall TlbMem) s = .ok (s, s) from rfl)]
  simp only [kernel, if_true, descs]
  split
  · exact .null s
  · rename_i bounds
    simp only [MemState.pool] at bounds
    split
    · rename_i isLarge
      refine TlbInv.largeArena inv layout descsLow tlb busy ?_ (large isLarge)
      simp only at poolSize
      simp only [divRoundUp, arenaSize, pgSize]
      omega
    · rename_i notLarge
      exact TlbInv.mallocSmall inv layout descsLow tlb busy (by omega) (small notLarge)

/-! ### `sys_free` -/

/-- `mfree_page` of the pages of an arena that is gone. -/
theorem TlbInv.mfreePage (tlb : TlbInv (usedPages arena) s w) (pages : PageInv start s.mem (usedPages arena))
    (layout : Layout start) {q : Nat} {k : Arena} {t : MemState} {live' : Nat → Option Nat}
    {arena' : Nat → Option Arena} {free' : Nat → List Nat} (isArena : arena q = some k) (positive : 0 < k.pages)
    (freed : Memory.mfreePage { s.mem with word := w } .kernel (heapAddr q) k.pages = .ok t)
    (after : HeapInv start t live' arena' free') :
    ∃ u, Tlb.mfreePage .kernel (heapAddr q) k.pages s = .ok ((), u) ∧ { u.mem with word := w } = t ∧
      TlbInv (usedPages arena') u w := by
  have run : Set.Ico q (q + k.pages) ⊆ usedPages arena := fun page mem => ⟨q, k, isArena, mem⟩
  obtain ⟨t', isFreed, pages', word⟩ := pages.mfreePage layout positive run
  rw [mfreePage_words, isFreed] at freed
  cases freed
  refine ⟨{ s with mem := t', tlb := Function.update s.tlb s.stackPage none }, ?_, rfl, ?_⟩
  · unfold Tlb.mfreePage
    rw [isFreed]
  · have pde : t'.pde = s.mem.pde := pages'.statics.pde.trans pages.statics.pde.symm
    have isUsed := pages'.used_unique after.pages rfl
    rw [isUsed]
    exact tlb.shrink pages layout isFreed pde word

/-- `sys_free` of a block of a small arena. -/
theorem TlbInv.freeSmall (inv : HeapInv start { s.mem with word := w } live arena free)
    (layout : HeapLayout start) (descsLow : 0xc0000000 ≤ start.kBlockDescs)
    (tlb : TlbInv (usedPages arena) s w) (busy : Busy live arena) {q d idx : Nat}
    (isArena : arena q = some (.small d)) (inArena : idx < blocksPerArena d)
    (isLive : live (blockAddr q d idx) ≠ none) :
    ∃ t w' arena' free',
      (do
        if ← Tlb.access (Accesses.freeBlock (heapAddr q) (blockAddr q d idx)) then
          Tlb.mfreePage .kernel (heapAddr q) 1
        else
          pure () : Tlb.TlbCall Unit) s = .ok ((), t) ∧
      HeapInv start { t.mem with word := w' } (Function.update live (blockAddr q d idx) none) arena' free' ∧
      Busy (Function.update live (blockAddr q d idx) none) arena' ∧ TlbInv (usedPages arena') t w' := by
  obtain ⟨inDescs, desc, _, _⟩ := inv.small q d isArena
  simp only at desc
  obtain ⟨m, mEq, _, given⟩ := inv.giveBlock layout isArena inArena isLive
  obtain ⟨t, arena', free', freed, after, busy'⟩ := inv.freeSmall layout busy isArena inArena isLive
  have isGiven : Accesses.gaveBlock w (heapAddr q) (blockAddr q d idx) = m := by
    unfold Accesses.gaveBlock
    rw [desc]
    exact mEq.symm
  have kept : Accesses.gaveBlock w (heapAddr q) (blockAddr q d idx) (heapAddr q) =
      descAddr start.kBlockDescs d := by
    rw [isGiven]
    exact (given.small q d isArena).desc
  have isRun := Accesses.run_freeBlock kept
  have within := Accesses.within_freeBlock inv layout (descsOn_own layout descsLow _) (arenasOn_own arena)
    isArena inArena isLive
  have pages := inv.ownPagesInv
  unfold Memory.freeSmall at freed
  simp only [desc] at freed
  rw [← mEq] at freed
  rw [isGiven] at isRun
  by_cases full : m (heapAddr q + 4) = m (descAddr start.kBlockDescs d + 4)
  · rw [if_pos full] at freed isRun
    cases drained : drainArena (heapAddr q) (m (descAddr start.kBlockDescs d + 4)) 0 m with
    | error panic =>
        rw [drained] at freed
        cases freed
    | ok m' =>
        rw [drained] at freed isRun
        obtain ⟨s₁, ok₁, tlb₁, accessed₁⟩ := tlb.access layout.layout pages within isRun
        have pages₁ := pages.setWord s₁.mem.word
        rw [← accessed₁.mem] at pages₁
        have freed₁ : Memory.mfreePage { s₁.mem with word := m' } .kernel (heapAddr q) 1 = .ok t := by
          rw [accessed₁.mem]
          exact freed
        obtain ⟨u, ok, isMem, tlb'⟩ := tlb₁.mfreePage pages₁ layout.layout isArena Nat.one_pos freed₁ after
        refine ⟨u, m', arena', free', ?_, ?_, busy', tlb'⟩
        · rw [Tlb.bind_ok ok₁]
          exact ok
        · rw [isMem]
          exact after
  · rw [if_neg full] at freed isRun
    cases freed
    obtain ⟨s₁, ok₁, tlb₁, accessed₁⟩ := tlb.access layout.layout pages within isRun
    refine ⟨s₁, m, arena', free', ?_, ?_, busy', ?_⟩
    · rw [Tlb.bind_ok ok₁]
      rfl
    · rw [accessed₁.mem]
      exact after
    · rw [pages.used_unique after.pages rfl]
      exact tlb₁

/-- `sys_free` of a live allocation never fails an `ASSERT` and never faults. -/
theorem TlbInv.sysFree (inv : HeapInv start { s.mem with word := w } live arena free)
    (layout : HeapLayout start) (descsLow : 0xc0000000 ≤ start.kBlockDescs)
    (tlb : TlbInv (usedPages arena) s w) (busy : Busy live arena) {p size : Nat} (isLive : live p = some size) :
    ∃ t w' arena' free', Tlb.sysFree p s = .ok ((), t) ∧
      HeapInv start { t.mem with word := w' } (Function.update live p none) arena' free' ∧
      Busy (Function.update live p none) arena' ∧ TlbInv (usedPages arena') t w' := by
  have kernel : s.mem.pgdirNull = true := inv.pages.statics.pgdirNull.trans layout.pgdirNull
  have notNone : live p ≠ none := by simp [isLive]
  have arenasOn := arenasOn_own arena
  unfold Tlb.sysFree
  rw [Tlb.bind_ok (show (get : Tlb.TlbCall TlbMem) s = .ok (s, s) from rfl)]
  simp only [kernel, if_true, true_and]
  -- a word of the header, read where the heap is as it was
  have header : ∀ {r : TlbMem} {q : Nat} {k : Arena} {offset : Nat}, arena q = some k → offset < 4096 →
      TlbInv (usedPages arena) r w → HeapInv start { r.mem with word := w } live arena free →
      ∃ r', Tlb.access (Prog.load (heapAddr q + offset)) r = .ok (w (heapAddr q + offset), r') ∧
        TlbInv (usedPages arena) r' w ∧ HeapInv start { r'.mem with word := w } live arena free := by
    intro r q k offset isArena small tlb' inv'
    obtain ⟨r', ok, tlb'', accessed⟩ := tlb'.access layout.layout inv'.ownPagesInv
      (Prog.within_load.mpr (arenasOn.header inv' isArena small)) (Prog.run_load _ _)
    exact ⟨r', ok, tlb'', by rw [accessed.mem]; exact inv'⟩
  rcases inv.liveIn p size isLive with ⟨q, d, idx, isArena, inArena, rfl, _⟩ | ⟨q, n, isArena, rfl, _⟩
  · obtain ⟨inDescs, desc, _, large⟩ := inv.small q d isArena
    simp only at desc large
    have high := (inv.isBlock layout isArena inArena).high
    have descNe : descAddr start.kBlockDescs d ≠ 0 := by
      have := layout.descsLow
      unfold descAddr
      omega
    have nonzero : blockAddr q d idx ≠ 0 := by
      simp only [kHeapStart] at high
      omega
    obtain ⟨s₁, ok₁, tlb₁, inv₁⟩ := header isArena (by decide : 8 < 4096) tlb inv
    obtain ⟨s₂, ok₂, tlb₂, inv₂⟩ := header isArena (by decide : 0 < 4096) tlb₁ inv₁
    rw [Nat.add_zero, desc] at ok₂
    rw [large] at ok₁
    rw [block2arena_blockAddr inArena, if_neg nonzero, if_neg (not_not.mpr high), Tlb.bind_ok ok₁,
      if_pos (.inl rfl), Tlb.bind_ok ok₂, if_neg (fun both => descNe both.1)]
    exact TlbInv.freeSmall inv₂ layout descsLow tlb₂ busy isArena inArena notNone
  · obtain ⟨⟨positive, desc, cnt, large⟩, _⟩ := inv.large q n isArena
    simp only at desc cnt large
    have high : heapAddr q + arenaSize ≥ kHeapStart := by
      unfold heapAddr
      omega
    have nonzero : heapAddr q + arenaSize ≠ 0 := by
      simp only [arenaSize]
      omega
    obtain ⟨s₁, ok₁, tlb₁, inv₁⟩ := header isArena (by decide : 8 < 4096) tlb inv
    obtain ⟨s₂, ok₂, tlb₂, inv₂⟩ := header isArena (by decide : 0 < 4096) tlb₁ inv₁
    obtain ⟨s₃, ok₃, tlb₃, inv₃⟩ := header isArena (by decide : 4 < 4096) tlb₂ inv₂
    rw [Nat.add_zero, desc] at ok₂
    rw [large] at ok₁
    rw [cnt] at ok₃
    obtain ⟨t, freed, after, busy'⟩ := inv₃.freeLarge layout busy isArena
    obtain ⟨u, ok, isMem, tlb'⟩ := tlb₃.mfreePage inv₃.ownPagesInv layout.layout isArena positive freed after
    rw [block2arena_first, if_neg nonzero, if_neg (not_not.mpr high), Tlb.bind_ok ok₁, if_pos (.inr rfl),
      Tlb.bind_ok ok₂, if_pos ⟨rfl, rfl⟩, Tlb.bind_ok ok₃]
    refine ⟨u, w, _, free, ok, ?_, busy', tlb'⟩
    rw [isMem]
    exact after

end

end ZyOs.Memory
