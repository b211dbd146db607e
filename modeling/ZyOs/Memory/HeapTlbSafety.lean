import ZyOs.Memory.HeapTlbCalls

/-!
Contract: safety of the kernel heap behind the TLB.

Owns:
- the invariant of every run in which no `sys_malloc` maps a page of which the TLB has kept an
  entry for another frame, and what follows from it;
- that `mem_init` leaves a heap to start from;
- the run that reuses the address of a freed page while its old entry is still there.
-/

namespace ZyOs.Memory

open ZyOs.Lib ZyOs.Kernel

/-! ### Runs -/

section

variable {start : MemState} {s : TlbMem} {used : Set Nat} {w : Words}

/-- What the processor does with its TLB: entries go, or come from the page tables. -/
theorem TlbInv.setTlb (tlb : TlbInv used s w) (pages : PageInv start s.mem used) (layout : Layout start)
    {entries : Nat → Option Nat} (loads : ∀ page, entries page = none ∨ entries page = s.tlb page ∨
      entries page = tableFrame s.mem page) : TlbInv used { s with tlb := entries } w := by
  obtain ⟨coherent, shown⟩ := view_congr (s := s) (t := { s with tlb := entries }) rfl (fun _ _ => rfl)
    (fun page _ => loads page) (tlb.coherent layout pages)
  exact ⟨tlb.image, coherent.entry, shown.trans tlb.shown⟩

end

/-- The heap as its accesses find it is one, and its pages are the TLB's. -/
structure TlbHeapInv (start s : TlbHeap) (arena : Nat → Option Arena) (free : Nat → List Nat) : Prop where
  inv : HeapInv start.seen.mem s.seen.mem s.live arena free
  busy : Busy s.live arena
  tlb : TlbInv (usedPages arena) s.machine s.seen.mem.word

section

variable {start s : TlbHeap} {arena : Nat → Option Arena} {free : Nat → List Nat}

theorem TlbHeapInv.of_words {t : TlbMem} {live : Nat → Option Nat} {w : Words}
    (layout : HeapLayout start.seen.mem) (descsLow : 0xc0000000 ≤ start.seen.mem.kBlockDescs)
    (inv : HeapInv start.seen.mem { t.mem with word := w } live arena free) (busy : Busy live arena)
    (tlb : TlbInv (usedPages arena) t w) : TlbHeapInv start ⟨t, live⟩ arena free where
  inv := inv.congr_own layout descsLow tlb.shown
  busy := busy
  tlb := ⟨tlb.image, tlb.entries, fun _ _ => rfl⟩

theorem PageInv.setStart {mem mem' : MemState} {used : Set Nat} (inv : PageInv mem mem' used) (m : Words) :
    PageInv { mem with word := m } mem' used := by
  obtain ⟨⟨frame, ⟨pde, poolLen, phyAddrStart, poolSize, userPool, vaddrLen, vaddrStart, descs, pgdir⟩,
    area, frameLt, frameInj, frameFresh, poolBit, pteUsed, pteFree⟩, vaddrFresh, vaddrBit⟩ := inv
  exact ⟨⟨frame, ⟨pde, poolLen, phyAddrStart, poolSize, userPool, vaddrLen, vaddrStart, descs, pgdir⟩,
    area, frameLt, frameInj, frameFresh, poolBit, pteUsed, pteFree⟩, vaddrFresh, vaddrBit⟩

theorem Layout.setWord {mem : MemState} (layout : Layout mem) (m : Words) : Layout { mem with word := m } :=
  ⟨layout.phyAligned, layout.phyLow, layout.phyHigh, layout.vaddrStart, layout.vaddrHigh, layout.pde, layout.pte⟩

theorem TlbInitial.heapLayout (initial : TlbInitial start) : HeapLayout start.seen.mem where
  layout := initial.layout.setWord _
  pgdirNull := initial.pgdirNull
  poolSize := initial.poolSize
  descsHigh := initial.descsHigh
  descsLow := Nat.lt_of_lt_of_le (by decide) initial.descsLow

/-- No page of the heap area is in use. -/
theorem ownPages_none : ownPages (usedPages fun _ => none) = imagePages := by
  rw [usedPages_none]
  ext page
  constructor
  · rintro (image | ⟨q, mem, _⟩)
    · exact image
    · exact mem.elim
  · exact .inl

theorem TlbInitial.inv (initial : TlbInitial start) :
    TlbHeapInv start start (fun _ => none) fun _ => [] := by
  obtain ⟨m, shown⟩ := initial.blockDescs
  have layout := initial.heapLayout
  have flat : HeapInitial ⟨{ start.machine.mem with word := blockDescInit m start.machine.mem.kBlockDescs },
      start.live⟩ :=
    ⟨initial.layout.setWord _, initial.pgdirNull, initial.poolSize, initial.descsHigh, layout.descsLow,
      ⟨m, rfl⟩, initial.live⟩
  have inv := flat.inv.setWord flat.heapLayout (m := start.seen.mem.word) shown (fun _ _ isArena => by cases isArena)
    fun _ _ _ mem => by cases mem
  refine ⟨⟨inv.pages.setStart start.seen.mem.word, inv.apart, inv.lists, inv.sizes, inv.small, inv.large,
    inv.freeIff, inv.liveIn⟩, ?_, initial.image, ?_, fun _ _ => rfl⟩
  · intro q d isArena
    cases isArena
  · rw [ownPages_none]
    exact initial.entries

/-- The entries fit the pages that are asked for. -/
theorem entriesFit_spec {size n : Nat} (fits : entriesFit s size = true) (asked : pagesAsked s size = n) :
    EntriesFit s.machine n := by
  intro t q ok page mem frame isEntry
  unfold entriesFit at fits
  rw [asked, ok] at fits
  simp only [List.all_eq_true, List.mem_range, Bool.or_eq_true, beq_iff_eq] at fits
  have isPage : pageOf (heapAddr q) + (page - q) = 0xc0100 + page := by
    rw [pageOf_heapAddr]
    have low := mem.1
    omega
  have entry := fits (page - q) (by have low := mem.1; have high := mem.2; omega)
  rw [isPage, isEntry] at entry
  rcases entry with none | same
  · cases none
  · exact same.symm

/-- What the next `sys_malloc` does, when it maps no page of which the TLB has kept an entry for
another frame. -/
theorem TlbHeapInv.sysMalloc (inv : TlbHeapInv start s arena free) (layout : HeapLayout start.seen.mem)
    (descsLow : 0xc0000000 ≤ start.seen.mem.kBlockDescs) {size : Nat} (fits : entriesFit s size = true) :
    TlbMalloc start.seen.mem s.live size (Tlb.sysMalloc size s.machine) := by
  have descs : s.machine.mem.kBlockDescs = start.seen.mem.kBlockDescs := inv.inv.pages.statics.kBlockDescs
  refine TlbInv.sysMalloc inv.inv layout descsLow inv.tlb inv.busy (fun isLarge => ?_) fun notLarge isEmpty => ?_
  · refine entriesFit_spec fits ?_
    unfold pagesAsked
    rw [if_pos isLarge]
  · refine entriesFit_spec fits ?_
    unfold pagesAsked
    rw [if_neg notLarge, descs]
    exact if_pos isEmpty

/-- Each step keeps the heap. -/
theorem TlbHeapInv.step (inv : TlbHeapInv start s arena free) (layout : HeapLayout start.seen.mem)
    (descsLow : 0xc0000000 ≤ start.seen.mem.kBlockDescs) {act : TlbAct} {t : TlbHeap}
    (noStale : NoStaleEntry s act) (step : TlbStep s act t) : ∃ arena' free', TlbHeapInv start t arena' free' := by
  have pages : PageInv start.seen.mem s.machine.mem (usedPages arena) := inv.inv.ownPagesInv
  cases step with
  | malloc word32 ok =>
      have result := inv.sysMalloc layout descsLow noStale
      rw [ok] at result
      cases result with
      | block _ _ after busy tlb => exact ⟨_, _, .of_words layout descsLow after busy tlb⟩
  | free isLive ok =>
      obtain ⟨t, w, arena', free', ok', after, busy, tlb⟩ :=
        TlbInv.sysFree inv.inv layout descsLow inv.tlb inv.busy isLive
      rw [ok] at ok'
      cases ok'
      exact ⟨arena', free', .of_words layout descsLow after busy tlb⟩
  | @store p size cell value t isLive inside aligned ok =>
      have fits : size ≤ usable s.seen.mem p := by
        rcases inv.inv.usable isLive with ⟨_, _, _, _, _, _, _, fits⟩ | ⟨_, _, _, _, _, fits⟩ <;> exact fits
      have own := inv.inv.live_own isLive inside.1 (by omega)
      obtain ⟨t', ok', tlb, accessed⟩ := inv.tlb.access layout.layout pages
        (Prog.within_store.mpr own) (Prog.run_store cell value _)
      rw [ok] at ok'
      cases ok'
      have after := inv.inv.store layout isLive inside.1 inside.2 value
      have sameMem := accessed.mem (Function.update s.seen.mem.word cell value)
      refine ⟨arena, free, .of_words layout descsLow ?_ inv.busy tlb⟩
      rw [sameMem]
      exact after
  | @load page frame isMapped =>
      refine ⟨arena, free, .of_words layout descsLow inv.inv inv.busy
        (inv.tlb.setTlb pages layout.layout fun other => ?_)⟩
      by_cases same : other = page
      · subst same
        rw [Function.update_self]
        exact .inr (.inr isMapped.symm)
      · exact .inr (.inl (Function.update_of_ne same _ _))
  | drop page =>
      refine ⟨arena, free, .of_words layout descsLow inv.inv inv.busy
        (inv.tlb.setTlb pages layout.layout fun other => ?_)⟩
      by_cases same : other = page
      · exact .inl (by rw [same, Function.update_self])
      · exact .inr (.inl (Function.update_of_ne same _ _))
  | loadCr3 =>
      exact ⟨arena, free, .of_words layout descsLow inv.inv inv.busy
        (inv.tlb.setTlb pages layout.layout fun _ => .inl rfl)⟩

theorem TlbReachable.inv (reachable : TlbReachable NoStaleEntry start s) :
    ∃ arena free, TlbHeapInv start s arena free := by
  obtain ⟨initial, run⟩ := reachable
  induction run with
  | refl => exact ⟨_, _, initial.inv⟩
  | tail _ step inductionHypothesis =>
      obtain ⟨arena, free, inv⟩ := inductionHypothesis
      obtain ⟨act, noStale, step⟩ := step
      exact inv.step initial.heapLayout initial.descsLow noStale step

/-- The words of the heap lie on its pages. -/
theorem TlbHeapInv.word_own (inv : TlbHeapInv start s arena free) {cell : Nat}
    (isWord : HeapWord s.seen free cell) : cell ∈ onPages pgSize (ownPages (usedPages arena)) := by
  have arenasOn := arenasOn_own arena
  rcases isWord with ⟨p, isLive, low, high⟩ | ⟨a, ⟨p, isArena, rfl⟩, low, high⟩ | ⟨d, inDescs, b, mem, low, high⟩
  · obtain ⟨size, eq⟩ := Option.ne_none_iff_exists'.mp isLive
    exact inv.inv.live_own eq low high
  · have isHeader : ∃ q k, arena q = some k ∧ block2arena p = heapAddr q := by
      rcases isArena with isLive | ⟨d, inDescs, mem⟩
      · exact inv.inv.live_arena isLive
      · obtain ⟨q, idx, isArena, inArena, rfl, _⟩ := (inv.inv.freeIff d inDescs p).mp mem
        exact ⟨q, _, isArena, block2arena_blockAddr inArena q⟩
    obtain ⟨q, k, isArena, onQ⟩ := isHeader
    rw [onQ] at low high
    obtain ⟨offset, rfl⟩ := Nat.exists_eq_add_of_le low
    simp only [arenaSize] at high
    exact arenasOn.header inv.inv isArena (by omega)
  · obtain ⟨q, idx, isArena, inArena, rfl, _⟩ := (inv.inv.freeIff d inDescs b).mp mem
    have descs : s.seen.mem.kBlockDescs = start.seen.mem.kBlockDescs := inv.inv.pages.statics.kBlockDescs
    rw [descs, (inv.inv.sizes d inDescs).1] at high
    obtain ⟨lowB, highB, _, _⟩ := blockAddr_bounds inArena q
    obtain ⟨offset, rfl⟩ := Nat.exists_eq_add_of_le (show heapAddr q ≤ cell by omega)
    exact arenasOn.header inv.inv isArena (by omega)

/-- A live block spans the size asked for. -/
theorem TlbSafe.spans {allowed : TlbHeap → TlbAct → Prop} {p size : Nat} (safe : TlbSafe allowed start s free)
    (isLive : s.live p = some size) : size ≤ usable s.seen.mem p :=
  safe.shape.size p size isLive

/-- In every run in which no `sys_malloc` maps a page of which the TLB has kept an entry for
another frame, the kernel heap is safe in every state. -/
theorem tlb_heap_safe (reachable : TlbReachable NoStaleEntry start s) :
    ∃ free, TlbSafe NoStaleEntry start s free := by
  obtain ⟨arena, free, inv⟩ := reachable.inv
  have layout := reachable.1.heapLayout
  have descsLow : 0xc0000000 ≤ start.seen.mem.kBlockDescs := reachable.1.descsLow
  have coherent := inv.tlb.coherent layout.layout inv.inv.ownPagesInv
  refine ⟨free, inv.inv.shape inv.busy, fun cell isWord => ?_, fun cell isWord other isOther same => ?_, ?_, ?_, ?_⟩
  · obtain ⟨frame, _, goes⟩ := coherent.translate (inv.word_own isWord)
    rw [goes]
    exact Option.some_ne_none _
  · obtain ⟨frame, _, goes⟩ := coherent.translate (inv.word_own isWord)
    exact coherent.translate_inj (by decide) (inv.word_own isWord) (inv.word_own isOther) goes (same ▸ goes)
  · intro size p t noStale ok
    have result := inv.sysMalloc layout descsLow noStale
    rw [ok] at result
    cases result with
    | block fresh zero _ _ _ => exact ⟨fresh, zero⟩
  · intro size stop noStale failed
    have result := inv.sysMalloc layout descsLow noStale
    rw [failed] at result
    cases result with
    | panic exhausted => exact exhausted.imp (congrArg _) (congrArg _)
  · intro p isLive
    obtain ⟨size, eq⟩ := Option.ne_none_iff_exists'.mp isLive
    obtain ⟨t, _, _, _, ok, _⟩ := TlbInv.sysFree inv.inv layout descsLow inv.tlb inv.busy eq
    exact ⟨t, ok⟩

end

/-! ### From the loader on -/

/-- `block_desc_init` leaves a heap to start from. -/
theorem tlb_blockDescInit_initial {s : TlbMem} (layout : Layout s.mem) (image : ImageMapped s.mem)
    (entries : EntriesAgree s imagePages) (pgdirNull : s.mem.pgdirNull = true)
    (poolSize : s.mem.kernelPool.poolSize < 2 ^ 31) (descsLow : 0xc0000000 ≤ s.mem.kBlockDescs)
    (descsHigh : s.mem.kBlockDescs + 24 * descCnt ≤ kHeapStart) :
    ∃ t, Tlb.access (Accesses.blockDescInit s.mem.kBlockDescs) s = .ok ((), t) ∧
      TlbInitial ⟨t, fun _ => none⟩ := by
  have tlb : TlbInv (usedPages fun _ => none) s (s.paged.view pgSize) := by
    refine ⟨image, ?_, fun _ _ => rfl⟩
    rw [ownPages_none]
    exact entries
  have pages : PageInv s.mem s.mem (usedPages fun _ => none) := by
    rw [usedPages_none]
    exact layout.pageInv
  have descsOn : Accesses.DescsOn s.mem.kBlockDescs (ownPages (usedPages fun _ => none)) := by
    intro cell low high
    simp only [kHeapStart] at descsHigh
    refine .inl ⟨?_, ?_⟩ <;>
    · simp only [pgSize]
      omega
  obtain ⟨t, ok, tlb', accessed⟩ := tlb.access layout pages (Accesses.within_blockDescInit descsOn)
    (Accesses.run_blockDescInit _ _)
  refine ⟨t, ok, ?_⟩
  obtain ⟨mem, entries', stackPage⟩ := t
  obtain ⟨w, rfl⟩ : ∃ w, mem = { s.mem with word := w } := ⟨mem.word, accessed.mem mem.word⟩
  refine ⟨layout.setWord w, pgdirNull, poolSize, descsHigh, descsLow, tlb'.image,
    fun page isImage => tlb'.entries page (.inl isImage), ⟨s.paged.view pgSize, fun cell low high => ?_⟩,
    fun _ => rfl⟩
  exact tlb'.shown (descsOn cell low high)

/-- `mem_pool_init` leaves the page tables and the running task alone. -/
theorem memPoolInit_keeps (s : MemState) (allMem : Nat) :
    tableFrame (memPoolInit s allMem) = tableFrame s ∧
      (memPoolInit s allMem).kBlockDescs = s.kBlockDescs ∧ (memPoolInit s allMem).pgdirNull = s.pgdirNull := by
  obtain ⟨word, pte, pde, kernelPool, userPool, kernelVaddr, userprogVaddr, kBlockDescs, uBlockDesc, pgdirNull⟩ := s
  refine ⟨funext fun page => ?_, ?_, ?_⟩
  · unfold tableFrame
    simp only [memPoolInit]
    exact if_congr Iff.rfl rfl rfl
  · simp only [memPoolInit]
  · simp only [memPoolInit]

/-- `mem_init` leaves a heap to start from, whatever the size of memory. -/
theorem tlb_memInit_initial {s : TlbMem} (tables : KernelTables s.mem) (image : ImageMapped s.mem)
    (entries : EntriesAgree s imagePages) (pgdirNull : s.mem.pgdirNull = true)
    (descsLow : 0xc0000000 ≤ s.mem.kBlockDescs) (descsHigh : s.mem.kBlockDescs + 24 * descCnt ≤ kHeapStart)
    (allMem : Nat) :
    ∃ t, Tlb.memInit allMem s = .ok ((), t) ∧ TlbInitial ⟨t, fun _ => none⟩ := by
  have layout := memPoolInit_layout tables allMem
  obtain ⟨table, descs, pgdir⟩ := memPoolInit_keeps s.mem allMem
  have poolSize : (memPoolInit s.mem allMem).kernelPool.poolSize < 2 ^ 31 := by
    have pages := kernelFreePages_lt allMem
    simp only [memPoolInit, pgSize]
    omega
  have modified : (modify fun s => { s with mem := memPoolInit s.mem allMem } : Tlb.TlbCall Unit) s =
      .ok ((), { s with mem := memPoolInit s.mem allMem }) := rfl
  unfold Tlb.memInit
  rw [Tlb.bind_ok modified]
  generalize memPoolInit s.mem allMem = mem at *
  have image' : ImageMapped mem := fun page low high => by
    rw [table]
    exact image page low high
  rw [← descs] at descsLow descsHigh
  rw [← pgdir] at pgdirNull
  refine tlb_blockDescInit_initial layout image' (fun page isImage frame isEntry => ?_) pgdirNull poolSize
    descsLow descsHigh
  change tableFrame mem page = some frame
  rw [table]
  exact entries page isImage frame isEntry

namespace TlbHeap

/-- The heap after a `sys_malloc` that succeeds. -/
def malloc (s : TlbHeap) (size : Nat) : TlbHeap :=
  match Tlb.sysMalloc size s.machine with
  | .ok (some p, t) => ⟨t, Function.update s.live p (some size)⟩
  | _ => s

/-- The heap after a `sys_free` that succeeds. -/
def free (s : TlbHeap) (p : Nat) : TlbHeap :=
  match Tlb.sysFree p s.machine with
  | .ok (_, t) => ⟨t, Function.update s.live p none⟩
  | _ => s

/-- The heap after CR3 has been loaded. -/
def loadCr3 (s : TlbHeap) : TlbHeap := ⟨{ s.machine with tlb := fun _ => none }, s.live⟩

/-- Whether `sys_malloc` succeeds. -/
def mallocs (s : TlbHeap) (size : Nat) : Bool :=
  match Tlb.sysMalloc size s.machine with
  | .ok (some _, _) => true
  | _ => false

/-- Whether `sys_free` of a live allocation succeeds. -/
def frees (s : TlbHeap) (p : Nat) : Bool :=
  match Tlb.sysFree p s.machine with
  | .ok _ => (s.live p).isSome
  | _ => false

variable {allowed : TlbHeap → TlbAct → Prop} {start s : TlbHeap} {size p : Nat}

theorem reach_malloc (reachable : TlbReachable allowed start s) (isAllowed : allowed s (.malloc size))
    (word32 : size < 2 ^ 32) (isOk : s.mallocs size = true) : TlbReachable allowed start (s.malloc size) := by
  refine ⟨reachable.1, reachable.2.tail ⟨.malloc size, isAllowed, ?_⟩⟩
  unfold mallocs at isOk
  unfold malloc
  rcases isRun : Tlb.sysMalloc size s.machine with stop | ⟨_ | p, t⟩
  · rw [isRun] at isOk
    cases isOk
  · rw [isRun] at isOk
    cases isOk
  · exact .malloc word32 isRun

theorem reach_free (reachable : TlbReachable allowed start s) (isAllowed : allowed s (.free p))
    (isOk : s.frees p = true) : TlbReachable allowed start (s.free p) := by
  refine ⟨reachable.1, reachable.2.tail ⟨.free p, isAllowed, ?_⟩⟩
  unfold frees at isOk
  unfold free
  rcases isRun : Tlb.sysFree p s.machine with stop | ⟨_, t⟩
  · rw [isRun] at isOk
    cases isOk
  · rw [isRun] at isOk
    obtain ⟨size, isLive⟩ := Option.isSome_iff_exists.mp isOk
    exact .free isLive isRun

theorem reach_loadCr3 (reachable : TlbReachable allowed start s) (isAllowed : allowed s .loadCr3) :
    TlbReachable allowed start s.loadCr3 :=
  ⟨reachable.1, reachable.2.tail ⟨.loadCr3, isAllowed, .loadCr3⟩⟩

end TlbHeap

/-- Memory after the loader: the first megabyte is mapped at `0xc0000000`, the TLB is empty. -/
def loadedMem : TlbMem where
  mem :=
    { word := fun _ => 0xff
      pte := fun page => if 0xc0000 ≤ page ∧ page < 0xc0100 then (page - 0xc0000) * pgSize + 7 else 0
      pde := fun _ => 7
      kernelPool := ⟨⟨0, fun _ => 0xff⟩, 0, 0⟩
      userPool := ⟨⟨0, fun _ => 0xff⟩, 0, 0⟩
      kernelVaddr := ⟨⟨0, fun _ => 0xff⟩, 0⟩
      userprogVaddr := ⟨⟨0, fun _ => 0xff⟩, 0⟩
      kBlockDescs := 0xc0008000
      uBlockDesc := 0
      pgdirNull := true }
  tlb := fun _ => none
  stackPage := 0xc009e

/-- After `mem_init` with 32 megabytes. -/
def tlbBoot : TlbHeap where
  machine :=
    match Tlb.memInit 0x2000000 loadedMem with
    | .ok (_, t) => t
    | .error _ => loadedMem
  live := fun _ => none

theorem tlbBoot_initial : TlbInitial tlbBoot := by
  have pde : ∀ idx, loadedMem.mem.pde idx % 2 = 1 := fun _ => by simp [loadedMem]
  have image : ImageMapped loadedMem.mem := by
    intro page low high
    have isPte : loadedMem.mem.pte page = (page - 0xc0000) * pgSize + 7 := if_pos ⟨low, high⟩
    have present : loadedMem.mem.pte page % 2 = 1 := by
      rw [isPte]
      simp only [pgSize]
      omega
    unfold tableFrame
    rw [if_pos ⟨pde _, present⟩, isPte]
    simp only [pgSize]
    exact congrArg some (by omega)
  have tables : KernelTables loadedMem.mem := by
    refine ⟨fun idx _ _ => pde idx, fun page low high => ?_⟩
    have isPte : loadedMem.mem.pte page = 0 := if_neg (by omega)
    rw [isPte]
  obtain ⟨t, ok, initial⟩ := tlb_memInit_initial tables image (fun _ _ _ isEntry => by cases isEntry) rfl
    (by decide) (by decide) 0x2000000
  have isBoot : tlbBoot = ⟨t, fun _ => none⟩ := by
    unfold tlbBoot
    rw [ok]
  rw [isBoot]
  exact initial

/-- Two blocks are taken and the first is given back. -/
def givenBack : TlbHeap := ((tlbBoot.malloc 2000).malloc 5000).free 0xc010000c

/-- Two more blocks: they use the address of the first page again. -/
def reuse (s : TlbHeap) : TlbHeap := (s.malloc 5000).malloc 2000

/-- The same calls with CR3 loaded in between: the TLB has forgotten the first page, and the new
blocks are whole. -/
theorem tlb_heap_safe_reloaded :
    ∃ free, TlbSafe NoStaleEntry tlbBoot (reuse givenBack.loadCr3) free ∧
      (reuse givenBack.loadCr3).live 0xc010300c = some 5000 ∧
      (reuse givenBack.loadCr3).live 0xc010000c = some 2000 := by
  have boot : TlbReachable NoStaleEntry tlbBoot tlbBoot := ⟨tlbBoot_initial, .refl⟩
  have first := TlbHeap.reach_malloc (s := tlbBoot) boot (show entriesFit _ 2000 = true by decide +kernel)
    (by decide) (by decide +kernel)
  have second := TlbHeap.reach_malloc first (show entriesFit _ 5000 = true by decide +kernel)
    (by decide) (by decide +kernel)
  have given : TlbReachable NoStaleEntry tlbBoot givenBack :=
    TlbHeap.reach_free (p := 0xc010000c) second trivial (by decide +kernel)
  have third := TlbHeap.reach_malloc (TlbHeap.reach_loadCr3 given trivial)
    (show entriesFit _ 5000 = true by decide +kernel) (by decide) (by decide +kernel)
  have fourth : TlbReachable NoStaleEntry tlbBoot (reuse givenBack.loadCr3) :=
    TlbHeap.reach_malloc third (show entriesFit _ 2000 = true by decide +kernel) (by decide) (by decide +kernel)
  obtain ⟨free, safe⟩ := tlb_heap_safe fourth
  exact ⟨free, safe, by decide +kernel, by decide +kernel⟩

/-- In one time slice the last call writes through the entry that the first block has left
behind, into the frame that by then is the third block's: the third block has lost its second
page, and both blocks start at one physical address. -/
theorem tlb_heap_stale :
    TlbReachable (fun _ _ => True) tlbBoot (reuse givenBack) ∧
      (reuse givenBack).live 0xc010300c = some 5000 ∧ (reuse givenBack).live 0xc010000c = some 2000 ∧
      usable (reuse givenBack).seen.mem 0xc010300c = 4084 ∧
      (reuse givenBack).machine.paged.translate pgSize 0xc010300c =
        (reuse givenBack).machine.paged.translate pgSize 0xc010000c ∧
      ¬ ∃ free, TlbSafe (fun _ _ => True) tlbBoot (reuse givenBack) free := by
  have boot : TlbReachable (fun _ _ => True) tlbBoot tlbBoot := ⟨tlbBoot_initial, .refl⟩
  have two : TlbReachable (fun _ _ => True) tlbBoot ((tlbBoot.malloc 2000).malloc 5000) :=
    TlbHeap.reach_malloc (TlbHeap.reach_malloc boot trivial (by decide) (by decide +kernel)) trivial
      (by decide) (by decide +kernel)
  have given : TlbReachable (fun _ _ => True) tlbBoot givenBack :=
    TlbHeap.reach_free two trivial (by decide +kernel)
  have again : TlbReachable (fun _ _ => True) tlbBoot (reuse givenBack) :=
    TlbHeap.reach_malloc (TlbHeap.reach_malloc given trivial (by decide) (by decide +kernel)) trivial
      (by decide) (by decide +kernel)
  have isLive : (reuse givenBack).live 0xc010300c = some 5000 := by decide +kernel
  have short : usable (reuse givenBack).seen.mem 0xc010300c = 4084 := by decide +kernel
  refine ⟨again, isLive, by decide +kernel, short, by decide +kernel, ?_⟩
  rintro ⟨free, safe⟩
  have long := safe.spans isLive
  rw [short] at long
  exact absurd long (by decide)

end ZyOs.Memory
