import ZyOs.Memory.PageDemand
import ZyOs.Memory.Heap

/-!
Contract: the failure paths of the page layer, with `palloc` returning `NULL` when
its pool has no frame left.

`palloc` and its callers are written for that result, but `bitmap_scan` stops before
it. Here the branches are followed as they are written.

Owns:
- `malloc_page`, `get_a_page`, `get_a_page_without_opvaddrbitmap` and `get_user_pages`
  with that `palloc`, and the locks of the pools as the running thread sees them;
- what each of them leaves behind when it fails.

`get_user_pages` does not look at the result of `malloc_page`: the `ASSERT` of
`memset` on its destination stops the kernel, as every other failed `ASSERT` does.

A thread that has to wait in `lock_acquire` goes on in the state `woken` in which
it takes the lock; what it leaves behind is compared with that state.
-/

namespace ZyOs.Memory.Exhaustion

open ZyOs.Lib ZyOs.Kernel

/-! ### The calls -/

/-- A lock that is held: by whom, and `holder_repeat_nr - 1`. -/
structure Holding where
  holder : Nat
  nested : Nat
deriving DecidableEq

/-- Memory with the locks of the two pools. -/
structure LockedMem where
  mem : MemState
  kernelLock : Option Holding
  userLock : Option Holding

def LockedMem.lock (s : LockedMem) : PoolFlags → Option Holding
  | .kernel => s.kernelLock
  | .user => s.userLock

def LockedMem.setLock (s : LockedMem) (pf : PoolFlags) (held : Option Holding) : LockedMem :=
  match pf with
  | .kernel => { s with kernelLock := held }
  | .user => { s with userLock := held }

/-- Why a call does not come to an end: an `ASSERT`, the `ASSERT` on `bit_idx`, the
`PANIC` of `get_a_page`, or the `ASSERT` of `memset` on `NULL`. -/
inductive Stop where
  | panic (panic : MemPanic)
  | bitIdx
  | notAllowed
  | memsetNull
deriving DecidableEq

/-- The state in which `lock_acquire` takes the lock: that of the call, or `woken`,
with the lock free, when another thread holds it. -/
def LockedMem.atLock (cur : Nat) (pf : PoolFlags) (s woken : LockedMem) : LockedMem :=
  match s.lock pf with
  | none => s
  | some held => if held.holder = cur then s else woken.setLock pf none

/-- `lock_acquire` by the running thread, on a lock that is free or its own. -/
def lockAcquire (cur : Nat) : Option Holding → Holding
  | none => ⟨cur, 0⟩
  | some held => { held with nested := held.nested + 1 }

/-- `lock_release` by the holder. -/
def lockRelease : Option Holding → Option Holding
  | none => none
  | some held => if held.nested = 0 then none else some { held with nested := held.nested - 1 }

/-- `palloc`. -/
def palloc (s : MemState) (pf : PoolFlags) : MemState × Option Nat :=
  match firstClear (s.pool pf).poolBitmap with
  | none => (s, none)
  | some bitIdx => (s.setPoolBitmap pf (bitmapSet (s.pool pf).poolBitmap bitIdx true),
      some (bitIdx * pgSize + (s.pool pf).phyAddrStart))

/-- `page_table_add`, which does not look at the result of `palloc`. -/
def pageTableAdd (s : MemState) (vaddr phyaddr : Nat) : Except MemPanic MemState :=
  if s.pde (pdeIdx vaddr) % 2 = 1 then
    if s.pte (pageOf vaddr) % 2 = 1 then
      .error .pteRepeat
    else
      .ok { s with pte := Function.update s.pte (pageOf vaddr) (pteOf phyaddr) }
  else
    let (s, pdePhyaddr) := palloc s .kernel
    let cleared := fun page => if pdeIdx (page * pgSize) = pdeIdx vaddr then 0 else s.pte page
    .ok { s with
      pde := Function.update s.pde (pdeIdx vaddr) (pteOf (pdePhyaddr.getD 0))
      pte := Function.update cleared (pageOf vaddr) (pteOf phyaddr) }

/-- The loop of `malloc_page`: whether it went through to the end. -/
def mapPages (pf : PoolFlags) : Nat → MemState → Nat → Except MemPanic (MemState × Bool)
  | 0, s, _ => .ok (s, true)
  | cnt + 1, s, vaddr =>
      match palloc s pf with
      | (s, none) => .ok (s, false)
      | (s, some pagePhyaddr) =>
          match pageTableAdd s vaddr pagePhyaddr with
          | .error panic => .error panic
          | .ok s => mapPages pf cnt s (vaddr + pgSize)

/-- `malloc_page`. -/
def mallocPage (s : MemState) (pf : PoolFlags) (pgCnt : Nat) : Except MemPanic (MemState × Option Nat) :=
  if pgCnt > 0 ∧ pgCnt < 3840 then
    match vaddrGet s pf pgCnt with
    | .error panic => .error panic
    | .ok (s, none) => .ok (s, none)
    | .ok (s, some vaddrStart) =>
        match mapPages pf pgCnt s vaddrStart with
        | .error panic => .error panic
        | .ok (s, done) => .ok (s, if done then some vaddrStart else none)
  else
    .error .mallocPageCnt

/-- `malloc_page`, called with the locks as they are. -/
def mallocPageCall (s : LockedMem) (pf : PoolFlags) (pgCnt : Nat) : Except Stop (LockedMem × Option Nat) :=
  match mallocPage s.mem pf pgCnt with
  | .error panic => .error (.panic panic)
  | .ok (mem, vaddr) => .ok ({ s with mem := mem }, vaddr)

/-- `get_user_pages`. -/
def getUserPages (cur : Nat) (s woken : LockedMem) (pgCnt : Nat) : Except Stop (LockedMem × Option Nat) :=
  let s := s.atLock cur .user woken
  let held := lockAcquire cur s.userLock
  match mallocPage s.mem .user pgCnt with
  | .error panic => .error (.panic panic)
  | .ok (_, none) => .error .memsetNull
  | .ok (mem, some vaddr) =>
      let mem := { mem with word := memsetZero mem.word vaddr (pgCnt * pgSize) }
      .ok ({ s with mem := mem, userLock := lockRelease (some held) }, some vaddr)

/-- The bit of an address; `bit_idx` is an `int32_t`. -/
def bitIdxOf (mem : MemState) (pf : PoolFlags) (vaddr : Nat) : Nat :=
  (vaddr + 2 ^ 32 - (mem.vaddr pf).vaddrStart) % 2 ^ 32 / pgSize

/-- The end of `get_a_page` and of `get_a_page_without_opvaddrbitmap`. -/
def mapOnePage (s : LockedMem) (pf : PoolFlags) (vaddr : Nat) (mem : MemState) (phyaddr : Nat) :
    Except Stop (LockedMem × Option Nat) :=
  match pageTableAdd mem vaddr phyaddr with
  | .error panic => .error (.panic panic)
  | .ok mem => .ok ({ s with mem := mem }.setLock pf (lockRelease (s.lock pf)), some vaddr)

/-- `get_a_page`. -/
def getAPage (cur : Nat) (s woken : LockedMem) (pf : PoolFlags) (vaddr : Nat) :
    Except Stop (LockedMem × Option Nat) :=
  let s := s.atLock cur pf woken
  let s := s.setLock pf (some (lockAcquire cur (s.lock pf)))
  if (s.mem.pgdirNull = false ∧ pf = .user) ∨ (s.mem.pgdirNull = true ∧ pf = .kernel) then
    let bitIdx := bitIdxOf s.mem pf vaddr
    if bitIdx > 0 then
      let mem := s.mem.setVaddrBitmap pf (bitmapSet (s.mem.vaddr pf).vaddrBitmap bitIdx true)
      match palloc mem pf with
      | (mem, none) => .ok ({ s with mem := mem }, none)
      | (mem, some phyaddr) => mapOnePage s pf vaddr mem phyaddr
    else
      .error .bitIdx
  else
    .error .notAllowed

/-- `get_a_page_without_opvaddrbitmap`. -/
def getAPageWithoutOpvaddrbitmap (cur : Nat) (s woken : LockedMem) (pf : PoolFlags) (vaddr : Nat) :
    Except Stop (LockedMem × Option Nat) :=
  let s := s.atLock cur pf woken
  let s := s.setLock pf (some (lockAcquire cur (s.lock pf)))
  match palloc s.mem pf with
  | (mem, none) => .ok ({ s with mem := mem }.setLock pf (lockRelease (s.lock pf)), none)
  | (mem, some phyaddr) => mapOnePage s pf vaddr mem phyaddr

/-! ### What is to be restored -/

/-- The bitmaps, the page tables and the locks are the same. -/
structure Unchanged (s t : LockedMem) : Prop where
  pool : ∀ pf, (t.mem.pool pf).poolBitmap = (s.mem.pool pf).poolBitmap
  vaddr : ∀ pf, (t.mem.vaddr pf).vaddrBitmap = (s.mem.vaddr pf).vaddrBitmap
  pde : t.mem.pde = s.mem.pde
  pte : t.mem.pte = s.mem.pte
  lock : ∀ pf, t.lock pf = s.lock pf

/-- A call that returns `NULL` leaves everything as it was. -/
def Restores (s : LockedMem) (result : Except Stop (LockedMem × Option Nat)) : Prop :=
  ∀ t, result = .ok (t, none) → Unchanged s t

/-! ### The conditions -/

/-- How many page tables are frames of the pool itself. -/
def ownTables (pf : PoolFlags) (tables : Nat) : Nat :=
  match pf with
  | .kernel => tables
  | .user => 0

/-- The pool has no frame for a page of the run: `k` pages are mapped before. -/
def Exhausts (s : MemState) (pf : PoolFlags) (vaddr cnt : Nat) : Prop :=
  ∃ k < cnt, Unmapped s.pde s.pte vaddr k ∧
    freeFrames s pf ≤ k + ownTables pf (missingTables s.pde vaddr k)

/-- `malloc_page` finds a run of addresses, and has too few frames for it. -/
def RunsOut (s : MemState) (pf : PoolFlags) (pgCnt : Nat) : Prop :=
  (0 < pgCnt ∧ pgCnt < 3840) ∧ ∃ start, FirstRun (s.vaddr pf).vaddrBitmap pgCnt start ∧
    BelowStack pf (vaddrAt s pf start) ∧ Exhausts s pf (vaddrAt s pf start) pgCnt

/-- `malloc_page` finds no run of addresses. -/
def NoRun (s : MemState) (pf : PoolFlags) (pgCnt : Nat) : Prop :=
  (0 < pgCnt ∧ pgCnt < 3840) ∧ 0 < clearBits (s.vaddr pf).vaddrBitmap ∧
    ∀ start, ¬ FirstRun (s.vaddr pf).vaddrBitmap pgCnt start

/-- What `get_a_page` accepts. -/
def Accepts (s : MemState) (pf : PoolFlags) (vaddr : Nat) : Prop :=
  ((s.pgdirNull = false ∧ pf = .user) ∨ (s.pgdirNull = true ∧ pf = .kernel)) ∧ 0 < bitIdxOf s pf vaddr

variable {s t : MemState} {pf : PoolFlags} {vaddr phyaddr cnt pgCnt cur : Nat}

/-! ### The loop -/

theorem palloc_took (enough : 0 < freeFrames s pf) :
    ∃ t frame, palloc s pf = (t, some frame) ∧ Took pf s t := by
  obtain ⟨bit, found⟩ := clearBits_pos_iff.mp enough
  unfold palloc
  rw [found]
  exact ⟨_, _, rfl, took_setPoolBitmap found⟩

theorem palloc_none (empty : freeFrames s pf = 0) : palloc s pf = (s, none) := by
  unfold palloc
  cases found : firstClear (s.pool pf).poolBitmap with
  | none => rfl
  | some bit =>
      have positive := clearBits_pos_iff.mpr ⟨bit, found⟩
      unfold freeFrames at empty
      omega

/-- As long as `bitmap_scan` does not stop it, `palloc` is what it was. -/
theorem palloc_of_ok {frame : Option Nat} (isRun : Memory.palloc s pf = .ok (t, frame)) :
    palloc s pf = (t, frame) := by
  rw [palloc_eq] at isRun
  unfold palloc
  cases found : firstClear (s.pool pf).poolBitmap with
  | none =>
      rw [found] at isRun
      cases isRun
  | some bit =>
      rw [found] at isRun
      cases isRun
      rfl

theorem pageTableAdd_of_ok (isRun : Memory.pageTableAdd s vaddr phyaddr = .ok t) :
    pageTableAdd s vaddr phyaddr = .ok t := by
  unfold pageTableAdd
  by_cases present : s.pde (pdeIdx vaddr) % 2 = 1
  · rw [if_pos present]
    unfold Memory.pageTableAdd at isRun
    rwa [if_pos present] at isRun
  · rw [if_neg present]
    rw [pageTableAdd_absent present] at isRun
    cases isTable : Memory.palloc s .kernel with
    | error panic =>
        rw [isTable] at isRun
        cases isRun
    | ok result =>
        obtain ⟨s₁, table⟩ := result
        rw [isTable] at isRun
        rw [palloc_of_ok isTable]
        exact isRun

theorem mapPages_of_ok {done : Bool} (isRun : Memory.mapPages pf cnt s vaddr = .ok (t, done)) :
    mapPages pf cnt s vaddr = .ok (t, done) := by
  induction cnt generalizing s vaddr with
  | zero => exact isRun
  | succ cnt inductionHypothesis =>
      unfold Memory.mapPages at isRun
      unfold mapPages
      split at isRun
      · cases isRun
      · rename_i s₁ isAlloc
        rw [palloc_of_ok isAlloc]
        exact isRun
      · rename_i s₁ frame isAlloc
        rw [palloc_of_ok isAlloc]
        dsimp only
        split at isRun
        · cases isRun
        · rename_i s₂ isAdded
          rw [pageTableAdd_of_ok isAdded]
          exact inductionHypothesis isRun

/-- Where `malloc_page` returns, it returns the same here. -/
theorem mallocPage_of_ok {result : Option Nat} (isRun : Memory.mallocPage s pf pgCnt = .ok (t, result)) :
    mallocPage s pf pgCnt = .ok (t, result) := by
  unfold Memory.mallocPage at isRun
  unfold mallocPage
  by_cases bounds : pgCnt > 0 ∧ pgCnt < 3840
  swap
  · rw [if_neg bounds] at isRun
    cases isRun
  rw [if_pos bounds] at isRun ⊢
  revert isRun
  cases vaddrGet s pf pgCnt with
  | error panic => exact id
  | ok got =>
      obtain ⟨s₁, found⟩ := got
      cases found with
      | none => exact id
      | some start =>
          intro isRun
          dsimp only at isRun ⊢
          cases isMapped : Memory.mapPages pf pgCnt s₁ start with
          | error panic =>
              rw [isMapped] at isRun
              cases isRun
          | ok mapped =>
              obtain ⟨s₂, done⟩ := mapped
              rw [isMapped] at isRun
              rw [mapPages_of_ok isMapped]
              exact isRun

/-- A frame for a page table is taken if there is one. -/
theorem palloc_atMost (s : MemState) :
    ∃ t frame, palloc s .kernel = (t, frame) ∧ freeFrames t .kernel = freeFrames s .kernel - 1 ∧
      freeFrames t .user = freeFrames s .user ∧ t.pde = s.pde ∧ t.pte = s.pte := by
  by_cases enough : 0 < freeFrames s .kernel
  · obtain ⟨t, frame, isAlloc, took⟩ := palloc_took enough
    have frames := took.frames
    exact ⟨t, some frame, isAlloc, by omega, took.others .user (by decide), took.pde, took.pte⟩
  · rw [palloc_none (Nat.eq_zero_of_not_pos enough)]
    exact ⟨s, none, rfl, by omega, rfl, rfl, rfl⟩

/-- An exhausted pool at the first page, or behind it. -/
theorem exhausts_succ (enough : 0 < freeFrames s pf) :
    Exhausts s pf vaddr (cnt + 1) ↔ ∃ k < cnt, Unmapped s.pde s.pte vaddr (k + 1) ∧
      freeFrames s pf ≤ k + 1 + ownTables pf (missingTables s.pde vaddr (k + 1)) := by
  constructor
  · rintro ⟨k, inside, unmapped, few⟩
    cases k with
    | zero =>
        rw [missingTables_zero] at few
        cases pf <;> simp only [ownTables] at few <;> omega
    | succ k => exact ⟨k, Nat.lt_of_succ_lt_succ inside, unmapped, few⟩
  · rintro ⟨k, inside, unmapped, few⟩
    exact ⟨k + 1, Nat.succ_lt_succ inside, unmapped, few⟩

/-- The loop stops early exactly when the pool is exhausted. -/
theorem mapPages_stops_iff (pf : PoolFlags) (cnt : Nat) (s : MemState) (vaddr : Nat) :
    (∃ t, mapPages pf cnt s vaddr = .ok (t, false)) ↔ Exhausts s pf vaddr cnt := by
  induction cnt generalizing s vaddr with
  | zero =>
      refine iff_of_false (fun ⟨_, isRun⟩ => by cases isRun) fun ⟨k, inside, _⟩ => ?_
      exact Nat.not_lt_zero k inside
  | succ cnt inductionHypothesis =>
      unfold mapPages
      by_cases enough : 0 < freeFrames s pf
      swap
      · have empty := Nat.eq_zero_of_not_pos enough
        rw [palloc_none empty]
        exact iff_of_true ⟨s, rfl⟩ ⟨0, Nat.succ_pos cnt, unmapped_zero _ _ _, by rw [empty]; exact Nat.zero_le _⟩
      obtain ⟨t, frame, isAlloc, took⟩ := palloc_took enough
      have frames := took.frames
      rw [isAlloc, exhausts_succ enough]
      dsimp only
      unfold pageTableAdd
      by_cases present : s.pde (pdeIdx vaddr) % 2 = 1
      · rw [if_pos (by rwa [took.pde])]
        by_cases repeated : s.pte (pageOf vaddr) % 2 = 1
        · rw [if_pos (by rwa [took.pte])]
          refine iff_of_false (fun ⟨_, isRun⟩ => by cases isRun) fun ⟨k, _, unmapped, _⟩ => ?_
          exact (unmapped_succ.mp unmapped).1 present repeated
        · rw [if_neg (by rwa [took.pte])]
          dsimp only
          rw [inductionHypothesis]
          unfold Exhausts
          refine exists_congr fun k => and_congr_right fun _ => and_congr ?_ ?_
          · dsimp only
            rw [unmapped_update_pte, took.pde, took.pte, unmapped_succ]
            simp only [present, repeated, not_false_eq_true, implies_true, true_and]
          · dsimp only
            rw [missingTables_present present, took.pde]
            show freeFrames t pf ≤ _ ↔ _
            omega
      · rw [if_neg (by rwa [took.pde])]
        obtain ⟨t', table, isTable, kernelFrames, userFrames, samePde, samePte⟩ := palloc_atMost t
        rw [isTable]
        dsimp only
        rw [inductionHypothesis]
        unfold Exhausts
        refine exists_congr fun k => and_congr_right fun _ => and_congr ?_ ?_
        · dsimp only
          rw [unmapped_update_pte, samePde, samePte, took.pde, took.pte, unmapped_new_table present,
            unmapped_succ]
          simp only [present, false_implies, true_and]
        · dsimp only
          rw [missingTables_absent present (pteOf_present (table.getD 0)), samePde, took.pde]
          show freeFrames t' pf ≤ _ ↔ _
          cases pf with
          | kernel =>
              simp only [ownTables]
              omega
          | user =>
              simp only [ownTables]
              omega

/-! ### `malloc_page` -/

theorem palloc_vaddr {frame : Option Nat} (isRun : palloc s pf = (t, frame)) (other : PoolFlags) :
    t.vaddr other = s.vaddr other := by
  unfold palloc at isRun
  split at isRun
  · cases isRun
    rfl
  · cases isRun
    cases pf <;> cases other <;> rfl

theorem pageTableAdd_vaddr (isRun : pageTableAdd s vaddr phyaddr = .ok t) (other : PoolFlags) :
    t.vaddr other = s.vaddr other := by
  unfold pageTableAdd at isRun
  split at isRun
  · split at isRun
    · cases isRun
    · cases isRun
      cases other <;> rfl
  · cases isTable : palloc s .kernel with
    | mk s₁ table =>
        have same := palloc_vaddr isTable other
        rw [isTable] at isRun
        cases isRun
        cases other <;> exact same

/-- The loop does not touch the bitmaps of addresses. -/
theorem mapPages_vaddr {done : Bool} (isRun : mapPages pf cnt s vaddr = .ok (t, done)) (other : PoolFlags) :
    t.vaddr other = s.vaddr other := by
  induction cnt generalizing s vaddr with
  | zero =>
      cases isRun
      rfl
  | succ cnt inductionHypothesis =>
      unfold mapPages at isRun
      split at isRun
      · rename_i s₁ isAlloc
        cases isRun
        exact palloc_vaddr isAlloc other
      · rename_i s₁ frame isAlloc
        split at isRun
        · cases isRun
        · rename_i s₂ isAdded
          rw [inductionHypothesis isRun, pageTableAdd_vaddr isAdded, palloc_vaddr isAlloc]

theorem vaddrBitmap_set (s : MemState) (pf : PoolFlags) (btmp : Bitmap) :
    ((s.setVaddrBitmap pf btmp).vaddr pf).vaddrBitmap = btmp := by
  cases pf <;> rfl

theorem exhausts_set (s : MemState) (pf : PoolFlags) (btmp : Bitmap) (vaddr cnt : Nat) :
    Exhausts (s.setVaddrBitmap pf btmp) pf vaddr cnt ↔ Exhausts s pf vaddr cnt := by
  unfold Exhausts
  rw [pde_setVaddrBitmap, pte_setVaddrBitmap, freeFrames_setVaddrBitmap]

/-- Without a run of addresses nothing happens. -/
theorem mallocPage_noRun (noRun : NoRun s pf pgCnt) : mallocPage s pf pgCnt = .ok (s, none) := by
  obtain ⟨bounds, someClear, none⟩ := noRun
  unfold mallocPage
  rw [if_pos bounds]
  rcases scan_cases (s.vaddr pf).vaddrBitmap bounds.1 with
    ⟨_, noneClear⟩ | ⟨scanned, _, _⟩ | ⟨start, _, _, first⟩
  · omega
  · unfold vaddrGet
    rw [scanned]
    rfl
  · exact absurd first (none start)

/-- With too few frames `malloc_page` returns `NULL`, and the addresses stay taken. -/
theorem mallocPage_runsOut (runsOut : RunsOut s pf pgCnt) :
    ∃ t, mallocPage s pf pgCnt = .ok (t, none) ∧ (t.vaddr pf).vaddrBitmap ≠ (s.vaddr pf).vaddrBitmap := by
  obtain ⟨bounds, start, first, below, exhausts⟩ := runsOut
  unfold mallocPage
  rw [if_pos bounds]
  rcases scan_cases (s.vaddr pf).vaddrBitmap bounds.1 with
    ⟨_, noneClear⟩ | ⟨_, _, none⟩ | ⟨other, scanned, _, isFirst⟩
  · have positive := first.someClear bounds.1
    omega
  · exact absurd first (none start)
  · rw [isFirst.unique first] at scanned
    have notAbove : ¬ (pf = .user ∧ ¬ vaddrAt s pf start < 0xc0000000 - pgSize) :=
      fun above => above.2 (below above.1)
    rw [vaddrGet_found scanned, if_neg notAbove]
    dsimp only
    obtain ⟨t, isMapped⟩ := (mapPages_stops_iff pf pgCnt _ (vaddrAt s pf start)).mpr
      ((exhausts_set s pf (bitmapSetRun (s.vaddr pf).vaddrBitmap start true pgCnt) _ _).mpr exhausts)
    rw [isMapped]
    refine ⟨t, rfl, fun same => ?_⟩
    rw [mapPages_vaddr isMapped, vaddrBitmap_set] at same
    have isClear := first.1.2 start (Nat.le_refl _) (by omega)
    rw [← same, bitmapScanTest_bitmapSetRun, if_pos ⟨Nat.le_refl _, by omega⟩] at isClear
    cases isClear

/-- There is no other way for `malloc_page` to return `NULL`. -/
theorem mallocPage_null (isRun : mallocPage s pf pgCnt = .ok (t, none)) :
    (NoRun s pf pgCnt ∧ t = s) ∨ RunsOut s pf pgCnt := by
  unfold mallocPage at isRun
  split at isRun
  swap
  · cases isRun
  rename_i bounds
  rcases scan_cases (s.vaddr pf).vaddrBitmap bounds.1 with
    ⟨scanned, _⟩ | ⟨scanned, someClear, none⟩ | ⟨start, scanned, _, first⟩
  · unfold vaddrGet at isRun
    rw [scanned] at isRun
    cases isRun
  · unfold vaddrGet at isRun
    rw [scanned] at isRun
    cases isRun
    exact .inl ⟨⟨bounds, someClear, none⟩, rfl⟩
  · right
    rw [vaddrGet_found scanned] at isRun
    by_cases above : pf = .user ∧ ¬ vaddrAt s pf start < 0xc0000000 - pgSize
    · rw [if_pos above] at isRun
      cases isRun
    rw [if_neg above] at isRun
    dsimp only at isRun
    split at isRun
    · cases isRun
    · rename_i t' done isMapped
      cases done with
      | true => cases isRun
      | false =>
          refine ⟨bounds, start, first, fun isUser => not_not.mp fun notBelow => above ⟨isUser, notBelow⟩, ?_⟩
          exact (exhausts_set s pf _ _ _).mp ((mapPages_stops_iff pf pgCnt _ _).mp ⟨t', isMapped⟩)

/-! ### Locks -/

theorem mem_setLock (s : LockedMem) (pf : PoolFlags) (held : Option Holding) : (s.setLock pf held).mem = s.mem := by
  cases pf <;> rfl

theorem lock_setLock_self (s : LockedMem) (pf : PoolFlags) (held : Option Holding) :
    (s.setLock pf held).lock pf = held := by
  cases pf <;> rfl

/-- To acquire a lock is to change it. -/
theorem lockAcquire_ne (cur : Nat) (held : Option Holding) : some (lockAcquire cur held) ≠ held := by
  cases held with
  | none => exact Option.some_ne_none _
  | some h =>
      intro same
      exact Nat.succ_ne_self _ (congrArg Holding.nested (Option.some.inj same))

/-- To release it is to change it back. -/
theorem lockRelease_lockAcquire (cur : Nat) (held : Option Holding) :
    lockRelease (some (lockAcquire cur held)) = held := by
  cases held with
  | none => rfl
  | some h =>
      show (if h.nested + 1 = 0 then none else some ⟨h.holder, h.nested + 1 - 1⟩) = some h
      rw [if_neg (Nat.succ_ne_zero _), Nat.add_sub_cancel]

/-! ### The four functions -/

theorem mallocPage_restores_iff (s : LockedMem) (pf : PoolFlags) (pgCnt : Nat) :
    Restores s (mallocPageCall s pf pgCnt) ↔ ¬ RunsOut s.mem pf pgCnt := by
  constructor
  · intro restores runsOut
    obtain ⟨t, isRun, changed⟩ := mallocPage_runsOut runsOut
    have call : mallocPageCall s pf pgCnt = .ok ({ s with mem := t }, none) := by
      unfold mallocPageCall
      rw [isRun]
    exact changed ((restores _ call).vaddr pf)
  · intro enough t isCall
    unfold mallocPageCall at isCall
    split at isCall
    · cases isCall
    · rename_i mem result isRun
      cases isCall
      rcases mallocPage_null isRun with ⟨_, rfl⟩ | runsOut
      · exact ⟨fun _ => rfl, fun _ => rfl, rfl, rfl, fun _ => rfl⟩
      · exact absurd runsOut enough

/-- It never returns `NULL`. -/
theorem getUserPages_restores (cur : Nat) (s woken : LockedMem) (pgCnt : Nat) :
    Restores (s.atLock cur .user woken) (getUserPages cur s woken pgCnt) := by
  intro t isCall
  unfold getUserPages at isCall
  dsimp only at isCall
  split at isCall <;> cases isCall

/-- A page that is mapped is returned. -/
theorem mapOnePage_returns {t : LockedMem} {s : LockedMem} {mem : MemState} {result : Option Nat}
    (isRun : mapOnePage s pf vaddr mem phyaddr = .ok (t, result)) : result ≠ none := by
  unfold mapOnePage at isRun
  split at isRun
  · cases isRun
  · cases isRun
    exact Option.some_ne_none _

theorem getAPage_restores_iff (cur : Nat) (s woken : LockedMem) (pf : PoolFlags) (vaddr : Nat) :
    Restores (s.atLock cur pf woken) (getAPage cur s woken pf vaddr) ↔
      ¬ (Accepts (s.atLock cur pf woken).mem pf vaddr ∧
        freeFrames (s.atLock cur pf woken).mem pf = 0) := by
  unfold getAPage
  dsimp only
  generalize s.atLock cur pf woken = s₁
  rw [mem_setLock]
  constructor
  · rintro restores ⟨⟨allowed, isBit⟩, empty⟩
    rw [if_pos allowed, if_pos isBit, palloc_none (by rw [freeFrames_setVaddrBitmap, empty])] at restores
    have same := (restores _ rfl).lock pf
    -- the lock is not released on this path
    refine lockAcquire_ne cur (s₁.lock pf) (Eq.trans ?_ same)
    cases pf <;> rfl
  · intro enough t isCall
    exfalso
    split at isCall
    swap
    · cases isCall
    rename_i allowed
    split at isCall
    swap
    · cases isCall
    rename_i isBit
    by_cases empty : freeFrames s₁.mem pf = 0
    · exact enough ⟨⟨allowed, isBit⟩, empty⟩
    · obtain ⟨mem, frame, isAlloc, _⟩ := @palloc_took (s₁.mem.setVaddrBitmap pf
        (bitmapSet (s₁.mem.vaddr pf).vaddrBitmap (bitIdxOf s₁.mem pf vaddr) true)) pf
        (by rw [freeFrames_setVaddrBitmap]; exact Nat.pos_of_ne_zero empty)
      rw [isAlloc] at isCall
      exact mapOnePage_returns isCall rfl

/-- The sibling without the bitmap releases the lock. -/
theorem getAPageWithoutOpvaddrbitmap_restores (cur : Nat) (s woken : LockedMem) (pf : PoolFlags) (vaddr : Nat) :
    Restores (s.atLock cur pf woken) (getAPageWithoutOpvaddrbitmap cur s woken pf vaddr) := by
  intro t isCall
  unfold getAPageWithoutOpvaddrbitmap at isCall
  dsimp only at isCall
  generalize s.atLock cur pf woken = s₁ at isCall ⊢
  rw [mem_setLock, lock_setLock_self, lockRelease_lockAcquire] at isCall
  by_cases enough : 0 < freeFrames s₁.mem pf
  · obtain ⟨mem, frame, isAlloc, _⟩ := palloc_took enough
    rw [isAlloc] at isCall
    exact absurd rfl (mapOnePage_returns isCall)
  · rw [palloc_none (Nat.eq_zero_of_not_pos enough)] at isCall
    cases isCall
    cases pf <;>
      exact ⟨fun _ => rfl, fun _ => rfl, rfl, rfl, fun other => by cases other <;> rfl⟩

/-- When the functions that give out pages return `NULL`, they leave everything as
they found it exactly in these cases; `get_user_pages` does not return it. -/
theorem page_failures_restore_iff (cur : Nat) (s woken : LockedMem) :
    (∀ pf pgCnt, Restores s (mallocPageCall s pf pgCnt) ↔ ¬ RunsOut s.mem pf pgCnt) ∧
      (∀ pf vaddr, Restores (s.atLock cur pf woken) (getAPage cur s woken pf vaddr) ↔
        ¬ (Accepts (s.atLock cur pf woken).mem pf vaddr ∧
          freeFrames (s.atLock cur pf woken).mem pf = 0)) ∧
      (∀ pf vaddr, Restores (s.atLock cur pf woken) (getAPageWithoutOpvaddrbitmap cur s woken pf vaddr)) ∧
      ∀ pgCnt, Restores (s.atLock cur .user woken) (getUserPages cur s woken pgCnt) :=
  ⟨mallocPage_restores_iff s, getAPage_restores_iff cur s woken,
    getAPageWithoutOpvaddrbitmap_restores cur s woken, getUserPages_restores cur s woken⟩

/-- Memory whose kernel pool has the frames of `frames` left. -/
def shortMem (frames : Byte) : LockedMem where
  mem :=
    { word := fun _ => 0
      pte := fun _ => 0
      pde := fun _ => 7
      kernelPool := ⟨⟨1, fun _ => frames⟩, 0x200000, 0x8000⟩
      userPool := ⟨⟨1, fun _ => 0⟩, 0x208000, 0x8000⟩
      kernelVaddr := ⟨⟨1, fun _ => 0⟩, kHeapStart⟩
      userprogVaddr := ⟨⟨0, fun _ => 0⟩, 0⟩
      kBlockDescs := 0xc0008000
      uBlockDesc := 0
      pgdirNull := true }
  kernelLock := none
  userLock := none

/-- With one frame left, `malloc_page` of two pages keeps it; with none left,
`get_a_page` keeps the lock. -/
theorem page_failures_leave_residue :
    ¬ Restores (shortMem 0x7f) (mallocPageCall (shortMem 0x7f) .kernel 2) ∧
      ¬ Restores (shortMem 0xff) (getAPage 1 (shortMem 0xff) (shortMem 0xff) .kernel 0xc0101000) := by
  constructor
  · rw [mallocPage_restores_iff, not_not]
    have oneLeft : freeFrames (shortMem 0x7f).mem .kernel = 1 := by decide +kernel
    refine ⟨by decide, 0, ⟨⟨by decide, fun i _ inside => ?_⟩, fun earlier lower => ?_⟩, ?_, 1, by decide, ?_, ?_⟩
    · have small : i = 0 ∨ i = 1 := by omega
      rcases small with rfl | rfl <;> decide
    · exact absurd lower (Nat.not_lt_zero earlier)
    · exact fun isUser => by cases isUser
    · intro i _ _
      show ¬ 0 % 2 = 1
      decide
    · rw [oneLeft]
      exact Nat.le_add_right 1 _
  · -- the lock is free, so the call begins in this state
    show ¬ Restores ((shortMem 0xff).atLock 1 .kernel (shortMem 0xff)) _
    rw [getAPage_restores_iff, not_not]
    exact ⟨⟨.inr ⟨rfl, rfl⟩, by decide⟩, by decide +kernel⟩

end ZyOs.Memory.Exhaustion
