import ZyOs.Memory.PageInvariant
import ZyOs.Kernel.BitmapFree
import ZyOs.Kernel.BitmapScan
import Mathlib.Data.Finset.Card
import Mathlib.Data.Finset.Image

/-!
Contract: the frames that `malloc_page` takes from the two pools.

Owns:
- the page tables that a run of pages lacks, and the entries that are in its way;
- the exact condition under which the loop of `malloc_page` fails no `ASSERT`;
- the same for `malloc_page`.

A page table is always a frame of the kernel pool, also for pages of a user.
-/

namespace ZyOs.Memory

open ZyOs.Lib ZyOs.Kernel

/-- The frames that are left in a pool. -/
def freeFrames (s : MemState) (pf : PoolFlags) : Nat := clearBits (s.pool pf).poolBitmap

/-- The page tables that `cnt` pages from `vaddr` on lack. -/
def missingTables (pde : Nat → Nat) (vaddr cnt : Nat) : Nat :=
  (((Finset.range cnt).image fun i => pdeIdx (vaddr + i * pgSize)).filter fun idx => ¬ pde idx % 2 = 1).card

/-- No entry of a page table that is there is in the way of the pages. -/
def Unmapped (pde pte : Nat → Nat) (vaddr cnt : Nat) : Prop :=
  ∀ i < cnt, pde (pdeIdx (vaddr + i * pgSize)) % 2 = 1 → ¬ pte (pageOf (vaddr + i * pgSize)) % 2 = 1

/-- The frames for the pages and for their page tables are there. -/
def FramesFit (s : MemState) (pf : PoolFlags) (vaddr cnt : Nat) : Prop :=
  match pf with
  | .kernel => cnt + missingTables s.pde vaddr cnt ≤ freeFrames s .kernel
  | .user => cnt ≤ freeFrames s .user ∧ missingTables s.pde vaddr cnt ≤ freeFrames s .kernel

/-! ### One page less -/

section Tables

variable {pde pte : Nat → Nat} {vaddr cnt value : Nat}

theorem next_page (vaddr i : Nat) : vaddr + (i + 1) * pgSize = vaddr + pgSize + i * pgSize := by
  rw [Nat.succ_mul]
  omega

theorem pageOf_next_ne (vaddr i : Nat) : pageOf (vaddr + pgSize + i * pgSize) ≠ pageOf vaddr := by
  unfold pageOf pgSize
  omega

theorem pdeIdx_pageOf (vaddr : Nat) : pdeIdx (pageOf vaddr * pgSize) = pdeIdx vaddr := by
  unfold pdeIdx pageOf pgSize
  omega

/-- The tables of a run are that of its first page and those of the others. -/
theorem image_tables (vaddr cnt : Nat) :
    ((Finset.range (cnt + 1)).image fun i => pdeIdx (vaddr + i * pgSize)) =
      insert (pdeIdx vaddr) ((Finset.range cnt).image fun i => pdeIdx (vaddr + pgSize + i * pgSize)) := by
  ext idx
  simp only [Finset.mem_image, Finset.mem_range, Finset.mem_insert]
  constructor
  · rintro ⟨i, inside, rfl⟩
    cases i with
    | zero =>
        left
        rw [Nat.zero_mul, Nat.add_zero]
    | succ i => exact .inr ⟨i, by omega, by rw [next_page]⟩
  · rintro (rfl | ⟨i, inside, rfl⟩)
    · exact ⟨0, by omega, by rw [Nat.zero_mul, Nat.add_zero]⟩
    · exact ⟨i + 1, by omega, by rw [next_page]⟩

theorem missingTables_zero (pde : Nat → Nat) (vaddr : Nat) : missingTables pde vaddr 0 = 0 := rfl

theorem missingTables_present (present : pde (pdeIdx vaddr) % 2 = 1) (cnt : Nat) :
    missingTables pde vaddr (cnt + 1) = missingTables pde (vaddr + pgSize) cnt := by
  unfold missingTables
  rw [image_tables, Finset.filter_insert, if_neg (not_not.mpr present)]

theorem missingTables_absent (absent : ¬ pde (pdeIdx vaddr) % 2 = 1) (isPresent : value % 2 = 1)
    (cnt : Nat) :
    missingTables pde vaddr (cnt + 1) =
      missingTables (Function.update pde (pdeIdx vaddr) value) (vaddr + pgSize) cnt + 1 := by
  unfold missingTables
  rw [image_tables, Finset.filter_insert, if_pos absent]
  generalize ((Finset.range cnt).image fun i => pdeIdx (vaddr + pgSize + i * pgSize)) = others
  have others_eq : (others.filter fun idx => ¬ Function.update pde (pdeIdx vaddr) value idx % 2 = 1) =
      (others.filter fun idx => ¬ pde idx % 2 = 1).erase (pdeIdx vaddr) := by
    ext idx
    simp only [Finset.mem_filter, Finset.mem_erase]
    by_cases same : idx = pdeIdx vaddr
    · rw [same, Function.update_self]
      exact iff_of_false (fun both => both.2 isPresent) (fun both => both.1 rfl)
    · rw [Function.update_of_ne same]
      exact ⟨fun both => ⟨same, both⟩, fun both => both.2⟩
  rw [others_eq, ← Finset.erase_insert_eq_erase, Finset.card_erase_add_one (Finset.mem_insert_self _ _)]

theorem unmapped_zero (pde pte : Nat → Nat) (vaddr : Nat) : Unmapped pde pte vaddr 0 :=
  fun _ inside => absurd inside (Nat.not_lt_zero _)

theorem unmapped_succ :
    Unmapped pde pte vaddr (cnt + 1) ↔
      (pde (pdeIdx vaddr) % 2 = 1 → ¬ pte (pageOf vaddr) % 2 = 1) ∧ Unmapped pde pte (vaddr + pgSize) cnt := by
  constructor
  · intro unmapped
    refine ⟨?_, fun i inside => ?_⟩
    · have first := unmapped 0 (Nat.succ_pos cnt)
      rwa [Nat.zero_mul, Nat.add_zero] at first
    · rw [← next_page]
      exact unmapped (i + 1) (Nat.succ_lt_succ inside)
  · rintro ⟨first, rest⟩ i inside
    cases i with
    | zero =>
        rw [Nat.zero_mul, Nat.add_zero]
        exact first
    | succ i =>
        rw [next_page]
        exact rest i (Nat.lt_of_succ_lt_succ inside)

/-- The entry of the first page is in nobody's way. -/
theorem unmapped_update_pte (pde pte : Nat → Nat) (vaddr cnt value : Nat) :
    Unmapped pde (Function.update pte (pageOf vaddr) value) (vaddr + pgSize) cnt ↔
      Unmapped pde pte (vaddr + pgSize) cnt := by
  unfold Unmapped
  refine forall_congr' fun i => forall_congr' fun _ => ?_
  rw [Function.update_of_ne (pageOf_next_ne vaddr i)]

/-- A new page table has no entry that is in the way. -/
theorem unmapped_new_table (absent : ¬ pde (pdeIdx vaddr) % 2 = 1) (pte : Nat → Nat) (cnt value : Nat) :
    Unmapped (Function.update pde (pdeIdx vaddr) value)
        (fun page => if pdeIdx (page * pgSize) = pdeIdx vaddr then 0 else pte page) (vaddr + pgSize) cnt ↔
      Unmapped pde pte (vaddr + pgSize) cnt := by
  unfold Unmapped
  refine forall_congr' fun i => forall_congr' fun _ => ?_
  dsimp only
  rw [pdeIdx_pageOf]
  by_cases same : pdeIdx (vaddr + pgSize + i * pgSize) = pdeIdx vaddr
  · rw [if_pos same, same]
    exact iff_of_true (fun _ => by decide) (fun present => absurd present absent)
  · rw [if_neg same, Function.update_of_ne same]

end Tables

/-! ### The loop of `malloc_page` -/

/-- A frame of the pool is taken. -/
structure Took (pf : PoolFlags) (s t : MemState) : Prop where
  frames : freeFrames t pf + 1 = freeFrames s pf
  others : ∀ other, other ≠ pf → freeFrames t other = freeFrames s other
  pde : t.pde = s.pde
  pte : t.pte = s.pte

section Loop

variable {s t : MemState} {pf : PoolFlags} {vaddr phyaddr cnt : Nat}

theorem took_setPoolBitmap {bit : Nat} (found : firstClear (s.pool pf).poolBitmap = some bit) :
    Took pf s (s.setPoolBitmap pf (bitmapSet (s.pool pf).poolBitmap bit true)) := by
  have taken := clearBits_firstClear found
  cases pf with
  | kernel =>
      refine ⟨taken, fun other ne => ?_, rfl, rfl⟩
      cases other with
      | kernel => exact absurd rfl ne
      | user => rfl
  | user =>
      refine ⟨taken, fun other ne => ?_, rfl, rfl⟩
      cases other with
      | kernel => rfl
      | user => exact absurd rfl ne

/-- `palloc` takes the first clear bit, or fails the `ASSERT` of `bitmap_scan`. -/
theorem palloc_eq (s : MemState) (pf : PoolFlags) :
    palloc s pf = match firstClear (s.pool pf).poolBitmap with
      | none => .error .bitmapScan
      | some bit => .ok (s.setPoolBitmap pf (bitmapSet (s.pool pf).poolBitmap bit true),
          some (bit * pgSize + (s.pool pf).phyAddrStart)) := by
  unfold palloc
  rw [bitmapScan_eq]
  cases firstClear (s.pool pf).poolBitmap with
  | none => rfl
  | some bit =>
      have notFailed : ((bit : Int)) ≠ -1 := by omega
      simp only [Option.map_some, if_true, if_neg notFailed, Int.toNat_natCast]

theorem palloc_took (enough : 0 < freeFrames s pf) :
    ∃ t frame, palloc s pf = .ok (t, some frame) ∧ Took pf s t := by
  obtain ⟨bit, found⟩ := clearBits_pos_iff.mp enough
  rw [palloc_eq, found]
  exact ⟨_, _, rfl, took_setPoolBitmap found⟩

theorem palloc_exhausted (empty : freeFrames s pf = 0) : palloc s pf = .error .bitmapScan := by
  rw [palloc_eq]
  cases found : firstClear (s.pool pf).poolBitmap with
  | none => rfl
  | some bit =>
      have positive := clearBits_pos_iff.mpr ⟨bit, found⟩
      unfold freeFrames at empty
      omega

theorem pageTableAdd_present (present : s.pde (pdeIdx vaddr) % 2 = 1)
    (absent : ¬ s.pte (pageOf vaddr) % 2 = 1) :
    pageTableAdd s vaddr phyaddr =
      .ok { s with pte := Function.update s.pte (pageOf vaddr) (pteOf phyaddr) } := by
  unfold pageTableAdd
  rw [if_pos present, if_neg absent]

theorem pageTableAdd_repeat (present : s.pde (pdeIdx vaddr) % 2 = 1)
    (repeated : s.pte (pageOf vaddr) % 2 = 1) : pageTableAdd s vaddr phyaddr = .error .pteRepeat := by
  unfold pageTableAdd
  rw [if_pos present, if_pos repeated]

/-- A new page table. -/
theorem pageTableAdd_absent (absent : ¬ s.pde (pdeIdx vaddr) % 2 = 1) :
    pageTableAdd s vaddr phyaddr = (palloc s .kernel).map fun (t, pdePhyaddr) => { t with
      pde := Function.update t.pde (pdeIdx vaddr) (pteOf (pdePhyaddr.getD 0))
      pte := Function.update (fun page => if pdeIdx (page * pgSize) = pdeIdx vaddr then 0 else t.pte page)
        (pageOf vaddr) (pteOf phyaddr) } := by
  unfold pageTableAdd
  rw [if_neg absent]
  cases palloc s .kernel <;> rfl

theorem framesFit_zero (s : MemState) (pf : PoolFlags) (vaddr : Nat) : FramesFit s pf vaddr 0 := by
  unfold FramesFit
  rw [missingTables_zero]
  cases pf with
  | kernel => exact Nat.zero_le _
  | user => exact ⟨Nat.zero_le _, Nat.zero_le _⟩

theorem FramesFit.enough (fits : FramesFit s pf vaddr (cnt + 1)) : 0 < freeFrames s pf := by
  unfold FramesFit at fits
  cases pf with
  | kernel =>
      dsimp only at fits
      omega
  | user =>
      dsimp only at fits
      omega

/-- A page whose table is there takes one frame. -/
theorem framesFit_present {t' : MemState} (took : Took pf s t) (present : s.pde (pdeIdx vaddr) % 2 = 1)
    (sameFrames : freeFrames t' = freeFrames t) (samePde : t'.pde = t.pde) :
    FramesFit s pf vaddr (cnt + 1) ↔ FramesFit t' pf (vaddr + pgSize) cnt := by
  have frames := took.frames
  unfold FramesFit
  rw [missingTables_present present, sameFrames, samePde, took.pde]
  cases pf with
  | kernel =>
      dsimp only
      omega
  | user =>
      have others := took.others .kernel (by decide)
      dsimp only
      omega

/-- A page whose table is absent takes a frame for the table, too. -/
theorem framesFit_absent {t' t'' : MemState} {value : Nat} (took : Took pf s t) (table : Took .kernel t t')
    (absent : ¬ s.pde (pdeIdx vaddr) % 2 = 1) (isPresent : value % 2 = 1)
    (sameFrames : freeFrames t'' = freeFrames t')
    (isPde : t''.pde = Function.update t'.pde (pdeIdx vaddr) value) :
    FramesFit s pf vaddr (cnt + 1) ↔ FramesFit t'' pf (vaddr + pgSize) cnt := by
  have frames := took.frames
  have tables := table.frames
  unfold FramesFit
  rw [missingTables_absent absent isPresent, sameFrames, isPde, table.pde, took.pde]
  cases pf with
  | kernel =>
      dsimp only
      omega
  | user =>
      have others := took.others .kernel (by decide)
      have same := table.others .user (by decide)
      dsimp only
      omega

/-- The loop runs through exactly when nothing is in the way and the frames are there. -/
theorem mapPages_ok_iff (pf : PoolFlags) (cnt : Nat) (s : MemState) (vaddr : Nat) :
    (∃ t, mapPages pf cnt s vaddr = .ok (t, true)) ↔
      Unmapped s.pde s.pte vaddr cnt ∧ FramesFit s pf vaddr cnt := by
  induction cnt generalizing s vaddr with
  | zero =>
      exact iff_of_true ⟨s, rfl⟩ ⟨unmapped_zero _ _ _, framesFit_zero _ _ _⟩
  | succ cnt inductionHypothesis =>
      unfold mapPages
      by_cases enough : 0 < freeFrames s pf
      · obtain ⟨t, frame, isAlloc, took⟩ := palloc_took enough
        rw [isAlloc]
        dsimp only
        by_cases present : s.pde (pdeIdx vaddr) % 2 = 1
        · have stillPresent : t.pde (pdeIdx vaddr) % 2 = 1 := by rwa [took.pde]
          by_cases repeated : s.pte (pageOf vaddr) % 2 = 1
          · rw [pageTableAdd_repeat stillPresent (by rwa [took.pte])]
            apply iff_of_false
            · rintro ⟨_, isRun⟩
              cases isRun
            · rintro ⟨unmapped, _⟩
              exact (unmapped_succ.mp unmapped).1 present repeated
          · rw [pageTableAdd_present stillPresent (by rwa [took.pte])]
            dsimp only
            rw [inductionHypothesis]
            refine and_congr ?_ (framesFit_present took present rfl rfl).symm
            dsimp only
            rw [unmapped_update_pte, took.pde, took.pte, unmapped_succ]
            simp only [present, repeated, not_false_eq_true, implies_true, true_and]
        · have stillAbsent : ¬ t.pde (pdeIdx vaddr) % 2 = 1 := by rwa [took.pde]
          rw [pageTableAdd_absent stillAbsent]
          by_cases enoughTables : 0 < freeFrames t .kernel
          · obtain ⟨t', table, isTable, tookTable⟩ := palloc_took enoughTables
            rw [isTable]
            simp only [Except.map]
            rw [inductionHypothesis]
            refine and_congr ?_ (Iff.symm ?_)
            · dsimp only
              rw [unmapped_update_pte, tookTable.pde, tookTable.pte, took.pde, took.pte,
                unmapped_new_table present, unmapped_succ]
              simp only [present, false_implies, true_and]
            · exact framesFit_absent took tookTable present (pteOf_present _) rfl rfl
          · rw [palloc_exhausted (Nat.eq_zero_of_not_pos enoughTables)]
            apply iff_of_false
            · rintro ⟨_, isRun⟩
              cases isRun
            · rintro ⟨_, fits⟩
              have frames := took.frames
              unfold FramesFit at fits
              rw [missingTables_absent present (pteOf_present 0)] at fits
              cases pf with
              | kernel =>
                  dsimp only at fits
                  omega
              | user =>
                  have others := took.others .kernel (by decide)
                  dsimp only at fits
                  omega
      · rw [palloc_exhausted (Nat.eq_zero_of_not_pos enough)]
        apply iff_of_false
        · rintro ⟨_, isRun⟩
          cases isRun
        · rintro ⟨_, fits⟩
          exact enough fits.enough

/-- The loop does not stop early: `palloc` fails an `ASSERT` instead. -/
theorem mapPages_done {done : Bool} (isRun : mapPages pf cnt s vaddr = .ok (t, done)) : done = true := by
  induction cnt generalizing s vaddr with
  | zero =>
      cases isRun
      rfl
  | succ cnt inductionHypothesis =>
      unfold mapPages at isRun
      rw [palloc_eq] at isRun
      cases found : firstClear (s.pool pf).poolBitmap with
      | none =>
          rw [found] at isRun
          cases isRun
      | some bit =>
          rw [found] at isRun
          dsimp only at isRun
          split at isRun
          · cases isRun
          · exact inductionHypothesis isRun

end Loop

/-! ### `malloc_page` -/

/-- The run of clear bits that `bitmap_scan` finds. -/
def FirstRun (btmp : Bitmap) (cnt start : Nat) : Prop :=
  ClearRun btmp cnt (scanLimit btmp cnt) start ∧
    ∀ earlier < start, ¬ ClearRun btmp cnt (scanLimit btmp cnt) earlier

/-- The page of a bit of a virtual-address bitmap. -/
def vaddrAt (s : MemState) (pf : PoolFlags) (bit : Nat) : Nat := (s.vaddr pf).vaddrStart + bit * pgSize

/-- Below the stack of a user process. -/
def BelowStack (pf : PoolFlags) (vaddr : Nat) : Prop := pf = .user → vaddr < 0xc0000000 - pgSize

/-- What `malloc_page` needs of its argument, the bitmaps and the page tables. -/
structure PagesFit (s : MemState) (pf : PoolFlags) (pgCnt : Nat) : Prop where
  positive : 0 < pgCnt
  limit : pgCnt < 3840
  someClear : 0 < clearBits (s.vaddr pf).vaddrBitmap
  belowStack : ∀ start, FirstRun (s.vaddr pf).vaddrBitmap pgCnt start → BelowStack pf (vaddrAt s pf start)
  unmapped : ∀ start, FirstRun (s.vaddr pf).vaddrBitmap pgCnt start →
    Unmapped s.pde s.pte (vaddrAt s pf start) pgCnt
  frames : ∀ start, FirstRun (s.vaddr pf).vaddrBitmap pgCnt start →
    FramesFit s pf (vaddrAt s pf start) pgCnt

section Calls

variable {s t : MemState} {pf : PoolFlags} {pgCnt : Nat}

theorem FirstRun.unique {btmp : Bitmap} {cnt start other : Nat} (one : FirstRun btmp cnt start)
    (two : FirstRun btmp cnt other) : start = other := by
  have low : ¬ start < other := fun lower => two.2 start lower one.1
  have high : ¬ other < start := fun lower => one.2 other lower two.1
  omega

theorem FirstRun.someClear {btmp : Bitmap} {cnt start : Nat} (positive : 0 < cnt)
    (first : FirstRun btmp cnt start) : 0 < clearBits btmp := by
  have inside : start < 8 * btmp.btmpBytesLen := by
    have ends := first.1.1
    unfold scanLimit at ends
    split at ends <;> omega
  rw [clearBits_pos_iff]
  cases found : firstClear btmp with
  | some bit => exact ⟨bit, rfl⟩
  | none =>
      have isSet := firstClear_none.mp found start inside
      rw [first.1.2 start (Nat.le_refl _) (by omega)] at isSet
      cases isSet

/-- The three ways in which the search of `vaddr_get` ends. -/
theorem scan_cases (btmp : Bitmap) {cnt : Nat} (positive : 1 ≤ cnt) :
    (bitmapScan btmp cnt = none ∧ clearBits btmp = 0) ∨
      (bitmapScan btmp cnt = some (-1) ∧ 0 < clearBits btmp ∧ ∀ start, ¬ FirstRun btmp cnt start) ∨
      ∃ start : Nat, bitmapScan btmp cnt = some (start : Int) ∧ 0 < clearBits btmp ∧ FirstRun btmp cnt start := by
  cases scanned : bitmapScan btmp cnt with
  | none =>
      refine .inl ⟨rfl, ?_⟩
      by_contra notZero
      obtain ⟨bit, found⟩ := clearBits_pos_iff.mp (Nat.pos_of_ne_zero notZero)
      rw [bitmapScan_eq, found] at scanned
      cases scanned
  | some result =>
      have someClear : 0 < clearBits btmp := by
        rw [clearBits_pos_iff]
        rw [bitmapScan_eq] at scanned
        obtain ⟨bit, found, _⟩ := Option.map_eq_some_iff.mp scanned
        exact ⟨bit, found⟩
      rcases bitmapScan_leastRun positive scanned with ⟨start, rfl, run, least⟩ | ⟨rfl, missing⟩
      · exact .inr (.inr ⟨start, rfl, someClear, run, least⟩)
      · exact .inr (.inl ⟨rfl, someClear, fun start first => missing start first.1⟩)

/-- A run that is found is marked, unless the `ASSERT` on user addresses fails. -/
theorem vaddrGet_found {start : Nat} (scanned : bitmapScan (s.vaddr pf).vaddrBitmap pgCnt = some (start : Int)) :
    vaddrGet s pf pgCnt = if pf = .user ∧ ¬ vaddrAt s pf start < 0xc0000000 - pgSize then .error .vaddrGetUser
      else .ok (s.setVaddrBitmap pf (bitmapSetRun (s.vaddr pf).vaddrBitmap start true pgCnt),
        some (vaddrAt s pf start)) := by
  have notFailed : ((start : Int)) ≠ -1 := by omega
  unfold vaddrGet
  rw [scanned]
  simp only [if_neg notFailed, Int.toNat_natCast]
  rfl

theorem freeFrames_setVaddrBitmap (s : MemState) (pf other : PoolFlags) (btmp : Bitmap) :
    freeFrames (s.setVaddrBitmap pf btmp) other = freeFrames s other := by
  cases pf <;> cases other <;> rfl

theorem pde_setVaddrBitmap (s : MemState) (pf : PoolFlags) (btmp : Bitmap) :
    (s.setVaddrBitmap pf btmp).pde = s.pde := by
  cases pf <;> rfl

theorem pte_setVaddrBitmap (s : MemState) (pf : PoolFlags) (btmp : Bitmap) :
    (s.setVaddrBitmap pf btmp).pte = s.pte := by
  cases pf <;> rfl

theorem framesFit_setVaddrBitmap (s : MemState) (pf other : PoolFlags) (btmp : Bitmap) (vaddr cnt : Nat) :
    FramesFit (s.setVaddrBitmap pf btmp) other vaddr cnt ↔ FramesFit s other vaddr cnt := by
  unfold FramesFit
  cases other <;> simp only [freeFrames_setVaddrBitmap, pde_setVaddrBitmap]

/-- `malloc_page` fails no `ASSERT` exactly when the pages fit. -/
theorem mallocPage_ok_iff (s : MemState) (pf : PoolFlags) (pgCnt : Nat) :
    (∃ t result, mallocPage s pf pgCnt = .ok (t, result)) ↔ PagesFit s pf pgCnt := by
  unfold mallocPage
  by_cases bounds : pgCnt > 0 ∧ pgCnt < 3840
  swap
  · rw [if_neg bounds]
    exact iff_of_false (fun ⟨_, _, isRun⟩ => by cases isRun) fun fit => bounds ⟨fit.positive, fit.limit⟩
  rw [if_pos bounds]
  rcases scan_cases (s.vaddr pf).vaddrBitmap bounds.1 with
    ⟨scanned, noneClear⟩ | ⟨scanned, someClear, noRun⟩ | ⟨start, scanned, someClear, first⟩
  · -- the `ASSERT` of `bitmap_scan`
    unfold vaddrGet
    rw [scanned]
    refine iff_of_false (fun ⟨_, _, isRun⟩ => by cases isRun) fun fit => ?_
    have positive := fit.someClear
    omega
  · -- no run: `NULL`
    unfold vaddrGet
    rw [scanned]
    exact iff_of_true ⟨s, none, rfl⟩ ⟨bounds.1, bounds.2, someClear, fun start first => absurd first (noRun start),
      fun start first => absurd first (noRun start), fun start first => absurd first (noRun start)⟩
  · rw [vaddrGet_found scanned]
    by_cases above : pf = .user ∧ ¬ vaddrAt s pf start < 0xc0000000 - pgSize
    · rw [if_pos above]
      refine iff_of_false (fun ⟨_, _, isRun⟩ => by cases isRun) fun fit => ?_
      exact above.2 (fit.belowStack start first above.1)
    · rw [if_neg above]
      dsimp only
      have runs := mapPages_ok_iff pf pgCnt
        (s.setVaddrBitmap pf (bitmapSetRun (s.vaddr pf).vaddrBitmap start true pgCnt)) (vaddrAt s pf start)
      rw [pde_setVaddrBitmap, pte_setVaddrBitmap, framesFit_setVaddrBitmap] at runs
      constructor
      · rintro ⟨t, result, isRun⟩
        split at isRun
        · cases isRun
        · rename_i t' done isMapped
          rw [mapPages_done isMapped] at isMapped
          obtain ⟨unmapped, frames⟩ := runs.mp ⟨t', isMapped⟩
          refine ⟨bounds.1, bounds.2, someClear, fun other isFirst isUser => ?_, fun other isFirst => ?_,
            fun other isFirst => ?_⟩
          · rw [isFirst.unique first]
            exact not_not.mp fun notBelow => above ⟨isUser, notBelow⟩
          · rw [isFirst.unique first]
            exact unmapped
          · rw [isFirst.unique first]
            exact frames
      · intro fit
        obtain ⟨t, isMapped⟩ := runs.mpr ⟨fit.unmapped start first, fit.frames start first⟩
        rw [isMapped]
        exact ⟨t, _, rfl⟩

end Calls

end ZyOs.Memory
