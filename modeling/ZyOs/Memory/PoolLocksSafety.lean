import ZyOs.Memory.PoolLocks

/-!
Contract: the pools are exclusive in every run in which no task calls
`get_kernel_pages` and no request for user pages needs a new page table.

While a task holds the lock of a pool nobody else touches the pool, and for the
kernel's pool nobody else touches the kernel's half of the address space; a
task's own half is touched by nobody else at any time. So the bit a scan has
found is still clear when it is set, and what a page-table entry says is still
what was recorded when the page was handed out.
-/

namespace ZyOs.Memory

open ZyOs.Lib ZyOs.Kernel

/-! ### The invariant -/

/-- Where the pools and the heap areas lie; none of it changes. -/
structure PoolLayout where
  start : PoolFlags → Nat
  len : PoolFlags → Nat
  vaddrStart : PoolFlags → Nat
  vaddrLen : PoolFlags → Nat
  aligned : ∀ pf, start pf % pgSize = 0
  order : start .kernel + 8 * len .kernel * pgSize ≤ start .user
  vaddrAligned : ∀ pf, vaddrStart pf % pgSize = 0
  kernelLow : 0xc0100000 ≤ vaddrStart .kernel
  kernelHigh : vaddrStart .kernel + (8 * vaddrLen .kernel + 1) * pgSize ≤ 0xffc00000
  userHigh : vaddrStart .user + 8 * vaddrLen .user * pgSize ≤ 0xc0000000

namespace PoolLayout

variable (L : PoolLayout)

/-- `phyAddr` is a frame of the pool. -/
def IsFrame (pf : PoolFlags) (phyAddr : Nat) : Prop :=
  ∃ bit < 8 * L.len pf, phyAddr = L.start pf + bit * pgSize

structure PoolOk (pf : PoolFlags) (res : PoolRes) : Prop where
  start : res.pool.phyAddrStart = L.start pf
  len : res.pool.poolBitmap.btmpBytesLen = L.len pf
  nodup : res.frames.Nodup
  set : ∀ bit ∈ res.frames, bitmapScanTest res.pool.poolBitmap bit = true

/-- The half of the address space that regions of a heap lie in. -/
def InHalf : PoolFlags → Nat → Prop
  | .kernel, page => 0xc0100 ≤ page
  | .user, page => page < 0xc0000

/-- The pages from `page` on are mapped to these frames. -/
def MappedRun (pf : PoolFlags) (pte : Nat → Nat) : Nat → List Nat → Prop
  | _, [] => True
  | page, frame :: frames => (pte page = pteOf frame ∧ L.IsFrame pf frame ∧ InHalf pf page) ∧
      MappedRun pf pte (page + 1) frames

end PoolLayout

/-- The virtual pages of a region. -/
def Region.vpages (r : Region) : Set Nat :=
  Set.Ico (pageOf r.vaddr) (pageOf r.vaddr + r.frames.length)

structure PoolLayout.SpaceOk (L : PoolLayout) (pf : PoolFlags) (space : Space) : Prop where
  vaddrStart : space.vaddr.vaddrStart = L.vaddrStart pf
  vaddrLen : space.vaddr.vaddrBitmap.btmpBytesLen = L.vaddrLen pf
  nodup : space.pages.Nodup
  present : ∀ page ∈ space.pages, space.pte page % 2 = 1
  mapped : ∀ r ∈ space.regions, L.MappedRun pf space.pte (pageOf r.vaddr) r.frames
  apart : space.regions.Pairwise fun r r' => Disjoint r.vpages r'.vpages

variable {Task : Type} [DecidableEq Task]

structure PoolLayout.Inv (L : PoolLayout) (isThread : Task → Bool) (s : PoolShared Task) :
    Prop where
  pools : ∀ pf, L.PoolOk pf (s.pool pf)
  kernelHalf : L.SpaceOk .kernel (s.space none)
  userHalf : ∀ t, isThread t = false → L.SpaceOk .user (s.space (some t))
  image : ∀ page, 0xc0000 ≤ page → page < 0xc0100 → (s.space none).pte page % 2 = 1
  pde : ∀ t idx, 768 ≤ idx → idx < 1023 → s.pde t idx % 2 = 1
  pgdirNull : s.pgdirNull = isThread

/-- What other tasks leave alone. -/
structure PoolRely (t : Task) (s s' : PoolShared Task) : Prop where
  held : ∀ pf, s.lock pf = some t → s'.lock pf = some t ∧ s'.pool pf = s.pool pf
  kernelHalf : s.lock .kernel = some t → s'.space none = s.space none
  notHeld : ∀ pf, s.lock pf ≠ some t → s'.lock pf ≠ some t
  userHalf : s'.space (some t) = s.space (some t)
  pde : s'.pde t = s.pde t

omit [DecidableEq Task] in
theorem PoolRely.refl (t : Task) (s : PoolShared Task) : PoolRely t s s :=
  ⟨fun _ isHeld => ⟨isHeld, rfl⟩, fun _ => rfl, fun _ notHeld => notHeld, rfl, rfl⟩

omit [DecidableEq Task] in
theorem PoolRely.trans {t : Task} {s u v : PoolShared Task} (first : PoolRely t s u)
    (second : PoolRely t u v) : PoolRely t s v where
  held pf isHeld := by
    obtain ⟨heldU, poolU⟩ := first.held pf isHeld
    obtain ⟨heldV, poolV⟩ := second.held pf heldU
    exact ⟨heldV, poolV.trans poolU⟩
  kernelHalf isHeld := (second.kernelHalf (first.held _ isHeld).1).trans (first.kernelHalf isHeld)
  notHeld pf notHeld := second.notHeld pf (first.notHeld pf notHeld)
  userHalf := second.userHalf.trans first.userHalf
  pde := second.pde.trans first.pde

/-- A request for user pages finds its page table. -/
def TablePresent (t : Task) (label : PoolLabel) (s : PoolShared Task) : Prop :=
  match label with
  | .readPde vaddr => vaddr < 0xc0000000 → s.pde t (pdeIdx vaddr) % 2 = 1
  | _ => True

instance (t : Task) (label : PoolLabel) (s : PoolShared Task) :
    Decidable (TablePresent t label s) :=
  match label with
  | .readPde vaddr =>
      inferInstanceAs (Decidable (vaddr < 0xc0000000 → s.pde t (pdeIdx vaddr) % 2 = 1))
  | .lockAcquire _ | .lockRelease _ | .bitmapScan _ | .bitmapSet _ | .writePde _ | .readPte _
  | .writePte _ | .heap => .isTrue trivial

/-- The protocol the tasks keep to. -/
def poolProtocol (L : PoolLayout) (isThread : Task → Bool) :
    Protocol Task (PoolShared Task) PoolLabel where
  inv := L.Inv isThread
  rely := PoolRely
  allowed := TablePresent
  good := Locked
  idle t s := ∀ pf, s.lock pf ≠ some t
  rely_refl := PoolRely.refl
  rely_trans _ _ _ _ := PoolRely.trans

/-! ### What a task that holds a lock may do -/

/-- Task `t` works on a pool, alone. -/
structure Holds (isThread : Task → Bool) (t : Task) (pf : PoolFlags) (s : PoolShared Task) :
    Prop where
  lock : s.lock pf = some t
  other : ∀ other, other ≠ pf → s.lock other ≠ some t
  thread : isThread t = decide (pf = .kernel)

section

variable {L : PoolLayout} {isThread : Task → Bool} {t : Task} {pf : PoolFlags}
  {s s' : PoolShared Task}

omit [DecidableEq Task] in
theorem PoolRely.holds (rely : PoolRely t s s') (holds : Holds isThread t pf s) :
    Holds isThread t pf s' :=
  ⟨(rely.held pf holds.lock).1, fun other ne => rely.notHeld other (holds.other other ne),
    holds.thread⟩

omit [DecidableEq Task] in
theorem PoolRely.pool (rely : PoolRely t s s') (holds : Holds isThread t pf s) :
    s'.pool pf = s.pool pf :=
  (rely.held pf holds.lock).2

omit [DecidableEq Task] in
theorem PoolRely.space (rely : PoolRely t s s') (holds : Holds isThread t pf s) :
    s'.space (halfOf t pf) = s.space (halfOf t pf) := by
  cases pf with
  | kernel => exact rely.kernelHalf holds.lock
  | user => exact rely.userHalf

omit [DecidableEq Task] in
theorem PoolLayout.Inv.space (inv : L.Inv isThread s) (holds : Holds isThread t pf s) :
    L.SpaceOk pf (s.space (halfOf t pf)) := by
  cases pf with
  | kernel => exact inv.kernelHalf
  | user => exact inv.userHalf t (by simpa using holds.thread)

omit [DecidableEq Task] in
theorem Holds.setPool (holds : Holds isThread t pf s) (res : PoolRes) :
    Holds isThread t pf (s.setPool pf res) :=
  ⟨holds.lock, holds.other, holds.thread⟩

theorem Holds.setSpace (holds : Holds isThread t pf s) (half : Option Task) (space : Space) :
    Holds isThread t pf (s.setSpace half space) :=
  ⟨holds.lock, holds.other, holds.thread⟩

omit [DecidableEq Task] in
theorem Holds.guarantee_setPool (holds : Holds isThread t pf s) {res : PoolRes}
    (ok : L.PoolOk pf (s.pool pf) → L.PoolOk pf res) :
    (poolProtocol L isThread).Guarantee t s (s.setPool pf res) := by
  refine ⟨fun inv => ?_, fun other ne => ?_⟩
  · refine ⟨fun pf' => ?_, inv.kernelHalf, inv.userHalf, inv.image, inv.pde, inv.pgdirNull⟩
    by_cases same : pf' = pf
    · subst same
      simpa [PoolShared.setPool] using ok (inv.pools pf')
    · simpa [PoolShared.setPool, same] using inv.pools pf'
  · refine ⟨fun pf' isHeld => ⟨isHeld, ?_⟩, fun _ => rfl, fun _ notHeld => notHeld, rfl, rfl⟩
    have apart : pf' ≠ pf := by
      rintro rfl
      rw [holds.lock] at isHeld
      exact ne (by simpa using isHeld.symm)
    simp [PoolShared.setPool, apart]

theorem Holds.guarantee_setSpace (holds : Holds isThread t pf s) {space : Space}
    (ok : L.SpaceOk pf (s.space (halfOf t pf)) → L.SpaceOk pf space)
    (image : ∀ page, 0xc0000 ≤ page → page < 0xc0100 → (s.space none).pte page % 2 = 1 →
      pf = .kernel → space.pte page % 2 = 1) :
    (poolProtocol L isThread).Guarantee t s (s.setSpace (halfOf t pf) space) := by
  refine ⟨fun inv => ?_, fun other ne => ?_⟩
  · have after := ok (inv.space holds)
    cases pf with
    | kernel =>
        refine ⟨inv.pools, ?_, ?_, ?_, inv.pde, inv.pgdirNull⟩
        · simpa [PoolShared.setSpace, halfOf] using after
        · simpa [PoolShared.setSpace, halfOf] using inv.userHalf
        · intro page low high
          simpa [PoolShared.setSpace, halfOf] using image page low high (inv.image page low high) rfl
    | user =>
        refine ⟨inv.pools, ?_, fun u isProcess => ?_, ?_, inv.pde, inv.pgdirNull⟩
        · simpa [PoolShared.setSpace, halfOf] using inv.kernelHalf
        · by_cases same : u = t
          · subst same
            simpa [PoolShared.setSpace, halfOf] using after
          · simpa [PoolShared.setSpace, halfOf, same] using inv.userHalf u isProcess
        · simpa [PoolShared.setSpace, halfOf] using inv.image
  · have apart : some other ≠ halfOf t pf := by
      cases pf with
      | kernel => simp [halfOf]
      | user => simpa [halfOf] using ne
    refine ⟨fun _ isHeld => ⟨isHeld, rfl⟩, fun isHeld => ?_, fun _ notHeld => notHeld, ?_, rfl⟩
    · cases pf with
      | kernel =>
          rw [holds.lock] at isHeld
          exact absurd (by simpa using isHeld.symm) ne
      | user => simp [PoolShared.setSpace, halfOf]
    · simp [PoolShared.setSpace, apart]

/-! ### What the actions do to pools and halves -/

theorem PoolLayout.PoolOk.grant {res : PoolRes} (ok : L.PoolOk pf res) {bit : Nat}
    (clear : bitmapScanTest res.pool.poolBitmap bit = false) : L.PoolOk pf (res.grant bit) := by
  have fresh : bit ∉ res.frames := by
    intro mem
    rw [ok.set bit mem] at clear
    cases clear
  refine ⟨ok.start, ok.len, List.nodup_cons.mpr ⟨fresh, ok.nodup⟩, ?_⟩
  intro other mem
  simp only [PoolRes.grant, bitmapScanTest_bitmapSet]
  split
  · rfl
  · rename_i ne
    exact ok.set other ((List.mem_cons.mp mem).resolve_left ne)

/-- Clearing the bit of a frame and giving the frame up. -/
theorem PoolLayout.PoolOk.free {res : PoolRes} (ok : L.PoolOk pf res) {frame : Nat}
    (isFrame : L.IsFrame pf frame) :
    L.PoolOk pf ((res.clear ((frame - res.pool.phyAddrStart) / pgSize)).release frame) := by
  obtain ⟨bit, _, rfl⟩ := isFrame
  have bitIdx : (L.start pf + bit * pgSize - res.pool.phyAddrStart) / pgSize = bit := by
    rw [ok.start]
    simp
  simp only [PoolRes.clear, PoolRes.release, bitIdx]
  refine ⟨ok.start, ok.len, ok.nodup.erase _, ?_⟩
  intro other mem
  obtain ⟨ne, memOther⟩ := ok.nodup.mem_erase_iff.mp mem
  simp only [bitmapScanTest_bitmapSet, if_neg ne]
  exact ok.set other memOther

theorem PoolLayout.MappedRun.get {pte : Nat → Nat} {frames : List Nat} :
    ∀ {first : Nat}, L.MappedRun pf pte first frames →
      ∀ page ∈ Set.Ico first (first + frames.length), pte page % 2 = 1 := by
  induction frames with
  | nil =>
      rintro first _ page ⟨low, high⟩
      simp only [List.length_nil] at high
      omega
  | cons frame frames inductionHypothesis =>
      rintro first ⟨⟨entry, _, _⟩, rest⟩ page ⟨low, high⟩
      by_cases same : page = first
      · subst same
        rw [entry]
        exact pteOf_present frame
      · simp only [List.length_cons] at high
        exact inductionHypothesis rest page ⟨by omega, by omega⟩

theorem PoolLayout.MappedRun.congr {pte pte' : Nat → Nat} {frames : List Nat} :
    ∀ {first : Nat}, L.MappedRun pf pte first frames →
      (∀ page ∈ Set.Ico first (first + frames.length), pte' page = pte page) →
      L.MappedRun pf pte' first frames := by
  induction frames with
  | nil => exact fun _ _ => trivial
  | cons frame frames inductionHypothesis =>
      rintro first ⟨⟨entry, isFrame, inHalf⟩, rest⟩ same
      simp only [List.length_cons] at same
      refine ⟨⟨?_, isFrame, inHalf⟩, inductionHypothesis rest ?_⟩
      · rw [same first ⟨le_refl _, by omega⟩]
        exact entry
      · rintro page ⟨low, high⟩
        exact same page ⟨by omega, by omega⟩

/-- A page that is not mapped lies in no region. -/
theorem PoolLayout.SpaceOk.not_mem {space : Space} (ok : L.SpaceOk pf space) {page : Nat}
    (absent : ¬ space.pte page % 2 = 1) {r : Region} (isRegion : r ∈ space.regions) :
    page ∉ r.vpages :=
  fun mem => absent ((ok.mapped r isRegion).get page mem)

theorem PoolLayout.SpaceOk.setVaddrBit {space : Space} (ok : L.SpaceOk pf space) (bitIdx : Nat)
    (value : Bool) : L.SpaceOk pf (space.setVaddrBit bitIdx value) :=
  ⟨ok.vaddrStart, by simpa [Space.setVaddrBit] using ok.vaddrLen, ok.nodup, ok.present, ok.mapped,
    ok.apart⟩

theorem PoolLayout.SpaceOk.map {space : Space} (ok : L.SpaceOk pf space) {page : Nat}
    (absent : ¬ space.pte page % 2 = 1) (phyaddr : Nat) :
    L.SpaceOk pf (space.map page phyaddr) := by
  refine ⟨ok.vaddrStart, ok.vaddrLen, ?_, ?_, ?_, ok.apart⟩
  · exact List.nodup_cons.mpr ⟨fun mem => absent (ok.present page mem), ok.nodup⟩
  · intro other mem
    by_cases same : other = page
    · subst same
      simpa [Space.map] using pteOf_present phyaddr
    · have old := (List.mem_cons.mp mem).resolve_left same
      simpa [Space.map, same] using ok.present other old
  · intro r isRegion
    refine (ok.mapped r isRegion).congr fun other mem => ?_
    have ne : other ≠ page := by
      rintro rfl
      exact ok.not_mem absent isRegion mem
    simp [Space.map, ne]

theorem PoolLayout.SpaceOk.unmap {space : Space} (ok : L.SpaceOk pf space) {page : Nat}
    (outside : ∀ r ∈ space.regions, page ∉ r.vpages) : L.SpaceOk pf (space.unmap page) := by
  refine ⟨ok.vaddrStart, ok.vaddrLen, ok.nodup.erase _, ?_, ?_, ok.apart⟩
  · intro other mem
    obtain ⟨ne, memOther⟩ := ok.nodup.mem_erase_iff.mp mem
    simpa [Space.unmap, ne] using ok.present other memOther
  · intro r isRegion
    refine (ok.mapped r isRegion).congr fun other mem => ?_
    have ne : other ≠ page := by
      rintro rfl
      exact outside r isRegion mem
    simp [Space.unmap, ne]

/-- A heap takes a region over. -/
theorem PoolLayout.SpaceOk.addRegion {space : Space} (ok : L.SpaceOk pf space) {r : Region}
    (mapped : L.MappedRun pf space.pte (pageOf r.vaddr) r.frames)
    (apart : ∀ r' ∈ space.regions, Disjoint r.vpages r'.vpages) :
    L.SpaceOk pf { space with regions := r :: space.regions } := by
  refine ⟨ok.vaddrStart, ok.vaddrLen, ok.nodup, ok.present, ?_,
    List.pairwise_cons.mpr ⟨apart, ok.apart⟩⟩
  rintro r' (_ | ⟨_, isRegion⟩)
  · exact mapped
  · exact ok.mapped r' isRegion

/-- A heap gives a region up. -/
theorem PoolLayout.SpaceOk.eraseRegion {space : Space} (ok : L.SpaceOk pf space) (r : Region) :
    L.SpaceOk pf { space with regions := space.regions.erase r } :=
  ⟨ok.vaddrStart, ok.vaddrLen, ok.nodup, ok.present,
    fun r' isRegion => ok.mapped r' (List.mem_of_mem_erase isRegion),
    ok.apart.sublist List.erase_sublist⟩

/-- The regions a heap keeps are apart from one it gives up. -/
theorem PoolLayout.SpaceOk.erase_disjoint {space : Space} (ok : L.SpaceOk pf space)
    {r r' : Region} (isRegion : r ∈ space.regions) (isRegion' : r' ∈ space.regions.erase r) :
    Disjoint r.vpages r'.vpages := by
  have perm := List.perm_cons_erase isRegion
  have apart := perm.pairwise_iff (R := fun r r' : Region => Disjoint r.vpages r'.vpages)
    (fun disjoint => disjoint.symm) |>.mp ok.apart
  exact (List.pairwise_cons.mp apart).1 r' isRegion'

/-! ### Taking pages -/

/-- The addresses `page_table_add` is given for a pool. A run of user addresses
may go one page too far. -/
def AddressOk : PoolFlags → Nat → Prop
  | .kernel, vaddr => 0xc0000000 ≤ vaddr ∧ vaddr < 0xffc00000
  | .user, vaddr => vaddr < 0xc0001000

omit [DecidableEq Task] in
theorem Holds.locked_pool (holds : Holds isThread t pf s) {label : PoolLabel}
    (isLabel : label = .bitmapScan (.pool pf) ∨ label = .bitmapSet (.pool pf)) :
    Locked t label s := by
  rintro btmp pf' same isLock
  have : btmp = .pool pf := by
    rcases isLabel with rfl | rfl <;> rcases same with same | same <;> simp_all
  subst this
  simp only [BitmapId.lock, Option.some.injEq] at isLock
  rw [← isLock]
  exact holds.lock

omit [DecidableEq Task] in
theorem Holds.locked_vaddr (holds : Holds isThread t pf s) {label : PoolLabel}
    (isLabel : label = .bitmapScan (.vaddr pf) ∨ label = .bitmapSet (.vaddr pf)) :
    Locked t label s := by
  rintro btmp pf' same isLock
  have : btmp = .vaddr pf := by
    rcases isLabel with rfl | rfl <;> rcases same with same | same <;> simp_all
  subst this
  cases pf with
  | kernel =>
      simp only [BitmapId.lock, Option.some.injEq] at isLock
      rw [← isLock]
      exact holds.lock
  | user => simp [BitmapId.lock] at isLock

omit [DecidableEq Task] in
theorem locked_other {label : PoolLabel} (notScan : ∀ btmp, label ≠ .bitmapScan btmp)
    (notSet : ∀ btmp, label ≠ .bitmapSet btmp) : Locked t label s := by
  rintro btmp pf' (same | same) _
  · exact absurd same (notScan btmp)
  · exact absurd same (notSet btmp)

omit [DecidableEq Task] in
theorem pallocCode_safe (holds : Holds isThread t pf s) :
    (poolProtocol L isThread).Safe t
      (fun result s' => Holds isThread t pf s' ∧
        s'.space (halfOf t pf) = s.space (halfOf t pf) ∧
        ∃ phyAddr, result = some phyAddr ∧ L.IsFrame pf phyAddr)
      (pallocCode pf) s := by
  unfold pallocCode
  refine Protocol.Safe.read_bind fun s₁ rely₁ inv₁ => ?_
  have holds₁ := rely₁.holds holds
  refine ⟨holds₁.locked_pool (.inl rfl), fun _ => ?_⟩
  cases scanned : bitmapScan (s₁.pool pf).pool.poolBitmap 1 with
  | none => trivial
  | some bitIdx =>
      rw [bitmapScan_eq] at scanned
      simp only [if_true, Option.map_eq_some_iff] at scanned
      obtain ⟨bit, first, rfl⟩ := scanned
      obtain ⟨inside, clear, _⟩ := firstClear_some first
      simp only [show ((bit : Int) = -1) = False by simp, if_false, Int.toNat_natCast]
      intro s₂ rely₂ inv₂
      have holds₂ := rely₂.holds holds₁
      have ok := inv₂.pools pf
      have samePool := rely₂.pool holds₁
      rw [← samePool] at clear inside
      refine ⟨holds₂.locked_pool (.inr rfl), fun _ _ => ⟨?_, ?_⟩⟩
      · exact holds₂.guarantee_setPool fun ok => ok.grant clear
      · intro s₃ rely₃ _
        have holds₃ := holds₂.setPool ((s₂.pool pf).grant bit)
        refine ⟨rely₃.holds holds₃, ?_, _, rfl, bit, ?_, ?_⟩
        · rw [rely₃.space holds₃]
          exact (rely₂.space holds₁).trans (rely₁.space holds)
        · rw [← ok.len]
          exact inside
        · rw [ok.start, Nat.add_comm]

omit [DecidableEq Task] in
/-- The directory has the page table of every address `page_table_add` is
given. -/
theorem PoolLayout.Inv.tablePresent (inv : L.Inv isThread s) {vaddr : Nat}
    (address : AddressOk pf vaddr) (allowed : TablePresent t (.readPde vaddr) s) :
    s.pde t (pdeIdx vaddr) % 2 = 1 := by
  by_cases low : vaddr < 0xc0000000
  · exact allowed low
  · refine inv.pde t _ ?_ ?_
    · simp only [pdeIdx]
      omega
    · cases pf with
      | kernel =>
          obtain ⟨_, high⟩ := address
          simp only [pdeIdx]
          omega
      | user =>
          simp only [AddressOk] at address
          simp only [pdeIdx]
          omega

theorem pageTableAddCode_safe (holds : Holds isThread t pf s) {vaddr phyaddr : Nat}
    (address : AddressOk pf vaddr) :
    (poolProtocol L isThread).Safe t
      (fun _ s' => Holds isThread t pf s' ∧
        s'.space (halfOf t pf) = (s.space (halfOf t pf)).map (pageOf vaddr) phyaddr ∧
        ¬ (s.space (halfOf t pf)).pte (pageOf vaddr) % 2 = 1 ∧ halfAt t vaddr = halfOf t pf)
      (pageTableAddCode t vaddr phyaddr) s := by
  unfold pageTableAddCode
  refine Protocol.Safe.read_bind fun s₁ rely₁ inv₁ => ?_
  have holds₁ := rely₁.holds holds
  refine ⟨locked_other (by simp) (by simp), fun allowed => ?_⟩
  rw [if_pos (inv₁.tablePresent address allowed)]
  refine Protocol.Safe.read_bind fun s₂ rely₂ inv₂ => ?_
  have holds₂ := rely₂.holds holds₁
  refine ⟨locked_other (by simp) (by simp), fun _ => ?_⟩
  split
  · trivial
  · rename_i absent
    -- the one page past the user addresses is the kernel's first, and mapped
    have half : halfAt t vaddr = halfOf t pf := by
      cases pf with
      | kernel =>
          obtain ⟨low, _⟩ := address
          simp only [halfAt, halfOf, show ¬ vaddr < 0xc0000000 by omega, if_false]
      | user =>
          by_cases low : vaddr < 0xc0000000
          · simp only [halfAt, halfOf, low, if_true]
          · simp only [AddressOk] at address
            simp only [halfAt, low, if_false] at absent
            refine absurd (inv₂.image (pageOf vaddr) ?_ ?_) absent <;>
            · simp only [pageOf, pgSize]
              omega
    rw [half] at absent ⊢
    intro s₃ rely₃ inv₃
    have holds₃ := rely₃.holds holds₂
    have same : s₃.space (halfOf t pf) = s.space (halfOf t pf) := by
      rw [rely₃.space holds₂, rely₂.space holds₁, rely₁.space holds]
    rw [← rely₃.space holds₂] at absent
    refine ⟨locked_other (by simp) (by simp), fun _ _ => ⟨?_, ?_⟩⟩
    · refine holds₃.guarantee_setSpace (fun ok => ok.map absent phyaddr) ?_
      intro page low high isPresent isKernel
      subst isKernel
      by_cases isPage : page = pageOf vaddr
      · subst isPage
        simpa [Space.map] using pteOf_present phyaddr
      · simpa [Space.map, isPage, halfOf] using isPresent
    · have holds₄ := holds₃.setSpace (halfOf t pf)
        ((s₃.space (halfOf t pf)).map (pageOf vaddr) phyaddr)
      intro s₄ rely₄ _
      refine ⟨rely₄.holds holds₄, ?_, ?_, rfl⟩
      · rw [rely₄.space holds₄, ← same]
        simp [PoolShared.setSpace]
      · rw [← same]
        exact absent

theorem setVaddrBits_safe {bitIdxStart : Nat} {value : Bool} {cnt : Nat} :
    ∀ {s : PoolShared Task}, Holds isThread t pf s → L.Inv isThread s →
      (poolProtocol L isThread).Safe t
        (fun _ s' => Holds isThread t pf s' ∧
          (s'.space (halfOf t pf)).pte = (s.space (halfOf t pf)).pte ∧
          (s'.space (halfOf t pf)).regions = (s.space (halfOf t pf)).regions)
        (setVaddrBits t pf bitIdxStart value cnt) s := by
  induction cnt with
  | zero =>
      intro s holds _
      refine Protocol.Safe.pure fun s₁ rely₁ _ => ⟨rely₁.holds holds, ?_, ?_⟩ <;>
        rw [rely₁.space holds]
  | succ cnt inductionHypothesis =>
      intro s holds inv
      refine Protocol.Safe.bind (inductionHypothesis holds inv) inv ?_
      rintro _ s₁ inv₁ ⟨holds₁, samePte, sameRegions⟩ s₂ rely₂ inv₂
      have holds₂ := rely₂.holds holds₁
      refine ⟨holds₂.locked_vaddr (.inr rfl), fun _ _ => ⟨?_, ?_⟩⟩
      · refine holds₂.guarantee_setSpace (fun ok => ok.setVaddrBit _ value) ?_
        rintro page low high isPresent rfl
        exact isPresent
      · have holds₃ := holds₂.setSpace (halfOf t pf)
          ((s₂.space (halfOf t pf)).setVaddrBit (bitIdxStart + cnt) value)
        intro s₃ rely₃ _
        refine ⟨rely₃.holds holds₃, ?_, ?_⟩
        · rw [rely₃.space holds₃, ← samePte, ← rely₂.space holds₁]
          simp [PoolShared.setSpace, Space.setVaddrBit]
        · rw [rely₃.space holds₃, ← sameRegions, ← rely₂.space holds₁]
          simp [PoolShared.setSpace, Space.setVaddrBit]

/-- The first address of a run `vaddr_get` returns for a pool. -/
structure RunOk (L : PoolLayout) (pf : PoolFlags) (vaddr pgCnt : Nat) : Prop where
  aligned : vaddr % pgSize = 0
  low : L.vaddrStart pf ≤ vaddr
  high : vaddr + pgCnt * pgSize ≤ L.vaddrStart pf + (8 * L.vaddrLen pf + 1) * pgSize

theorem vaddrGetCode_safe (holds : Holds isThread t pf s) {pgCnt : Nat} :
    (poolProtocol L isThread).Safe t
      (fun result s' => Holds isThread t pf s' ∧ ∀ vaddr, result = some vaddr →
        RunOk L pf vaddr pgCnt)
      (vaddrGetCode t pf pgCnt) s := by
  unfold vaddrGetCode
  refine Protocol.Safe.read_bind fun s₁ rely₁ inv₁ => ?_
  have holds₁ := rely₁.holds holds
  refine ⟨holds₁.locked_vaddr (.inl rfl), fun _ => ?_⟩
  cases scanned : bitmapScan (s₁.space (halfOf t pf)).vaddr.vaddrBitmap pgCnt with
  | none => trivial
  | some bitIdxStart =>
      rcases bitmapScan_spec scanned with rfl | ⟨bit, rfl, upper, _, _⟩
      · exact Protocol.Safe.pure fun s₂ rely₂ _ => ⟨rely₂.holds holds₁, by simp⟩
      · simp only [show ((bit : Int) = -1) = False by simp, if_false, Int.toNat_natCast]
        refine Protocol.Safe.bind (setVaddrBits_safe holds₁ inv₁) inv₁ ?_
        rintro _ s₂ inv₂ ⟨holds₂, _, _⟩
        split
        · trivial
        · refine Protocol.Safe.pure fun s₃ rely₃ _ => ⟨rely₃.holds holds₂, ?_⟩
          rintro vaddr ⟨⟩
          have space := inv₁.space holds₁
          have aligned := L.vaddrAligned pf
          rw [space.vaddrLen] at upper
          rw [space.vaddrStart]
          refine ⟨?_, by omega, ?_⟩
          · simp only [pgSize] at aligned ⊢
            omega
          · simp only [pgSize]
            omega

theorem RunOk.addressOk {vaddr pgCnt i : Nat} (run : RunOk L pf vaddr pgCnt) (inside : i < pgCnt) :
    AddressOk pf (vaddr + i * pgSize) := by
  obtain ⟨_, low, high⟩ := run
  cases pf with
  | kernel =>
      have := L.kernelLow
      have := L.kernelHigh
      simp only [AddressOk, pgSize] at *
      omega
  | user =>
      have := L.userHigh
      simp only [AddressOk, pgSize] at *
      omega

theorem RunOk.succ {vaddr cnt : Nat} (run : RunOk L pf vaddr (cnt + 1)) :
    RunOk L pf (vaddr + pgSize) cnt := by
  obtain ⟨aligned, low, high⟩ := run
  simp only [pgSize] at aligned high
  refine ⟨?_, ?_, ?_⟩ <;>
  · simp only [pgSize]
    omega

omit [DecidableEq Task] in
theorem RunOk.inHalf {vaddr cnt : Nat} (run : RunOk L pf vaddr cnt)
    (half : halfAt t vaddr = halfOf t pf) : PoolLayout.InHalf pf (pageOf vaddr) := by
  cases pf with
  | kernel =>
      have := L.kernelLow
      have := run.low
      simp only [PoolLayout.InHalf, pageOf, pgSize]
      omega
  | user =>
      simp only [PoolLayout.InHalf, pageOf, pgSize]
      by_contra high
      simp only [halfAt, halfOf, show ¬ vaddr < 0xc0000000 by omega, if_false] at half
      cases half

/-- The pages of a run get frames of the pool; they were not mapped before. -/
structure MappedFrom (L : PoolLayout) (pf : PoolFlags) (space space' : Space) (first cnt : Nat)
    (frames : Option (List Nat)) : Prop where
  regions : space'.regions = space.regions
  outside : ∀ page, page ∉ Set.Ico first (first + cnt) → space'.pte page = space.pte page
  mapped : ∀ frames', frames = some frames' → frames'.length = cnt ∧
    L.MappedRun pf space'.pte first frames' ∧
    ∀ page ∈ Set.Ico first (first + cnt), ¬ space.pte page % 2 = 1

theorem MappedFrom.cons {space space' : Space} {first cnt phyaddr : Nat}
    {frames : Option (List Nat)} (absent : ¬ space.pte first % 2 = 1)
    (isFrame : L.IsFrame pf phyaddr) (inHalf : PoolLayout.InHalf pf first)
    (rest : MappedFrom L pf (space.map first phyaddr) space' (first + 1) cnt frames) :
    MappedFrom L pf space space' first (cnt + 1) (frames.map (phyaddr :: ·)) := by
  have firstEntry : space'.pte first = pteOf phyaddr := by
    rw [rest.outside first (by simp)]
    simp [Space.map]
  refine ⟨rest.regions, fun page out => ?_, fun frames' isSome => ?_⟩
  · have notFirst : page ≠ first := by
      rintro rfl
      exact out ⟨le_refl _, by omega⟩
    have notRest : page ∉ Set.Ico (first + 1) (first + 1 + cnt) := by
      rintro ⟨low, high⟩
      exact out ⟨by omega, by omega⟩
    rw [rest.outside page notRest]
    simp [Space.map, notFirst]
  · obtain ⟨tail, isTail, rfl⟩ := Option.map_eq_some_iff.mp isSome
    obtain ⟨length, run, fresh⟩ := rest.mapped tail isTail
    refine ⟨by simp [length], ⟨⟨firstEntry, isFrame, inHalf⟩, run⟩, ?_⟩
    rintro page ⟨low, high⟩
    by_cases isFirst : page = first
    · subst isFirst
      exact absent
    · have := fresh page ⟨by omega, by omega⟩
      simpa [Space.map, isFirst] using this

theorem mapPagesCode_safe {cnt : Nat} :
    ∀ {s : PoolShared Task} {vaddr : Nat}, Holds isThread t pf s → L.Inv isThread s →
      RunOk L pf vaddr cnt →
      (poolProtocol L isThread).Safe t
        (fun result s' => Holds isThread t pf s' ∧
          MappedFrom L pf (s.space (halfOf t pf)) (s'.space (halfOf t pf)) (pageOf vaddr) cnt
            result)
        (mapPagesCode t pf cnt vaddr) s := by
  induction cnt with
  | zero =>
      intro s vaddr holds _ _
      refine Protocol.Safe.pure fun s₁ rely₁ _ => ⟨rely₁.holds holds, ?_⟩
      rw [rely₁.space holds]
      refine ⟨rfl, fun _ _ => rfl, ?_⟩
      rintro frames ⟨⟩
      exact ⟨rfl, trivial, fun page mem => absurd mem (by simp)⟩
  | succ cnt inductionHypothesis =>
      intro s vaddr holds inv run
      refine Protocol.Safe.bind (pallocCode_safe holds) inv ?_
      rintro _ s₁ inv₁ ⟨holds₁, same₁, phyaddr, rfl, isFrame⟩
      have address := run.addressOk (i := 0) (by omega)
      simp only [Nat.zero_mul, Nat.add_zero] at address
      refine Protocol.Safe.bind (pageTableAddCode_safe holds₁ address) inv₁ ?_
      rintro _ s₂ inv₂ ⟨holds₂, same₂, absent, half⟩
      refine Protocol.Safe.bind (inductionHypothesis holds₂ inv₂ run.succ) inv₂ ?_
      rintro frames s₃ inv₃ ⟨holds₃, rest⟩
      refine Protocol.Safe.pure fun s₄ rely₄ _ => ⟨rely₄.holds holds₃, ?_⟩
      rw [rely₄.space holds₃]
      have nextPage : pageOf (vaddr + pgSize) = pageOf vaddr + 1 := by
        simp only [pageOf, pgSize]
        omega
      rw [same₂, same₁, nextPage] at rest
      rw [same₁] at absent
      exact rest.cons absent isFrame (run.inHalf half)

/-- A region that is mapped and shares no page with one of the heap. -/
def FreshRegion (L : PoolLayout) (pf : PoolFlags) (space : Space) (r : Region) : Prop :=
  L.MappedRun pf space.pte (pageOf r.vaddr) r.frames ∧
    ∀ r' ∈ space.regions, Disjoint r.vpages r'.vpages

theorem mallocPageCode_safe (holds : Holds isThread t pf s) (inv : L.Inv isThread s)
    {pgCnt : Nat} :
    (poolProtocol L isThread).Safe t
      (fun result s' => Holds isThread t pf s' ∧ ∀ r, result = some r →
        FreshRegion L pf (s'.space (halfOf t pf)) r)
      (mallocPageCode t pf pgCnt) s := by
  unfold mallocPageCode
  split
  · refine Protocol.Safe.bind (vaddrGetCode_safe holds) inv ?_
    rintro result s₁ inv₁ ⟨holds₁, run⟩
    cases result with
    | none => exact Protocol.Safe.pure fun s₂ rely₂ _ => ⟨rely₂.holds holds₁, by simp⟩
    | some vaddr =>
        refine Protocol.Safe.bind (mapPagesCode_safe holds₁ inv₁ (run vaddr rfl)) inv₁ ?_
        rintro frames s₂ inv₂ ⟨holds₂, mapped⟩
        refine Protocol.Safe.pure fun s₃ rely₃ _ => ⟨rely₃.holds holds₂, ?_⟩
        intro r isSome
        obtain ⟨frames', isFrames, rfl⟩ := Option.map_eq_some_iff.mp isSome
        obtain ⟨length, mappedRun, fresh⟩ := mapped.mapped frames' isFrames
        rw [rely₃.space holds₂]
        refine ⟨mappedRun, fun r' isRegion => Set.disjoint_left.mpr fun page mem => ?_⟩
        rw [mapped.regions] at isRegion
        simp only [Region.vpages, length] at mem
        exact (inv₁.space holds₁).not_mem (fresh page mem) isRegion
  · trivial

/-! ### Giving pages back -/

omit [DecidableEq Task] in
theorem PoolLayout.InHalf.halfAt_eq {vaddr : Nat} (inHalf : PoolLayout.InHalf pf (pageOf vaddr)) :
    halfAt t vaddr = halfOf t pf := by
  cases pf with
  | kernel =>
      simp only [InHalf, pageOf, pgSize] at inHalf
      simp only [halfAt, halfOf, show ¬ vaddr < 0xc0000000 by omega, if_false]
  | user =>
      simp only [InHalf, pageOf, pgSize] at inHalf
      simp only [halfAt, halfOf, show vaddr < 0xc0000000 by omega, if_true]

theorem PoolLayout.IsFrame.aligned {frame : Nat} (isFrame : L.IsFrame pf frame) :
    frame % pgSize = 0 := by
  obtain ⟨bit, _, rfl⟩ := isFrame
  have := L.aligned pf
  simp only [pgSize] at this ⊢
  omega

/-- `pfree` finds the pool of a frame. -/
theorem PoolLayout.IsFrame.poolOf {frame : Nat} (isFrame : L.IsFrame pf frame) :
    (if frame ≥ L.start .user then PoolFlags.user else .kernel) = pf := by
  obtain ⟨bit, inside, rfl⟩ := isFrame
  cases pf with
  | kernel =>
      have := L.order
      refine if_neg ?_
      simp only [pgSize] at this ⊢
      omega
  | user => exact if_pos (by omega)

omit [DecidableEq Task] in
theorem pfreeCode_safe (holds : Holds isThread t pf s) {frame : Nat}
    (isFrame : L.IsFrame pf frame) :
    (poolProtocol L isThread).Safe t
      (fun _ s' => Holds isThread t pf s' ∧
        s'.space (halfOf t pf) = s.space (halfOf t pf))
      (pfreeCode pf frame frame) s := by
  unfold pfreeCode
  refine Protocol.Safe.read_bind fun s₁ rely₁ inv₁ => ?_
  have holds₁ := rely₁.holds holds
  refine ⟨locked_other (by simp) (by simp), fun _ => ?_⟩
  simp only [(inv₁.pools .user).start, isFrame.poolOf]
  intro s₂ rely₂ inv₂
  have holds₂ := rely₂.holds holds₁
  refine ⟨holds₂.locked_pool (.inr rfl), fun _ _ => ?_⟩
  have once : ∀ a b : PoolRes, (s₂.setPool pf a).setPool pf b = s₂.setPool pf b := by
    intro a b
    simp [PoolShared.setPool]
  have gets : ∀ a : PoolRes, (s₂.setPool pf a).pool pf = a := by
    intro a
    simp [PoolShared.setPool]
  simp only [once, gets]
  refine ⟨holds₂.guarantee_setPool fun ok => ok.free isFrame, ?_⟩
  intro s₃ rely₃ _
  have holds₃ := holds₂.setPool
    (((s₂.pool pf).clear ((frame - (s₂.pool pf).pool.phyAddrStart) / pgSize)).release frame)
  refine ⟨rely₃.holds holds₃, ?_⟩
  rw [rely₃.space holds₃]
  exact (rely₂.space holds₁).trans (rely₁.space holds)

/-- A page that belongs to a heap translates to its frame. -/
theorem addrV2p_pteOf {vaddr frame : Nat} (aligned : vaddr % pgSize = 0)
    (frameAligned : frame % pgSize = 0) :
    pteOf frame / pgSize * pgSize + vaddr % pgSize = frame := by
  rw [pteOf_eq frameAligned]
  simp only [pgSize] at aligned frameAligned ⊢
  omega

theorem unmapPagesCode_safe {inPool : Nat → Bool} {frames : List Nat} :
    ∀ {s : PoolShared Task} {vaddr : Nat}, Holds isThread t pf s → L.Inv isThread s →
      vaddr % pgSize = 0 →
      L.MappedRun pf (s.space (halfOf t pf)).pte (pageOf vaddr) frames →
      (∀ r ∈ (s.space (halfOf t pf)).regions,
        Disjoint (Set.Ico (pageOf vaddr) (pageOf vaddr + frames.length)) r.vpages) →
      (poolProtocol L isThread).Safe t (fun _ s' => Holds isThread t pf s')
        (unmapPagesCode t pf inPool frames vaddr) s := by
  induction frames with
  | nil =>
      intro s vaddr holds _ _ _ _
      exact Protocol.Safe.pure fun s₁ rely₁ _ => rely₁.holds holds
  | cons frame frames inductionHypothesis =>
      rintro s vaddr holds inv aligned ⟨⟨entry, isFrame, inHalf⟩, rest⟩ apart
      have half : halfAt t vaddr = halfOf t pf := inHalf.halfAt_eq
      unfold unmapPagesCode
      refine Protocol.Safe.read_bind fun s₁ rely₁ inv₁ => ?_
      have holds₁ := rely₁.holds holds
      refine ⟨locked_other (by simp) (by simp), fun _ => ?_⟩
      rw [half, rely₁.space holds, entry, addrV2p_pteOf aligned isFrame.aligned]
      split
      · refine Protocol.Safe.bind (pfreeCode_safe holds₁ isFrame) inv₁ ?_
        rintro _ s₂ inv₂ ⟨holds₂, same₂⟩
        refine Protocol.Safe.write_bind fun s₃ rely₃ inv₃ => ?_
        have holds₃ := rely₃.holds holds₂
        have same₃ : s₃.space (halfOf t pf) = s.space (halfOf t pf) := by
          rw [rely₃.space holds₂, same₂, rely₁.space holds]
        have outside : ∀ r ∈ (s₃.space (halfOf t pf)).regions, pageOf vaddr ∉ r.vpages := by
          intro r isRegion
          rw [same₃] at isRegion
          exact Set.disjoint_left.mp (apart r isRegion) ⟨le_refl _, by simp⟩
        have guarantee : (poolProtocol L isThread).Guarantee t s₃ (s₃.setSpace (halfOf t pf)
            ((s₃.space (halfOf t pf)).unmap (pageOf vaddr))) := by
          refine holds₃.guarantee_setSpace (fun ok => ok.unmap outside) ?_
          rintro page low high isPresent rfl
          have ne : page ≠ pageOf vaddr := by
            simp only [PoolLayout.InHalf] at inHalf
            omega
          simpa [Space.unmap, ne, halfOf] using isPresent
        refine ⟨locked_other (by simp) (by simp), guarantee, ?_⟩
        have nextPage : pageOf (vaddr + pgSize) = pageOf vaddr + 1 := by
          simp only [pageOf, pgSize]
          omega
        have nextAligned : (vaddr + pgSize) % pgSize = 0 := by
          simp only [pgSize] at aligned ⊢
          omega
        refine inductionHypothesis (holds₃.setSpace _ _) (guarantee.1 inv₃) nextAligned ?_ ?_
        · rw [nextPage]
          refine rest.congr ?_
          rintro page ⟨low, _⟩
          have ne : page ≠ pageOf vaddr := by omega
          simp [PoolShared.setSpace, Space.unmap, ne, same₃]
        · rw [nextPage]
          intro r isRegion
          simp only [PoolShared.setSpace, Function.update_self, Space.unmap, same₃] at isRegion
          refine (apart r isRegion).mono_left ?_
          rintro page ⟨low, high⟩
          simp only [List.length_cons]
          exact ⟨by omega, by omega⟩
      · trivial

theorem mfreePageCode_safe (holds : Holds isThread t pf s) {r : Region}
    (fresh : FreshRegion L pf (s.space (halfOf t pf)) r) :
    (poolProtocol L isThread).Safe t (fun _ s' => Holds isThread t pf s')
      (mfreePageCode t pf r) s := by
  unfold mfreePageCode
  split
  · rename_i args
    refine Protocol.Safe.read_bind fun s₁ rely₁ inv₁ => ?_
    have holds₁ := rely₁.holds holds
    refine ⟨locked_other (by simp) (by simp), fun _ => ?_⟩
    refine Protocol.Safe.read_bind fun s₂ rely₂ inv₂ => ?_
    have holds₂ := rely₂.holds holds₁
    have same : s₂.space (halfOf t pf) = s.space (halfOf t pf) := by
      rw [rely₂.space holds₁, rely₁.space holds]
    refine ⟨locked_other (by simp) (by simp), fun _ => ?_⟩
    dsimp only
    split
    · obtain ⟨mapped, apart⟩ := fresh
      rw [← same] at mapped apart
      refine Protocol.Safe.bind (unmapPagesCode_safe holds₂ inv₂ args.2 mapped apart) inv₂ ?_
      intro _ s₃ inv₃ holds₃
      refine Protocol.Safe.read_bind fun s₄ rely₄ inv₄ => ?_
      have holds₄ := rely₄.holds holds₃
      refine ⟨locked_other (by simp) (by simp), fun _ => ?_⟩
      exact (setVaddrBits_safe holds₄ inv₄).mono fun _ _ _ after => after.1
    · trivial
  · trivial

/-! ### The calls -/

omit [DecidableEq Task] in
theorem guarantee_lockAcquire (isFree : s.lock pf = none) :
    (poolProtocol L isThread).Guarantee t s (s.setLock pf (some t)) := by
  refine ⟨fun inv => ⟨inv.pools, inv.kernelHalf, inv.userHalf, inv.image, inv.pde,
    inv.pgdirNull⟩, fun other ne => ⟨fun pf' isHeld => ⟨?_, rfl⟩, fun _ => rfl,
    fun pf' notHeld => ?_, rfl, rfl⟩⟩
  · by_cases same : pf' = pf
    · subst same
      rw [isFree] at isHeld
      cases isHeld
    · simpa [PoolShared.setLock, same] using isHeld
  · by_cases same : pf' = pf
    · subst same
      simpa [PoolShared.setLock] using Ne.symm ne
    · simpa [PoolShared.setLock, same] using notHeld

omit [DecidableEq Task] in
theorem lockAcquire_safe {post : Unit → PoolShared Task → Prop} {rest : Unit → PoolCode Task Unit}
    (idle : ∀ pf, s.lock pf ≠ some t) (thread : isThread t = decide (pf = .kernel))
    (after : ∀ s', Holds isThread t pf s' → L.Inv isThread s' →
      (poolProtocol L isThread).Safe t post (rest ()) s') :
    (poolProtocol L isThread).Safe t post (lockAcquire t pf >>= rest) s := by
  refine Protocol.Safe.await_bind fun s₁ rely₁ inv₁ => ?_
  refine ⟨locked_other (by simp) (by simp), fun isFree => ?_⟩
  have guarantee : (poolProtocol L isThread).Guarantee t s₁ (s₁.setLock pf (some t)) :=
    guarantee_lockAcquire (of_decide_eq_true isFree)
  refine ⟨guarantee, after _ ⟨by simp [PoolShared.setLock], fun other ne => ?_, thread⟩
    (guarantee.1 inv₁)⟩
  have := rely₁.notHeld other (idle other)
  simpa [PoolShared.setLock, ne] using this

omit [DecidableEq Task] in
theorem lockRelease_safe (holds : Holds isThread t pf s) :
    (poolProtocol L isThread).Safe t (fun _ => (poolProtocol L isThread).idle t)
      (lockRelease pf) s := by
  intro s₁ rely₁ inv₁
  have holds₁ := rely₁.holds holds
  refine ⟨locked_other (by simp) (by simp), fun _ _ => ⟨⟨fun inv => ⟨inv.pools, inv.kernelHalf,
    inv.userHalf, inv.image, inv.pde, inv.pgdirNull⟩, fun other ne => ?_⟩, ?_⟩⟩
  · refine ⟨fun pf' isHeld => ⟨?_, rfl⟩, fun _ => rfl, fun pf' notHeld => ?_, rfl, rfl⟩
    · by_cases same : pf' = pf
      · subst same
        rw [holds₁.lock] at isHeld
        exact absurd (by simpa using isHeld.symm) ne
      · simpa [PoolShared.setLock, same] using isHeld
    · by_cases same : pf' = pf
      · subst same
        simp [PoolShared.setLock]
      · simpa [PoolShared.setLock, same] using notHeld
  · intro s₂ rely₂ _ pf'
    refine rely₂.notHeld pf' ?_
    by_cases same : pf' = pf
    · subst same
      simp [PoolShared.setLock]
    · simpa [PoolShared.setLock, same] using holds₁.other pf' same

theorem getUserPages_safe (idle : ∀ pf, s.lock pf ≠ some t) (isProcess : isThread t = false)
    (pgCnt : Nat) :
    (poolProtocol L isThread).Safe t (fun _ => (poolProtocol L isThread).idle t)
      (getUserPages t pgCnt) s := by
  refine lockAcquire_safe idle (by simpa using isProcess) fun s₁ holds₁ inv₁ => ?_
  refine Protocol.Safe.bind (mallocPageCode_safe holds₁ inv₁) inv₁ ?_
  exact fun _ s₂ _ after => lockRelease_safe after.1

omit [DecidableEq Task] in
theorem poolOf_thread (isThread : Task → Bool) (t : Task) :
    isThread t = decide (poolOf (isThread t) = .kernel) := by
  cases isThread t <;> rfl

theorem sysMallocCode_safe (idle : ∀ pf, s.lock pf ≠ some t) (pgCnt : Option Nat) :
    (poolProtocol L isThread).Safe t (fun _ => (poolProtocol L isThread).idle t)
      (sysMallocCode t pgCnt) s := by
  refine Protocol.Safe.read_bind fun s₁ rely₁ inv₁ => ?_
  refine ⟨locked_other (by simp) (by simp), fun _ => ?_⟩
  rw [inv₁.pgdirNull]
  refine lockAcquire_safe (fun pf => rely₁.notHeld pf (idle pf)) (poolOf_thread isThread t)
    fun s₂ holds₂ inv₂ => ?_
  cases pgCnt with
  | none => exact lockRelease_safe holds₂
  | some cnt =>
      refine Protocol.Safe.bind (mallocPageCode_safe holds₂ inv₂) inv₂ ?_
      rintro result s₃ inv₃ ⟨holds₃, fresh⟩
      cases result with
      | none => exact lockRelease_safe holds₃
      | some r =>
          refine Protocol.Safe.write_bind fun s₄ rely₄ inv₄ => ?_
          have holds₄ := rely₄.holds holds₃
          obtain ⟨mapped, apart⟩ := fresh r rfl
          rw [← rely₄.space holds₃] at mapped apart
          refine ⟨locked_other (by simp) (by simp), ?_, lockRelease_safe (holds₄.setSpace _ _)⟩
          refine holds₄.guarantee_setSpace (fun ok => ok.addRegion mapped apart) ?_
          intro page _ _ isPresent isKernel
          rw [isKernel]
          exact isPresent

theorem sysFreeCode_safe (idle : ∀ pf, s.lock pf ≠ some t) (r : Option Region) :
    (poolProtocol L isThread).Safe t (fun _ => (poolProtocol L isThread).idle t)
      (sysFreeCode t r) s := by
  refine Protocol.Safe.read_bind fun s₁ rely₁ inv₁ => ?_
  refine ⟨locked_other (by simp) (by simp), fun _ => ?_⟩
  rw [inv₁.pgdirNull]
  refine lockAcquire_safe (fun pf => rely₁.notHeld pf (idle pf)) (poolOf_thread isThread t)
    fun s₂ holds₂ inv₂ => ?_
  cases r with
  | none => exact lockRelease_safe holds₂
  | some r =>
      refine Protocol.Safe.await_bind fun s₃ rely₃ inv₃ => ?_
      have holds₃ := rely₃.holds holds₂
      refine ⟨locked_other (by simp) (by simp), fun isRegion => ?_⟩
      simp only [decide_eq_true_eq] at isRegion
      have ok := inv₃.space holds₃
      have guarantee := holds₃.guarantee_setSpace (L := L) (fun ok => ok.eraseRegion r) (by
        intro page _ _ isPresent isKernel
        rw [isKernel]
        exact isPresent)
      refine ⟨guarantee, ?_⟩
      refine Protocol.Safe.bind (mfreePageCode_safe (holds₃.setSpace _ _) ?_)
        (guarantee.1 inv₃) fun _ s₄ _ holds₄ => lockRelease_safe holds₄
      simp only [PoolShared.setSpace, Function.update_self]
      exact ⟨ok.mapped r isRegion, fun r' isRegion' => ok.erase_disjoint isRegion isRegion'⟩

theorem getAPage_safe (idle : ∀ pf, s.lock pf ≠ some t) {vaddr : Nat}
    (wellFormed : (PoolCall.getAPage pf vaddr).WellFormed (isThread t)) :
    (poolProtocol L isThread).Safe t (fun _ => (poolProtocol L isThread).idle t)
      (getAPage t pf vaddr) s := by
  have address : AddressOk pf vaddr := by
    cases pf with
    | kernel => exact wellFormed
    | user =>
        simp only [PoolCall.WellFormed] at wellFormed
        simp only [AddressOk]
        omega
  by_cases thread : isThread t = decide (pf = .kernel)
  · refine lockAcquire_safe idle thread fun s₁ holds₁ inv₁ => ?_
    refine Protocol.Safe.read_bind fun s₂ rely₂ inv₂ => ?_
    have holds₂ := rely₂.holds holds₁
    refine ⟨locked_other (by simp) (by simp), fun _ => ?_⟩
    dsimp only
    split
    · split
      · trivial
      · refine Protocol.Safe.write_bind fun s₃ rely₃ inv₃ => ?_
        have holds₃ := rely₃.holds holds₂
        have guarantee := holds₃.guarantee_setSpace (L := L)
          (fun ok => ok.setVaddrBit ((vaddr + 2 ^ 32 -
            (s₂.space (halfOf t pf)).vaddr.vaddrStart) % 2 ^ 32 / pgSize) true) (by
          intro page _ _ isPresent isKernel
          rw [isKernel]
          exact isPresent)
        refine ⟨holds₃.locked_vaddr (.inr rfl), guarantee, ?_⟩
        refine Protocol.Safe.bind (pallocCode_safe (holds₃.setSpace _ _)) (guarantee.1 inv₃) ?_
        rintro _ s₄ inv₄ ⟨holds₄, _, phyaddr, rfl, _⟩
        refine Protocol.Safe.bind (pageTableAddCode_safe holds₄ address) inv₄ ?_
        exact fun _ s₅ _ after => lockRelease_safe after.1
    · trivial
  · refine Protocol.Safe.await_bind fun s₁ rely₁ inv₁ => ?_
    refine ⟨locked_other (by simp) (by simp), fun isFree => ?_⟩
    refine ⟨guarantee_lockAcquire (of_decide_eq_true isFree), ?_⟩
    refine Protocol.Safe.read_bind fun s₂ rely₂ inv₂ => ?_
    refine ⟨locked_other (by simp) (by simp), fun _ => ?_⟩
    -- the task is of the other kind, and the source panics
    rw [inv₂.pgdirNull]
    dsimp only
    rw [if_neg]
    · trivial
    · rintro (⟨isProcess, rfl⟩ | ⟨isKernel, rfl⟩)
      · exact thread isProcess
      · exact thread isKernel

end

/-! ### Runs -/

/-- The calls a task may make, other than `get_kernel_pages`. -/
def IsLockedCall (isThread : Task → Bool) (t : Task) (body : PoolCode Task Unit) : Prop :=
  ∃ call : PoolCall, call.WellFormed (isThread t) ∧ (∀ pgCnt, call ≠ .getKernelPages pgCnt) ∧
    body = call.code t

theorem IsLockedCall.safe {L : PoolLayout} {isThread : Task → Bool} {t : Task}
    {body : PoolCode Task Unit} (isCall : IsLockedCall isThread t body) (s : PoolShared Task)
    (idle : ∀ pf, s.lock pf ≠ some t) :
    (poolProtocol L isThread).Safe t (fun _ => (poolProtocol L isThread).idle t) body s := by
  obtain ⟨call, wellFormed, notKernelPages, rfl⟩ := isCall
  cases call with
  | sysMalloc pgCnt => exact sysMallocCode_safe idle pgCnt
  | sysFree r => exact sysFreeCode_safe idle r
  | getKernelPages pgCnt => exact absurd rfl (notKernelPages pgCnt)
  | getUserPages pgCnt => exact getUserPages_safe idle wellFormed pgCnt
  | getAPage pf vaddr => exact getAPage_safe idle wellFormed

theorem userPool_aligned (loaded : MemState) (allMem : Nat) :
    (memPoolInit loaded allMem).userPool.phyAddrStart % pgSize = 0 := by
  simp only [memPoolInit, usedMem, pgSize]
  omega

theorem userVaddr_aligned : 0x8048000 % pgSize = 0 := by
  simp only [pgSize]

theorem kHeapStart_aligned : kHeapStart % pgSize = 0 := by
  simp only [kHeapStart, pgSize]

theorem userVaddr_high : 0x8048000 + 8 * userBitmapLen * pgSize ≤ 0xc0000000 := by
  decide

/-- Where `mem_pool_init` puts the pools and `create_user_vaddr_bitmap` the user
addresses. -/
def bootLayout {loaded : MemState} (tables : KernelTables loaded) (allMem : Nat) : PoolLayout where
  start
    | .kernel => (memPoolInit loaded allMem).kernelPool.phyAddrStart
    | .user => (memPoolInit loaded allMem).userPool.phyAddrStart
  len
    | .kernel => (memPoolInit loaded allMem).kernelPool.poolBitmap.btmpBytesLen
    | .user => (memPoolInit loaded allMem).userPool.poolBitmap.btmpBytesLen
  vaddrStart
    | .kernel => kHeapStart
    | .user => 0x8048000
  vaddrLen
    | .kernel => (memPoolInit loaded allMem).kernelVaddr.vaddrBitmap.btmpBytesLen
    | .user => userBitmapLen
  aligned
    | .kernel => (memPoolInit_layout tables allMem).phyAligned
    | .user => userPool_aligned loaded allMem
  order := (memPoolInit_layout tables allMem).phyHigh
  vaddrAligned
    | .kernel => kHeapStart_aligned
    | .user => userVaddr_aligned
  kernelLow := Nat.le_refl kHeapStart
  kernelHigh := (memPoolInit_layout tables allMem).vaddrHigh
  userHigh := userVaddr_high

omit [DecidableEq Task] in
theorem PoolInitial.inv {isThread : Task → Bool} {c : System Task (PoolShared Task) PoolLabel}
    (initial : PoolInitial isThread c) : ∃ L : PoolLayout, L.Inv isThread c.shared := by
  obtain ⟨loaded, allMem, tables, image, kernelPool, userPool, kernelHalf⟩ := initial.booted
  refine ⟨bootLayout tables allMem, ?_, ?_, ?_, ?_, initial.pde, initial.pgdirNull⟩
  · intro pf
    cases pf with
    | kernel =>
        rw [kernelPool]
        exact ⟨rfl, rfl, List.nodup_nil, by simp⟩
    | user =>
        rw [userPool]
        exact ⟨rfl, rfl, List.nodup_nil, by simp⟩
  · rw [kernelHalf]
    exact ⟨rfl, rfl, List.nodup_nil, by simp, by simp, List.Pairwise.nil⟩
  · intro t isProcess
    obtain ⟨vaddrStart, vaddrLen⟩ := initial.process t isProcess
    obtain ⟨pages, regions⟩ := initial.empty t
    refine ⟨vaddrStart, vaddrLen, ?_, ?_, ?_, ?_⟩ <;> simp [pages, regions]
  · rw [kernelHalf]
    exact image

/-- In every run in which no task calls `get_kernel_pages` and every request for
user pages finds its page table, every scan and set is under its lock and
nothing is handed out twice. -/
theorem pools_exclusive {isThread : Task → Bool}
    {start c : System Task (PoolShared Task) PoolLabel} (initial : PoolInitial isThread start)
    (run : System.Run (IsLockedCall isThread) TablePresent start c) : PoolsExclusive c := by
  obtain ⟨L, inv⟩ := initial.inv
  have idle : ∀ t, start.code t = .done () ∧ ∀ s, PoolRely t start.shared s → L.Inv isThread s →
      ∀ pf, s.lock pf ≠ some t := by
    refine fun t => ⟨initial.idle t, fun s rely _ pf => rely.notHeld pf ?_⟩
    rw [initial.locks pf]
    simp
  obtain ⟨after, safe⟩ := Protocol.run (P := poolProtocol L isThread)
    (fun t body isCall s _ idle => isCall.safe s idle) inv idle run
  exact ⟨fun t label isNext => (safe t).good after isNext, fun pf => (after.pools pf).nodup,
    after.kernelHalf.nodup⟩

/-! ### Two kernel threads -/

/-- The system after `mem_pool_init` with 32 megabytes; both tasks are kernel
threads. -/
def twoThreads (code : Bool → PoolCode Bool Unit) : System Bool (PoolShared Bool) PoolLabel where
  shared :=
    { pool := fun
        | .kernel => ⟨(memPoolInit loaderMem 0x2000000).kernelPool, []⟩
        | .user => ⟨(memPoolInit loaderMem 0x2000000).userPool, []⟩
      lock := fun _ => none
      space := fun
        | none => ⟨(memPoolInit loaderMem 0x2000000).kernelVaddr, loaderMem.pte, [], []⟩
        | some _ => ⟨loaderMem.userprogVaddr, fun _ => 0, [], []⟩
      pde := fun _ _ => 7
      pgdirNull := fun _ => true }
  code := code

theorem twoThreads_initial : PoolInitial (fun _ => true) (twoThreads fun _ => .done ()) := by
  refine ⟨⟨loaderMem, 0x2000000, loaderMem_tables, ?_, rfl, rfl, rfl⟩, fun _ => rfl,
    fun _ _ _ _ => by simp [twoThreads], fun _ isProcess => (by cases isProcess),
    fun _ => ⟨rfl, rfl⟩, rfl, fun _ => rfl⟩
  intro page _ high
  simp [loaderMem, high]

/-- Both threads are at the start of `get_kernel_pages(1)`. -/
def bothCall : Bool → PoolCode Bool Unit :=
  Function.update (Function.update (fun _ => .done ()) false (getKernelPages false 1)) true
    (getKernelPages true 1)

/-- The second thread runs `get_kernel_pages(1)` while the first one, in the
same call, is between the scan and the set of `kernel_pool`. -/
def racingOrder : List Bool :=
  [false, false, false, true, true, true, true, true, true, true, false, false, false, false]

/-- Both calls of a run return frame 0 of the kernel pool. -/
theorem pools_shared_by_getKernelPages :
    ∃ start c, PoolInitial (fun _ : Bool => true) start ∧
      System.Run (IsPoolCall fun _ => true) (fun _ _ _ => True) start c ∧
      (∀ t, c.code t = .done ()) ∧ (c.shared.pool .kernel).frames = [0, 0] ∧
      ¬ PoolsExclusive c := by
  have outcome : ((twoThreads bothCall).acts (fun _ _ _ => True) racingOrder).map (fun c => ((c.code false).isDone, (c.code true).isDone,
        (c.shared.pool .kernel).frames)) = some (true, true, [0, 0]) := by
    decide +kernel
  obtain ⟨c, acted, facts⟩ := Option.map_eq_some_iff.mp outcome
  obtain ⟨firstDone, secondDone, frames⟩ : (c.code false).isDone = true ∧
      (c.code true).isDone = true ∧ (c.shared.pool .kernel).frames = [0, 0] := by
    simpa using facts
  have calls : System.Run (IsPoolCall fun _ => true) (fun _ _ _ => True)
      (twoThreads fun _ => .done ()) (twoThreads bothCall) := by
    refine .tail (.single (.call (t := false) rfl ⟨.getKernelPages 1, trivial, rfl⟩)) ?_
    exact .call (t := true) rfl ⟨.getKernelPages 1, trivial, rfl⟩
  refine ⟨_, c, twoThreads_initial, calls.trans (System.acts_run acted), ?_, frames, ?_⟩
  · intro t
    cases t with
    | false => exact Code.eq_done_of_isDone firstDone
    | true => exact Code.eq_done_of_isDone secondDone
  · intro exclusive
    have := exclusive.frames .kernel
    rw [frames] at this
    simp at this

/-- A kernel thread runs `sys_malloc`, which takes one page. -/
theorem pools_exclusive_after_sysMalloc :
    ∃ c, System.Run (IsLockedCall fun _ => true) TablePresent (twoThreads fun _ => .done ()) c ∧
      (c.shared.pool .kernel).frames = [0] ∧ PoolsExclusive c := by
  have outcome : ((twoThreads (Function.update (fun _ => .done ()) false
      (sysMallocCode false (some 1)))).acts TablePresent (List.replicate 11 false)).map
      (fun c => (c.shared.pool .kernel).frames) = some [0] := by
    decide +kernel
  obtain ⟨c, acted, frames⟩ := Option.map_eq_some_iff.mp outcome
  have call : System.Run (IsLockedCall fun _ => true) TablePresent (twoThreads fun _ => .done ())
      (twoThreads (Function.update (fun _ => .done ()) false (sysMallocCode false (some 1)))) :=
    .single (.call (t := false) rfl ⟨.sysMalloc (some 1), trivial, by simp, rfl⟩)
  have run := call.trans (System.acts_run acted)
  exact ⟨c, run, frames, pools_exclusive twoThreads_initial run⟩

end ZyOs.Memory
