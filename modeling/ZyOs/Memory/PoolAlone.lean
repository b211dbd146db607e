import ZyOs.Lib.Sequential
import ZyOs.Memory.PoolLocks

/-!
Contract: the page layer that several tasks run, when one task runs it alone, is that of
`Memory.Pages`.

Owns:
- `seenBy`: the memory that a task sees, of what the tasks share;
- one theorem for each function: its actions, without another task in between, do what
  the function does in one step, and where it stops, they stop.

Does not own: the locks, which only keep other tasks away.
-/

namespace ZyOs.Memory

open ZyOs.Lib ZyOs.Kernel Code

variable {Task : Type}

/-- The memory that a task sees: its own half and the shared one. The words of memory and the
descriptors of the heap are not part of what is shared here. -/
def seenBy (t : Task) (own : MemState) (s : PoolShared Task) : MemState where
  word := own.word
  pte page := (s.space (halfAt t (page * pgSize))).pte page
  pde := s.pde t
  kernelPool := (s.pool .kernel).pool
  userPool := (s.pool .user).pool
  kernelVaddr := (s.space none).vaddr
  userprogVaddr := (s.space (some t)).vaddr
  kBlockDescs := own.kBlockDescs
  uBlockDesc := own.uBlockDesc
  pgdirNull := s.pgdirNull t

/-- A page and the address that it was asked for lie in one half. -/
theorem halfAt_pageOf (t : Task) (vaddr : Nat) : halfAt t (pageOf vaddr * pgSize) = halfAt t vaddr := by
  have same : pageOf vaddr * pgSize < 0xc0000000 ↔ vaddr < 0xc0000000 := by
    unfold pageOf pgSize
    omega
  unfold halfAt
  rw [if_congr same rfl rfl]

variable {t : Task} {own : MemState} {pf : PoolFlags} {vaddr phyaddr cnt pgCnt : Nat}

/-! ### What a task sees of a change -/

theorem seenBy_pool (s : PoolShared Task) (pf : PoolFlags) : ((seenBy t own s).pool pf) = (s.pool pf).pool := by
  cases pf <;> rfl

theorem seenBy_vaddr (own : MemState) (s : PoolShared Task) (pf : PoolFlags) :
    (seenBy t own s).vaddr pf = (s.space (halfOf t pf)).vaddr := by
  cases pf <;> rfl

theorem seenBy_setPool (s : PoolShared Task) (pf : PoolFlags) {res : PoolRes} {btmp : Bitmap}
    (isBitmap : res.pool = { (s.pool pf).pool with poolBitmap := btmp }) :
    seenBy t own (s.setPool pf res) = (seenBy t own s).setPoolBitmap pf btmp := by
  cases pf <;> simp [seenBy, PoolShared.setPool, MemState.setPoolBitmap, isBitmap]

/-- What a task sees of an entry. -/
theorem seenBy_pte (s : PoolShared Task) (vaddr : Nat) :
    (seenBy t own s).pte (pageOf vaddr) = (s.space (halfAt t vaddr)).pte (pageOf vaddr) := by
  show (s.space (halfAt t (pageOf vaddr * pgSize))).pte (pageOf vaddr) = _
  rw [halfAt_pageOf]

/-- A page of the table of an address lies in the half of the address. -/
theorem halfAt_of_pdeIdx {t : Task} {page : Nat} (same : pdeIdx (page * pgSize) = pdeIdx vaddr) :
    halfAt t (page * pgSize) = halfAt t vaddr := by
  have sameHalf : page * pgSize < 0xc0000000 ↔ vaddr < 0xc0000000 := by
    unfold pdeIdx at same
    omega
  unfold halfAt
  rw [if_congr sameHalf rfl rfl]

/-- The list of the frames that are handed out is not seen. -/
theorem seenBy_release (own : MemState) (s : PoolShared Task) (pf : PoolFlags) (phyAddr : Nat) :
    seenBy t own (s.setPool pf ((s.pool pf).release phyAddr)) = seenBy t own s := by
  cases pf <;> simp [seenBy, PoolShared.setPool, PoolRes.release]

section Changes

variable [DecidableEq Task]

/-- New page tables of one half. -/
theorem seenBy_setSpace (s : PoolShared Task) (half : Option Task) {space : Space}
    (sameVaddr : space.vaddr = (s.space half).vaddr) :
    seenBy t own (s.setSpace half space) = { seenBy t own s with
      pte := fun page => if halfAt t (page * pgSize) = half then space.pte page else (seenBy t own s).pte page } := by
  have ptes : ∀ page, (Function.update s.space half space (halfAt t (page * pgSize))).pte page =
      if halfAt t (page * pgSize) = half then space.pte page else (s.space (halfAt t (page * pgSize))).pte page := by
    intro page
    by_cases same : halfAt t (page * pgSize) = half
    · rw [if_pos same, same, Function.update_self]
    · rw [if_neg same, Function.update_of_ne same]
  have vaddrs : ∀ other, (Function.update s.space half space other).vaddr = (s.space other).vaddr := by
    intro other
    by_cases same : other = half
    · rw [same, Function.update_self, sameVaddr]
    · rw [Function.update_of_ne same]
  simp only [seenBy, PoolShared.setSpace, vaddrs, ptes]

/-- The entry of a page is written in the half of the page. -/
theorem seenBy_setPte (s : PoolShared Task) (vaddr value : Nat) {space : Space}
    (isPte : space.pte = Function.update (s.space (halfAt t vaddr)).pte (pageOf vaddr) value)
    (sameVaddr : space.vaddr = (s.space (halfAt t vaddr)).vaddr) :
    seenBy t own (s.setSpace (halfAt t vaddr) space) =
      { seenBy t own s with pte := Function.update (seenBy t own s).pte (pageOf vaddr) value } := by
  have ptes : (fun page => if halfAt t (page * pgSize) = halfAt t vaddr then space.pte page
      else (seenBy t own s).pte page) = Function.update (seenBy t own s).pte (pageOf vaddr) value := by
    funext page
    by_cases samePage : page = pageOf vaddr
    · rw [samePage, if_pos (halfAt_pageOf t vaddr), isPte, Function.update_self, Function.update_self]
    · rw [isPte, Function.update_of_ne samePage, Function.update_of_ne samePage]
      split
      · rename_i sameHalf
        rw [← sameHalf]
        rfl
      · rfl
  rw [seenBy_setSpace s _ sameVaddr, ptes]

/-- A page table is cleared in the half of its addresses. -/
theorem seenBy_clearTable (s : PoolShared Task) (vaddr : Nat) :
    seenBy t own (s.setSpace (halfAt t vaddr) ((s.space (halfAt t vaddr)).clearTable vaddr)) =
      { seenBy t own s with
        pte := fun page => if pdeIdx (page * pgSize) = pdeIdx vaddr then 0 else (seenBy t own s).pte page } := by
  have sameVaddr : ((s.space (halfAt t vaddr)).clearTable vaddr).vaddr = (s.space (halfAt t vaddr)).vaddr := rfl
  have ptes : (fun page => if halfAt t (page * pgSize) = halfAt t vaddr
      then ((s.space (halfAt t vaddr)).clearTable vaddr).pte page else (seenBy t own s).pte page) =
      fun page => if pdeIdx (page * pgSize) = pdeIdx vaddr then 0 else (seenBy t own s).pte page := by
    funext page
    by_cases isCleared : pdeIdx (page * pgSize) = pdeIdx vaddr
    · rw [if_pos (halfAt_of_pdeIdx isCleared), if_pos isCleared]
      exact if_pos isCleared
    · rw [if_neg isCleared]
      split
      · rename_i sameHalf
        rw [← sameHalf]
        exact if_neg isCleared
      · rfl
  rw [seenBy_setSpace s _ sameVaddr, ptes]

theorem seenBy_setPde (s : PoolShared Task) (pde : Nat → Nat) :
    seenBy t own { s with pde := Function.update s.pde t pde } = { seenBy t own s with pde := pde } := by
  simp only [seenBy, Function.update_self]

end Changes

/-! ### The functions of the page layer -/

/-- `palloc`. -/
theorem pallocCode_simulates (t : Task) (own : MemState) (pf : PoolFlags) :
    Simulates (seenBy t own) (pallocCode pf) fun m => (palloc m pf).toOption := by
  intro s
  show _ = (palloc (seenBy t own s) pf).toOption
  unfold palloc
  rw [seenBy_pool, pallocCode, alone_bind, alone_read, Option.bind_some]
  cases scanned : bitmapScan (s.pool pf).pool.poolBitmap 1 with
  | none => rfl
  | some bitIdx =>
      by_cases noBit : bitIdx = -1
      · simp only [if_pos noBit]
        rfl
      · have isSet : seenBy t own (s.setPool pf ((s.pool pf).grant bitIdx.toNat)) =
            (seenBy t own s).setPoolBitmap pf (bitmapSet (s.pool pf).pool.poolBitmap bitIdx.toNat true) :=
          seenBy_setPool s pf rfl
        simp only [if_neg noBit, ← isSet]
        rfl

/-- `pfree`. -/
theorem pfreeCode_simulates (t : Task) (own : MemState) (pf : PoolFlags) (granted pgPhyAddr : Nat) :
    Simulates (seenBy t own) (pfreeCode pf granted pgPhyAddr) fun m => some (pfree m pgPhyAddr, ()) := by
  intro s
  have freed : ∀ pf' : PoolFlags,
      seenBy t own ((s.setPool pf' ((s.pool pf').clear
          ((pgPhyAddr - (s.pool pf').pool.phyAddrStart) / pgSize))).setPool pf
        (((s.setPool pf' ((s.pool pf').clear
          ((pgPhyAddr - (s.pool pf').pool.phyAddrStart) / pgSize))).pool pf).release granted)) =
      (seenBy t own s).setPoolBitmap pf' (bitmapSet (s.pool pf').pool.poolBitmap
        ((pgPhyAddr - (s.pool pf').pool.phyAddrStart) / pgSize) false) := by
    intro pf'
    -- which frames are handed out is not seen
    have ghost := seenBy_release (t := t) own (s.setPool pf' ((s.pool pf').clear
      ((pgPhyAddr - (s.pool pf').pool.phyAddrStart) / pgSize))) pf granted
    exact ghost.trans (seenBy_setPool s pf' rfl)
  rw [pfreeCode, alone_bind, alone_read, Option.bind_some, alone_write, Option.map_some, freed]
  unfold pfree
  simp only [seenBy_pool]
  rfl

/-- Code whose function is known stops or comes to an end as the function does. -/
theorem alone_cases {α : Type} {code : PoolCode Task α} {result : Except MemPanic (MemState × α)} {s : PoolShared Task}
    (simulates : (code.alone s).map (fun after => (seenBy t own after.1, after.2)) = result.toOption) :
    (code.alone s = none ∧ ∃ panic, result = .error panic) ∨
      ∃ s₁ a, code.alone s = some (s₁, a) ∧ result = .ok (seenBy t own s₁, a) := by
  cases isRun : code.alone s with
  | none =>
      rw [isRun] at simulates
      cases result with
      | error panic => exact .inl ⟨rfl, panic, rfl⟩
      | ok after => cases simulates
  | some after =>
      rw [isRun] at simulates
      cases result with
      | error panic => cases simulates
      | ok after' =>
          have same := Option.some.inj simulates
          exact .inr ⟨after.1, after.2, rfl, by rw [← same]⟩

variable [DecidableEq Task]

/-- `page_table_add`. -/
theorem pageTableAddCode_simulates (t : Task) (own : MemState) (vaddr phyaddr : Nat) :
    Simulates (seenBy t own) (pageTableAddCode t vaddr phyaddr) fun m =>
      ((pageTableAdd m vaddr phyaddr).map (·, ())).toOption := by
  intro s
  show _ = ((pageTableAdd (seenBy t own s) vaddr phyaddr).map (·, ())).toOption
  unfold pageTableAdd
  rw [pageTableAddCode, alone_bind, alone_read, Option.bind_some]
  by_cases isPresent : s.pde t (pdeIdx vaddr) % 2 = 1
  · have isPresent' : (seenBy t own s).pde (pdeIdx vaddr) % 2 = 1 := isPresent
    rw [if_pos isPresent, if_pos isPresent', seenBy_pte, alone_bind, alone_read, Option.bind_some]
    by_cases isMapped : (s.space (halfAt t vaddr)).pte (pageOf vaddr) % 2 = 1
    · rw [if_pos isMapped, if_pos isMapped]
      rfl
    · rw [if_neg isMapped, if_neg isMapped, alone_write]
      have isSet : seenBy t own (s.setSpace (halfAt t vaddr)
          ((s.space (halfAt t vaddr)).map (pageOf vaddr) phyaddr)) =
          { seenBy t own s with
            pte := Function.update (seenBy t own s).pte (pageOf vaddr) (pteOf phyaddr) } :=
        seenBy_setPte s vaddr (pteOf phyaddr) rfl rfl
      rw [← isSet]
      rfl
  · have notPresent : ¬ (seenBy t own s).pde (pdeIdx vaddr) % 2 = 1 := isPresent
    rw [if_neg isPresent, if_neg notPresent]
    rcases alone_cases (pallocCode_simulates t own .kernel s) with
      ⟨isNone, panic, isError⟩ | ⟨s₁, pdePhyaddr, isRun, isOk⟩
    · rw [alone_bind, isNone, isError]
      rfl
    · rw [alone_bind, isRun, Option.bind_some, isOk, alone_bind, alone_write, Option.bind_some, alone_bind, alone_write, Option.bind_some,
        alone_write]
      let s₂ : PoolShared Task := { s₁ with
        pde := Function.update s₁.pde t
          (Function.update (s₁.pde t) (pdeIdx vaddr) (pteOf (pdePhyaddr.getD 0))) }
      let s₃ := s₂.setSpace (halfAt t vaddr) ((s₂.space (halfAt t vaddr)).clearTable vaddr)
      have seen₂ : seenBy t own s₂ = { seenBy t own s₁ with
          pde := Function.update (s₁.pde t) (pdeIdx vaddr) (pteOf (pdePhyaddr.getD 0)) } := seenBy_setPde s₁ _
      have seen₃ : seenBy t own s₃ = { seenBy t own s₂ with
          pte := fun page => if pdeIdx (page * pgSize) = pdeIdx vaddr then 0 else (seenBy t own s₂).pte page } :=
        seenBy_clearTable s₂ vaddr
      have seen : seenBy t own (s₃.setSpace (halfAt t vaddr)
          ((s₃.space (halfAt t vaddr)).map (pageOf vaddr) phyaddr)) = { seenBy t own s₃ with
            pte := Function.update (seenBy t own s₃).pte (pageOf vaddr) (pteOf phyaddr) } :=
        seenBy_setPte s₃ vaddr (pteOf phyaddr) rfl rfl
      rw [seen₃, seen₂] at seen
      exact congrArg (fun m => some (m, ())) seen

theorem seenBy_setVaddrBit (s : PoolShared Task) (pf : PoolFlags) (bitIdx : Nat) (value : Bool) :
    seenBy t own (s.setSpace (halfOf t pf) ((s.space (halfOf t pf)).setVaddrBit bitIdx value)) =
      (seenBy t own s).setVaddrBitmap pf (bitmapSet ((seenBy t own s).vaddr pf).vaddrBitmap bitIdx value) := by
  have ptes : ∀ half, (Function.update s.space (halfOf t pf)
      ((s.space (halfOf t pf)).setVaddrBit bitIdx value) half).pte = (s.space half).pte := by
    intro half
    by_cases same : half = halfOf t pf
    · rw [same, Function.update_self]
      rfl
    · rw [Function.update_of_ne same]
  unfold seenBy PoolShared.setSpace
  simp only [ptes]
  cases pf with
  | kernel => simp [halfOf, Space.setVaddrBit, MemState.setVaddrBitmap, MemState.vaddr]
  | user => simp [halfOf, Space.setVaddrBit, MemState.setVaddrBitmap, MemState.vaddr]

theorem setVaddrBitmap_vaddr (m : MemState) (pf : PoolFlags) (btmp : Bitmap) :
    (m.setVaddrBitmap pf btmp).vaddr pf = { m.vaddr pf with vaddrBitmap := btmp } := by
  cases pf <;> rfl

theorem setVaddrBitmap_twice (m : MemState) (pf : PoolFlags) (first second : Bitmap) :
    (m.setVaddrBitmap pf first).setVaddrBitmap pf second = m.setVaddrBitmap pf second := by
  cases pf <;> rfl

theorem setVaddrBitmap_self (m : MemState) (pf : PoolFlags) :
    m.setVaddrBitmap pf (m.vaddr pf).vaddrBitmap = m := by
  cases pf <;> rfl

/-- The loops of `vaddr_get` and of `vaddr_remove`. -/
theorem setVaddrBits_simulates (t : Task) (own : MemState) (pf : PoolFlags) (start : Nat) (value : Bool) (cnt : Nat) :
    Simulates (seenBy t own) (setVaddrBits t pf start value cnt) fun m =>
      some (m.setVaddrBitmap pf (bitmapSetRun (m.vaddr pf).vaddrBitmap start value cnt), ()) := by
  induction cnt with
  | zero =>
      intro s
      show some (seenBy t own s, ()) = some ((seenBy t own s).setVaddrBitmap pf _, ())
      rw [bitmapSetRun, setVaddrBitmap_self]
  | succ cnt inductionHypothesis =>
      have isBit : Simulates (seenBy t own) (Code.write (PoolLabel.bitmapSet (.vaddr pf)) fun s =>
          s.setSpace (halfOf t pf) ((s.space (halfOf t pf)).setVaddrBit (start + cnt) value)) fun m =>
            some (m.setVaddrBitmap pf (bitmapSet (m.vaddr pf).vaddrBitmap (start + cnt) value), ()) :=
        simulates_write _ fun s => seenBy_setVaddrBit s pf (start + cnt) value
      refine (inductionHypothesis.bind fun _ => isBit).congr fun m => ?_
      rw [Option.bind_some, setVaddrBitmap_vaddr, setVaddrBitmap_twice]
      rfl

/-- `vaddr_get`. -/
theorem vaddrGetCode_simulates (t : Task) (own : MemState) (pf : PoolFlags) (pgCnt : Nat) :
    Simulates (seenBy t own) (vaddrGetCode t pf pgCnt) fun m => (vaddrGet m pf pgCnt).toOption := by
  intro s
  show _ = (vaddrGet (seenBy t own s) pf pgCnt).toOption
  unfold vaddrGet
  rw [seenBy_vaddr, vaddrGetCode, alone_bind, alone_read, Option.bind_some]
  cases scanned : bitmapScan (s.space (halfOf t pf)).vaddr.vaddrBitmap pgCnt with
  | none => rfl
  | some bitIdxStart =>
      dsimp only
      by_cases noRun : bitIdxStart = -1
      · rw [if_pos noRun, if_pos noRun]
        rfl
      · rw [if_neg noRun, if_neg noRun]
        have isSet := setVaddrBits_simulates t own pf bitIdxStart.toNat true pgCnt s
        dsimp only at isSet
        rw [seenBy_vaddr] at isSet
        obtain ⟨⟨s₁, _⟩, isRun, isSeen⟩ := Option.map_eq_some_iff.mp isSet
        rw [alone_bind, isRun, Option.bind_some]
        obtain ⟨seen, _⟩ := Prod.mk.inj isSeen
        split
        · rfl
        · rw [← seen]
          rfl

/-- The loop of `malloc_page`: it goes through to the end where it has all frames. -/
theorem mapPagesCode_simulates (own : MemState) (pf : PoolFlags) (cnt vaddr : Nat) (s : PoolShared Task) :
    ((mapPagesCode t pf cnt vaddr).alone s).map (fun after => (seenBy t own after.1, after.2.isSome)) =
      (mapPages pf cnt (seenBy t own s) vaddr).toOption := by
  induction cnt generalizing s vaddr with
  | zero => rfl
  | succ cnt inductionHypothesis =>
      unfold mapPagesCode mapPages
      rcases alone_cases (pallocCode_simulates t own pf s) with ⟨isNone, panic, isError⟩ | ⟨s₁, frame, isRun, isOk⟩
      · rw [alone_bind, isNone, isError]
        rfl
      · rw [alone_bind, isRun, isOk, Option.bind_some]
        cases frame with
        | none => rfl
        | some pagePhyaddr =>
            dsimp only
            have isAdded := pageTableAddCode_simulates t own vaddr pagePhyaddr s₁
            cases added : pageTableAdd (seenBy t own s₁) vaddr pagePhyaddr with
            | error panic =>
                dsimp only at isAdded
                rw [added] at isAdded
                rw [alone_bind, Option.map_eq_none_iff.mp isAdded]
                rfl
            | ok m =>
                dsimp only at isAdded
                rw [added] at isAdded
                obtain ⟨⟨s₂, _⟩, isRun₂, isSeen⟩ := Option.map_eq_some_iff.mp isAdded
                obtain ⟨rfl, _⟩ := Prod.mk.inj isSeen
                rw [alone_bind, isRun₂, Option.bind_some, alone_bind, ← inductionHypothesis (vaddr + pgSize) s₂]
                cases (mapPagesCode t pf cnt (vaddr + pgSize)).alone s₂ with
                | none => rfl
                | some after =>
                    obtain ⟨s₃, frames⟩ := after
                    cases frames <;> rfl

/-- `malloc_page`. -/
theorem mallocPageCode_simulates (own : MemState) (pf : PoolFlags) (pgCnt : Nat) (s : PoolShared Task) :
    ((mallocPageCode t pf pgCnt).alone s).map (fun after => (seenBy t own after.1, after.2.map Region.vaddr)) =
      (mallocPage (seenBy t own s) pf pgCnt).toOption := by
  unfold mallocPageCode mallocPage
  by_cases inRange : pgCnt > 0 ∧ pgCnt < 3840
  swap
  · rw [if_neg inRange, if_neg inRange]
    rfl
  rw [if_pos inRange, if_pos inRange]
  rcases alone_cases (vaddrGetCode_simulates t own pf pgCnt s) with ⟨isNone, panic, isError⟩ | ⟨s₁, start, isRun, isOk⟩
  · rw [alone_bind, isNone, isError]
    rfl
  · rw [alone_bind, isRun, isOk, Option.bind_some]
    cases start with
    | none => rfl
    | some vaddrStart =>
        dsimp only
        have isMapped := mapPagesCode_simulates (t := t) own pf pgCnt vaddrStart s₁
        rw [alone_bind]
        cases mapped : mapPages pf pgCnt (seenBy t own s₁) vaddrStart with
        | error panic =>
            rw [mapped] at isMapped
            rw [Option.map_eq_none_iff.mp isMapped]
            rfl
        | ok after =>
            rw [mapped] at isMapped
            obtain ⟨m, done⟩ := after
            obtain ⟨⟨s₂, frames⟩, isRun₂, isSeen⟩ := Option.map_eq_some_iff.mp isMapped
            obtain ⟨rfl, rfl⟩ := Prod.mk.inj isSeen
            rw [isRun₂]
            cases frames <;> rfl

/-! ### Giving back -/

/-- The loops of `mfree_page`. -/
theorem unmapPagesCode_simulates (t : Task) (own : MemState) (pf : PoolFlags) (inPool : Nat → Bool)
    (frames : List Nat) (vaddr : Nat) :
    Simulates (seenBy t own) (unmapPagesCode t pf inPool frames vaddr) fun m =>
      ((unmapPages inPool frames.length m vaddr).map (·, ())).toOption := by
  induction frames generalizing vaddr with
  | nil => exact simulates_pure ()
  | cons granted frames inductionHypothesis =>
      intro s
      show _ = ((unmapPages inPool (frames.length + 1) (seenBy t own s) vaddr).map (·, ())).toOption
      have isPhyAddr : addrV2p (seenBy t own s) vaddr =
          (s.space (halfAt t vaddr)).pte (pageOf vaddr) / pgSize * pgSize + vaddr % pgSize := by
        unfold addrV2p
        rw [seenBy_pte]
      unfold unmapPagesCode unmapPages addrV2pCode
      rw [alone_bind, alone_read, Option.bind_some, ← isPhyAddr]
      dsimp only
      by_cases isInPool : addrV2p (seenBy t own s) vaddr % pgSize = 0 ∧ inPool (addrV2p (seenBy t own s) vaddr) = true
      · rw [if_pos isInPool, if_pos isInPool]
        have isFreed := pfreeCode_simulates t own pf granted (addrV2p (seenBy t own s) vaddr) s
        obtain ⟨⟨s₁, _⟩, isRun, isSeen⟩ := Option.map_eq_some_iff.mp isFreed
        obtain ⟨seen, _⟩ := Prod.mk.inj isSeen
        have isUnmapped : seenBy t own (s₁.setSpace (halfAt t vaddr)
            ((s₁.space (halfAt t vaddr)).unmap (pageOf vaddr))) = pageTablePteRemove (seenBy t own s₁) vaddr := by
          rw [pageTablePteRemove, seenBy_pte]
          exact seenBy_setPte s₁ vaddr _ rfl rfl
        rw [alone_bind, isRun, Option.bind_some, alone_bind, alone_write, Option.bind_some,
          inductionHypothesis (vaddr + pgSize), isUnmapped, ← seen]
      · rw [if_neg isInPool, if_neg isInPool]
        rfl

/-- `mfree_page` of a region that holds a frame for each of its pages. -/
theorem mfreePageCode_simulates (t : Task) (own : MemState) (pf : PoolFlags) {r : Region}
    (isWhole : r.frames.length = r.pgCnt) :
    Simulates (seenBy t own) (mfreePageCode t pf r) fun m => ((mfreePage m pf r.vaddr r.pgCnt).map (·, ())).toOption := by
  intro s
  show _ = ((mfreePage (seenBy t own s) pf r.vaddr r.pgCnt).map (·, ())).toOption
  have isPhyAddr : addrV2p (seenBy t own s) r.vaddr =
      (s.space (halfAt t r.vaddr)).pte (pageOf r.vaddr) / pgSize * pgSize + r.vaddr % pgSize := by
    unfold addrV2p
    rw [seenBy_pte]
  unfold mfreePageCode mfreePage addrV2pCode
  by_cases aligned : r.pgCnt ≥ 1 ∧ r.vaddr % pgSize = 0
  swap
  · rw [if_neg aligned, if_neg aligned]
    rfl
  rw [if_pos aligned, if_pos aligned, alone_bind, alone_read, Option.bind_some, ← isPhyAddr, alone_bind, alone_read,
    Option.bind_some]
  dsimp only
  by_cases inMemory : addrV2p (seenBy t own s) r.vaddr % pgSize = 0 ∧ addrV2p (seenBy t own s) r.vaddr ≥ 0x102000
  swap
  · rw [if_neg inMemory, if_neg inMemory]
    rfl
  rw [if_pos inMemory, if_pos inMemory]
  have userStart : (seenBy t own s).userPool.phyAddrStart = (s.pool .user).pool.phyAddrStart := rfl
  have kernelStart : (seenBy t own s).kernelPool.phyAddrStart = (s.pool .kernel).pool.phyAddrStart := rfl
  simp only [userStart, kernelStart]
  generalize (if addrV2p (seenBy t own s) r.vaddr ≥ (s.pool .user).pool.phyAddrStart
    then fun phyAddr => decide (phyAddr ≥ (s.pool .user).pool.phyAddrStart)
    else fun phyAddr => decide (phyAddr ≥ (s.pool .kernel).pool.phyAddrStart) &&
      decide (phyAddr < (s.pool .user).pool.phyAddrStart)) = inPool
  have isUnmapped := unmapPagesCode_simulates t own pf inPool r.frames r.vaddr s
  dsimp only at isUnmapped
  rw [isWhole] at isUnmapped
  rw [alone_bind]
  cases unmapped : unmapPages inPool r.pgCnt (seenBy t own s) r.vaddr with
  | error panic =>
      rw [unmapped] at isUnmapped
      rw [Option.map_eq_none_iff.mp isUnmapped]
      rfl
  | ok m =>
      rw [unmapped] at isUnmapped
      obtain ⟨⟨s₁, _⟩, isRun, isSeen⟩ := Option.map_eq_some_iff.mp isUnmapped
      obtain ⟨rfl, _⟩ := Prod.mk.inj isSeen
      rw [isRun, Option.bind_some, alone_bind, alone_read, Option.bind_some, ← seenBy_vaddr (t := t) own s₁ pf]
      exact setVaddrBits_simulates t own pf _ false r.pgCnt s₁

/-! ### Runs -/

/-- A task that is alone may run `malloc_page` to its end, and then sees what `malloc_page` leaves
in one step. -/
theorem mallocPage_run {calls : Task → PoolCode Task Unit → Prop} {own : MemState} {pf : PoolFlags} {pgCnt : Nat}
    {c : Lib.System Task (PoolShared Task) PoolLabel} {rest : Option Region → PoolCode Task Unit} {m : MemState}
    {vaddr : Option Nat} (isCode : c.code t = (mallocPageCode t pf pgCnt).bind rest)
    (isRun : mallocPage (seenBy t own c.shared) pf pgCnt = .ok (m, vaddr)) :
    ∃ s r, seenBy t own s = m ∧ r.map Region.vaddr = vaddr ∧
      System.Run calls (fun _ _ _ => True) c ⟨s, Function.update c.code t (rest r)⟩ := by
  have simulates := mallocPageCode_simulates (t := t) own pf pgCnt c.shared
  rw [isRun] at simulates
  obtain ⟨⟨s, r⟩, isAlone, isSeen⟩ := Option.map_eq_some_iff.mp simulates
  obtain ⟨seen, isVaddr⟩ := Prod.mk.inj isSeen
  exact ⟨s, r, seen, isVaddr, System.run_alone isCode isAlone⟩

end ZyOs.Memory
