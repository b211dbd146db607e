import ZyOs.Userprog.ForkExhaustion

/-!
Contract: `sys_fork` with memory that runs out, where it does not run out.

Owns: one theorem for each function of `Userprog.Fork` and of `Memory.Mmu` below it: where
that returns, the function that checks for `NULL` returns the same, and leaves the machine
the same.
-/

namespace ZyOs.Userprog.Exhaustion

open Kernel Lib Memory

variable {s t : System} {m : Mmu} {pid vaddr phyaddr pgCnt : Nat} {pf : PoolFlags} {parent child : Task}

/-! ### The machine -/

theorem load_of_some {α : Type} {reads : Mmu → Option α} {a : α} (isRead : reads s.mmu = some a) :
    load reads s = .ok a s := by
  unfold load
  rw [isRead]

theorem store_of_some {writes : Mmu → Option Mmu} (isWritten : writes s.mmu = some m) :
    store writes s = .ok () { s with mmu := m } := by
  unfold store
  rw [isWritten]

/-! ### Pages -/

theorem palloc_of_some (isRun : s.mmu.palloc pf = some (m, phyaddr)) :
    palloc pf s = .ok (some phyaddr) { s with mmu := m } := by
  obtain ⟨bitIdx, isScanned, isRest⟩ := Option.bind_eq_some_iff.mp isRun
  rw [bitmapScan_eq] at isScanned
  obtain ⟨bit, isClear, isBit⟩ := Option.map_eq_some_iff.mp isScanned
  rw [if_pos rfl] at isBit
  have notFailed : bitIdx ≠ -1 := by omega
  have sameBit : bitIdx.toNat = bit := by omega
  rw [if_neg notFailed, sameBit] at isRest
  cases isRest
  exact palloc_some isClear

theorem pageTableAdd_of_some (isRun : s.mmu.pageTableAdd vaddr phyaddr = some m) :
    pageTableAdd vaddr phyaddr s = .ok () { s with mmu := m } := by
  unfold pageTableAdd
  obtain ⟨pde, isPde, isRest⟩ := Option.bind_eq_some_iff.mp isRun
  rw [bind_of_ok (load_of_some isPde)]
  by_cases isPresent : present pde = true
  · rw [if_pos isPresent] at isRest ⊢
    obtain ⟨pte, isPte, isRest⟩ := Option.bind_eq_some_iff.mp isRest
    rw [bind_of_ok (load_of_some isPte)]
    by_cases isMapped : present pte = true
    · rw [if_pos isMapped] at isRest
      cases isRest
    · rw [if_neg isMapped] at isRest ⊢
      exact store_of_some isRest
  · rw [if_neg isPresent] at isRest ⊢
    obtain ⟨⟨m₁, pdePhyaddr⟩, isTable, isRest⟩ := Option.bind_eq_some_iff.mp isRest
    obtain ⟨m₂, isWritten, isRest⟩ := Option.bind_eq_some_iff.mp isRest
    obtain ⟨m₃, isCleared, isRest⟩ := Option.bind_eq_some_iff.mp isRest
    obtain ⟨pte, isPte, isRest⟩ := Option.bind_eq_some_iff.mp isRest
    rw [bind_of_ok (palloc_of_some isTable), bind_of_ok (store_of_some isWritten),
      bind_of_ok (store_of_some isCleared), bind_of_ok (load_of_some isPte)]
    by_cases isMapped : present pte = true
    · rw [if_pos isMapped] at isRest
      cases isRest
    · rw [if_neg isMapped] at isRest ⊢
      exact store_of_some isRest

theorem vaddrGet_of_some (isRun : s.mmu.vaddrGet pgCnt = some (m, vaddr)) :
    vaddrGet pgCnt s = .ok (some vaddr) { s with mmu := m } := by
  obtain ⟨bitIdxStart, isScanned, isRest⟩ := Option.bind_eq_some_iff.mp isRun
  unfold vaddrGet
  rcases bitmapScan_spec isScanned with rfl | ⟨start, rfl, _⟩
  · cases isRest
  · rw [isScanned]
    have notFailed : (start : Int) ≠ -1 := by omega
    rw [if_neg notFailed] at isRest
    cases isRest
    rfl

theorem mapPages_of_some {cnt : Nat} (isRun : Mmu.mapPages cnt s.mmu vaddr = some m) :
    mapPages cnt vaddr s = .ok true { s with mmu := m } := by
  induction cnt generalizing s vaddr with
  | zero =>
      cases isRun
      rfl
  | succ cnt inductionHypothesis =>
      obtain ⟨⟨m₁, frame⟩, isAlloc, isRest⟩ := Option.bind_eq_some_iff.mp isRun
      obtain ⟨m₂, isAdded, isRest⟩ := Option.bind_eq_some_iff.mp isRest
      unfold mapPages
      rw [bind_of_ok (palloc_of_some isAlloc)]
      dsimp only
      have added := pageTableAdd_of_some (s := { s with mmu := m₁ }) isAdded
      rw [bind_of_ok added]
      exact inductionHypothesis (s := { s with mmu := m₂ }) isRest

theorem getKernelPages_of_some (isRun : s.mmu.getKernelPages pgCnt = some (m, vaddr)) :
    getKernelPages pgCnt s = .ok (some vaddr) { s with mmu := m } := by
  unfold Mmu.getKernelPages at isRun
  by_cases inRange : pgCnt > 0 ∧ pgCnt < 3840
  swap
  · rw [if_neg inRange] at isRun
    cases isRun
  rw [if_pos inRange] at isRun
  obtain ⟨⟨m₁, start⟩, isStart, isRest⟩ := Option.bind_eq_some_iff.mp isRun
  obtain ⟨m₂, isMapped, isRest⟩ := Option.bind_eq_some_iff.mp isRest
  obtain ⟨m₃, isCleared, isEnd⟩ := Option.bind_eq_some_iff.mp isRest
  cases isEnd
  have mapped := mapPages_of_some (s := { s with mmu := m₁ }) isMapped
  have isPages : mallocPage pgCnt s = .ok (some vaddr) { s with mmu := m₂ } := by
    unfold mallocPage
    rw [if_pos inRange, bind_of_ok (vaddrGet_of_some isStart)]
    dsimp only
    rw [bind_of_ok mapped]
    rfl
  unfold getKernelPages
  rw [bind_of_ok isPages]
  dsimp only
  rw [bind_of_ok (store_of_some (s := { s with mmu := m₂ }) isCleared)]
  rfl

theorem getAPageWithoutOpvaddrbitmap_of_some (isRun : s.mmu.getAPageWithoutOpvaddrbitmap pf vaddr = some m) :
    getAPageWithoutOpvaddrbitmap pf vaddr s = .ok (some vaddr) { s with mmu := m } := by
  obtain ⟨⟨m₁, frame⟩, isAlloc, isAdded⟩ := Option.bind_eq_some_iff.mp isRun
  unfold getAPageWithoutOpvaddrbitmap
  rw [bind_of_ok (palloc_of_some isAlloc)]
  dsimp only
  rw [bind_of_ok (pageTableAdd_of_some (s := { s with mmu := m₁ }) isAdded)]
  rfl

theorem createPageDir_of_some (isRun : s.mmu.createPageDir = some (m, vaddr)) :
    createPageDir s = .ok (some vaddr) { s with mmu := m } := by
  obtain ⟨⟨m₁, pageDirVaddr⟩, isPage, isRest⟩ := Option.bind_eq_some_iff.mp isRun
  obtain ⟨m₂, isCopied, isRest⟩ := Option.bind_eq_some_iff.mp isRest
  obtain ⟨phyAddr, isPhyAddr, isRest⟩ := Option.bind_eq_some_iff.mp isRest
  obtain ⟨m₃, isWritten, isEnd⟩ := Option.bind_eq_some_iff.mp isRest
  cases isEnd
  unfold createPageDir
  rw [bind_of_ok (getKernelPages_of_some isPage)]
  dsimp only
  rw [bind_of_ok (store_of_some (s := { s with mmu := m₁ }) isCopied),
    bind_of_ok (load_of_some (s := { s with mmu := m₂ }) isPhyAddr),
    bind_of_ok (store_of_some (s := { s with mmu := m₂ }) isWritten)]
  rfl

/-! ### The copy of a process -/

theorem copyPcbVaddrbitmapStack0_of_some {copied : Pcb}
    (isRun : Userprog.copyPcbVaddrbitmapStack0 s.mmu pid parent.toPcb = some (m, copied)) :
    copyPcbVaddrbitmapStack0 pid parent s = .ok (some ⟨copied, parent.fdTable⟩) { s with mmu := m } := by
  obtain ⟨⟨m₁, vaddrBtmp⟩, isPages, isRest⟩ := Option.bind_eq_some_iff.mp isRun
  obtain ⟨m₂, isCopied, isRest⟩ := Option.bind_eq_some_iff.mp isRest
  unfold copyPcbVaddrbitmapStack0
  rw [bind_of_ok (getKernelPages_of_some isPages)]
  dsimp only
  rw [bind_of_ok (store_of_some (s := { s with mmu := m₁ }) isCopied)]
  by_cases isShort : parent.name.length < 11
  · rw [if_pos isShort] at isRest
    cases isRest
    rw [if_pos isShort]
    rfl
  · rw [if_neg isShort] at isRest
    cases isRest

theorem copyPage_of_some {bufPage progVaddr : Nat}
    (isRun : Userprog.copyPage child.toPcb parent.toPcb bufPage s.mmu progVaddr = some m) :
    copyPage child parent bufPage progVaddr s = .ok () { s with mmu := m } := by
  obtain ⟨m₁, isBuffered, isRest⟩ := Option.bind_eq_some_iff.mp isRun
  obtain ⟨m₂, isChild, isRest⟩ := Option.bind_eq_some_iff.mp isRest
  obtain ⟨m₃, isPage, isRest⟩ := Option.bind_eq_some_iff.mp isRest
  obtain ⟨m₄, isCopied, isParent⟩ := Option.bind_eq_some_iff.mp isRest
  unfold copyPage
  rw [bind_of_ok (store_of_some isBuffered), bind_of_ok (store_of_some (s := { s with mmu := m₁ }) isChild),
    bind_of_ok (getAPageWithoutOpvaddrbitmap_of_some (s := { s with mmu := m₂ }) isPage),
    bind_of_ok (store_of_some (s := { s with mmu := m₃ }) isCopied)]
  exact store_of_some (s := { s with mmu := m₄ }) isParent

theorem copyBits_of_some {bufPage idxByte left idxBit : Nat}
    (isRun : Userprog.copyBits child.toPcb parent.toPcb bufPage idxByte left s.mmu idxBit = some m) :
    copyBits child parent bufPage idxByte left idxBit s = .ok () { s with mmu := m } := by
  induction left generalizing s idxBit with
  | zero =>
      cases isRun
      rfl
  | succ left inductionHypothesis =>
      obtain ⟨byte, isByte, isRest⟩ := Option.bind_eq_some_iff.mp isRun
      unfold copyBits
      rw [bind_of_ok (load_of_some isByte)]
      by_cases isSet : byte.testBit idxBit = true
      · rw [if_pos isSet] at isRest ⊢
        obtain ⟨m₁, isCopied, isRest⟩ := Option.bind_eq_some_iff.mp isRest
        rw [bind_of_ok (copyPage_of_some isCopied)]
        exact inductionHypothesis (s := { s with mmu := m₁ }) isRest
      · rw [if_neg isSet] at isRest ⊢
        exact inductionHypothesis isRest

theorem copyBytes_of_some {bufPage left idxByte : Nat}
    (isRun : Userprog.copyBytes child.toPcb parent.toPcb bufPage left s.mmu idxByte = some m) :
    copyBytes child parent bufPage left idxByte s = .ok () { s with mmu := m } := by
  induction left generalizing s idxByte with
  | zero =>
      cases isRun
      rfl
  | succ left inductionHypothesis =>
      obtain ⟨byte, isByte, isRest⟩ := Option.bind_eq_some_iff.mp isRun
      unfold copyBytes
      rw [bind_of_ok (load_of_some isByte)]
      by_cases isSet : byte ≠ 0
      · rw [if_pos isSet] at isRest ⊢
        obtain ⟨m₁, isCopied, isRest⟩ := Option.bind_eq_some_iff.mp isRest
        rw [bind_of_ok (copyBits_of_some isCopied)]
        exact inductionHypothesis (s := { s with mmu := m₁ }) isRest
      · rw [if_neg isSet] at isRest ⊢
        exact inductionHypothesis isRest

theorem updateInodeOpenCnt_mmu {fd : Int} (isRun : updateInodeOpenCnt fd s = .ok () t) (m : Mmu) :
    updateInodeOpenCnt fd { s with mmu := m } = .ok () { t with mmu := m } := by
  unfold updateInodeOpenCnt at isRun ⊢
  by_cases inTable : fd < 32
  swap
  · rw [if_neg inTable] at isRun
    cases isRun
  rw [if_pos inTable] at isRun ⊢
  by_cases isOpen : fd ≠ -1
  swap
  · rw [if_neg isOpen] at isRun ⊢
    cases isRun
    rfl
  rw [if_pos isOpen] at isRun ⊢
  dsimp only
  cases isInode : s.fdInode fd.toNat with
  | none =>
      rw [isInode] at isRun
      cases isRun
  | some inode =>
      rw [isInode] at isRun
      cases isRun
      rfl

/-- The counts do not depend on the machine. -/
theorem updateInodeOpenCnts_mmu (fds : List Int) (isRun : fds.forM updateInodeOpenCnt s = .ok () t) (m : Mmu) :
    fds.forM updateInodeOpenCnt { s with mmu := m } = .ok () { t with mmu := m } := by
  induction fds generalizing s with
  | nil =>
      cases isRun
      rfl
  | cons fd fds inductionHypothesis =>
      obtain ⟨_, s₁, isFirst, isRest⟩ := bind_eq_ok isRun
      show (updateInodeOpenCnt fd >>= fun _ => fds.forM updateInodeOpenCnt) { s with mmu := m } = _
      rw [bind_of_ok (updateInodeOpenCnt_mmu isFirst m)]
      exact inductionHypothesis isRest

theorem copyProcess_of_some {copied : Pcb} (isRun : Userprog.copyProcess s.mmu pid parent.toPcb = some (m, copied))
    (isCounted : updateInodeOpenCnts parent s = .ok () t) :
    copyProcess pid parent s = .ok (some ⟨copied, parent.fdTable⟩) { t with mmu := m } := by
  obtain ⟨⟨m₁, bufPage⟩, isBuffer, isRest⟩ := Option.bind_eq_some_iff.mp isRun
  obtain ⟨⟨m₂, pcb⟩, isPcb, isRest⟩ := Option.bind_eq_some_iff.mp isRest
  obtain ⟨⟨m₃, pgdir⟩, isDir, isRest⟩ := Option.bind_eq_some_iff.mp isRest
  obtain ⟨m₄, isBody, isRest⟩ := Option.bind_eq_some_iff.mp isRest
  obtain ⟨m₅, isFreed, isEnd⟩ := Option.bind_eq_some_iff.mp isRest
  cases isEnd
  unfold copyProcess
  rw [bind_of_ok (getKernelPages_of_some isBuffer)]
  dsimp only
  rw [bind_of_ok (copyPcbVaddrbitmapStack0_of_some (s := { s with mmu := m₁ }) isPcb)]
  dsimp only
  rw [bind_of_ok (createPageDir_of_some (s := { s with mmu := m₂ }) isDir)]
  dsimp only
  have body : copyBodyStack3 ⟨{ pcb with pgdir := pgdir }, parent.fdTable⟩ parent bufPage { s with mmu := m₃ } =
      .ok () { s with mmu := m₄ } :=
    copyBytes_of_some (s := { s with mmu := m₃ }) isBody
  have counted : updateInodeOpenCnts ⟨{ pcb with pgdir := pgdir }, parent.fdTable⟩ { s with mmu := m₄ } =
      .ok () { t with mmu := m₄ } := updateInodeOpenCnts_mmu _ isCounted m₄
  rw [bind_of_ok body, bind_of_ok counted, bind_of_ok (store_of_some (s := { t with mmu := m₄ }) isFreed)]
  rfl

/-- Where the fork that is not checked for `NULL` returns, the one that is checked returns the
same child. -/
theorem sysFork_of_some {copied : Pcb} (isRun : Userprog.sysFork s.mmu pid parent.toPcb = some (m, copied))
    (intrOff : s.intr = false) (isProcess : parent.pgdir ≠ 0) (isCounted : updateInodeOpenCnts parent s = .ok () t)
    (isNew : ∀ m₁ page, s.mmu.getKernelPages 1 = some (m₁, page) → ¬ (page ∈ t.readyList ∨ page ∈ t.allList)) :
    ∃ page, sysFork pid parent s = .ok (some copied.pid) { t with
      mmu := m
      readyList := t.readyList ++ [page]
      allList := t.allList ++ [page] } := by
  obtain ⟨⟨m₁, childThread⟩, isThread, isRest⟩ := Option.bind_eq_some_iff.mp isRun
  have counted : updateInodeOpenCnts parent { s with mmu := m₁ } = .ok () { t with mmu := m₁ } :=
    updateInodeOpenCnts_mmu _ isCounted m₁
  have copy := copyProcess_of_some (s := { s with mmu := m₁ }) isRest counted
  refine ⟨childThread, ?_⟩
  unfold sysFork
  rw [bind_of_ok (getKernelPages_of_some isThread)]
  dsimp only
  have isState : (get : Call System) { s with mmu := m₁ } = .ok { s with mmu := m₁ } { s with mmu := m₁ } := rfl
  have mayFork : ({ s with mmu := m₁ } : System).intr = false ∧ parent.pgdir ≠ 0 := ⟨intrOff, isProcess⟩
  rw [bind_of_ok isState, if_pos mayFork, bind_of_ok copy]
  have isLinked : linkTask childThread { t with mmu := m } = .ok () { t with
      mmu := m
      readyList := t.readyList ++ [childThread]
      allList := t.allList ++ [childThread] } := if_neg (isNew m₁ childThread isThread)
  dsimp only
  rw [bind_of_ok isLinked]
  rfl

end ZyOs.Userprog.Exhaustion
