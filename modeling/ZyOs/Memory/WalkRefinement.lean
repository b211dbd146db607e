import ZyOs.Memory.PageWalk

/-!
Contract: the machine of `Memory.Mmu`, memory by frame and word with numbers for
addresses, is that of `Memory.PageWalk` with 32-bit words.

Owns:
- `Walks`: the words of the first are those of the second, for frames and offsets that
  a 32-bit address can name;
- that reads, writes, `palloc`, `page_table_add` and `addr_v2p` agree.

Does not own: what is said about either machine elsewhere.
-/

namespace ZyOs.Memory.PageWalk

open ZyOs.Lib ZyOs.Kernel

namespace Machine

/-- The machine with numbers holds what the machine with words holds. -/
structure Walks (m : Machine) (s : Mmu) : Prop where
  cr3 : s.cr3 = m.cr3.toNat / 4096
  mem : ∀ {frame idx}, frame < 2 ^ 20 → idx < 1024 → s.mem frame idx = m.frames frame idx
  pool : s.pool .kernel = m.kernelPool

/-- Every machine with words is one with numbers. -/
def mmu (m : Machine) (userPool : Pool) (kernelVaddr : VirtualAddr) : Mmu where
  mem := m.frames
  cr3 := m.cr3.toNat / 4096
  pool := fun
    | .kernel => m.kernelPool
    | .user => userPool
  kernelVaddr := kernelVaddr

theorem walks_mmu (m : Machine) (userPool : Pool) (kernelVaddr : VirtualAddr) :
    Walks m (m.mmu userPool kernelVaddr) :=
  ⟨rfl, fun _ _ => rfl, rfl⟩

/-- The pages of the kernel's pool have 32-bit addresses. -/
def LowPool (s : Mmu) : Prop :=
  (s.pool .kernel).phyAddrStart + 8 * (s.pool .kernel).poolBitmap.btmpBytesLen * pgSize ≤ 2 ^ 32

variable {m m' : Machine} {s s' : Mmu} {vaddr : UInt32}

theorem frame_lt (base : UInt32) : base.toNat / 4096 < 2 ^ 20 := by
  have := base.toNat_lt
  omega

/-! ### Words -/

namespace Walks

/-- An entry of a directory or of a page table. -/
theorem entry (walks : Walks m s) (base : UInt32) {idx : UInt32} (small : idx.toNat < 1024) :
    s.mem (base.toNat / 4096) idx.toNat = (m.mem (entryAddr base idx)).toNat := by
  rw [walks.mem (frame_lt base) small, frames_entryAddr m small]

theorem pde (walks : Walks m s) (vaddr : UInt32) :
    s.mem s.cr3 (Memory.pdeIdx vaddr.toNat) = (m.pde vaddr).toNat := by
  have entry := walks.entry m.cr3 (dirIdx_lt vaddr)
  rw [toNat_dirIdx, ← walks.cr3] at entry
  exact entry

theorem pte (walks : Walks m s) (vaddr : UInt32) :
    s.mem (entryFrame (m.pde vaddr).toNat) (Memory.pteIdx vaddr.toNat) = (m.pte vaddr).toNat := by
  have entry := walks.entry (m.pde vaddr) (tableIdx_lt vaddr)
  rw [toNat_tableIdx] at entry
  exact entry

/-- The translations are the same. -/
theorem lookup (walks : Walks m s) (vaddr : UInt32) :
    m.walk vaddr = (s.lookup vaddr.toNat).map fun frame =>
      UInt32.ofNat (frame * 4096 + vaddr.toNat % 4096) := by
  have small := vaddr.toNat_lt
  have sameDir : s.mem s.cr3 (vaddr.toNat / 4096 / 1024) =
      m.frames (m.cr3.toNat / 4096) (vaddr.toNat / 4096 / 1024) := by
    rw [walks.cr3, walks.mem (frame_lt m.cr3) (by omega)]
  have isDir : s.mem s.cr3 (vaddr.toNat / 4096 / 1024) = (m.pde vaddr).toNat := by
    rw [Nat.div_div_eq_div_mul]
    exact walks.pde vaddr
  have sameTable : s.mem (entryFrame (m.pde vaddr).toNat) (vaddr.toNat / 4096 % 1024) =
      m.frames (entryFrame (m.pde vaddr).toNat) (vaddr.toNat / 4096 % 1024) :=
    walks.mem (frame_lt _) (Nat.mod_lt _ (by decide))
  rw [walk_eq_translatePage, Mmu.lookup]
  simp only [translatePage, ← sameDir, pgSize, isDir, sameTable]

/-- A word is found at the frame and the offset of its address. -/
theorem word (walks : Walks m s) {vaddr : UInt32} (aligned : vaddr.toNat % 4 = 0) {frame : Nat}
    (inside : frame < 2 ^ 20) :
    s.mem frame (vaddr.toNat % 4096 / 4) =
      (m.mem (UInt32.ofNat (frame * 4096 + vaddr.toNat % 4096))).toNat := by
  rw [walks.mem inside (by omega), frames]
  congr 3
  omega

/-- A lookup gives a frame that an address can name. -/
theorem lookup_lt (walks : Walks m s) {frame : Nat} (found : s.lookup vaddr.toNat = some frame) :
    frame < 2 ^ 20 := by
  have small := vaddr.toNat_lt
  have isDir : s.mem s.cr3 (vaddr.toNat / 4096 / 1024) = (m.pde vaddr).toNat := by
    rw [Nat.div_div_eq_div_mul]
    exact walks.pde vaddr
  have isTable : s.mem (entryFrame (m.pde vaddr).toNat) (vaddr.toNat / 4096 % 1024) =
      (m.pte vaddr).toNat := walks.pte vaddr
  simp only [Mmu.lookup, translatePage, pgSize, isDir, isTable] at found
  split at found
  · split at found
    · cases found
      exact frame_lt _
    · cases found
  · cases found

/-- Reading a word. -/
theorem read (walks : Walks m s) (aligned : vaddr.toNat % 4 = 0) :
    s.read vaddr.toNat = (m.read vaddr).map UInt32.toNat := by
  rw [Machine.read, Mmu.read, walks.lookup]
  cases found : s.lookup vaddr.toNat with
  | none => rfl
  | some frame =>
      simp only [Option.map_some, Option.bind_eq_bind, Option.bind_some, Option.pure_def,
        ← walks.word aligned (walks.lookup_lt found), pgSize]

/-- One word of memory. -/
theorem setWord (walks : Walks m s) {frame idx : Nat} (inside : frame < 2 ^ 20) (small : idx < 1024)
    (value : UInt32) :
    Walks { m with mem := Function.update m.mem (UInt32.ofNat (frame * 4096 + idx * 4)) value }
      { s with mem := Memory.setWord s.mem frame idx value.toNat } where
  cr3 := walks.cr3
  mem := by
    intro frame' idx' inside' small'
    have toNat : ∀ {f i : Nat}, f < 2 ^ 20 → i < 1024 →
        (UInt32.ofNat (f * 4096 + i * 4)).toNat = f * 4096 + i * 4 := by
      intro f i _ _
      exact UInt32.toNat_ofNat_of_lt' (by show f * 4096 + i * 4 < 2 ^ 32; omega)
    by_cases same : frame' = frame ∧ idx' = idx
    · obtain ⟨rfl, rfl⟩ := same
      dsimp only [frames]
      rw [setWord_self, Function.update_self]
    · have ne : UInt32.ofNat (frame' * 4096 + idx' * 4) ≠
          UInt32.ofNat (frame * 4096 + idx * 4) := by
        intro sameAddr
        have sameNat := congrArg UInt32.toNat sameAddr
        rw [toNat inside' small', toNat inside small] at sameNat
        exact same ⟨by omega, by omega⟩
      have other : frame' ≠ frame ∨ idx' ≠ idx := by omega
      dsimp only [frames]
      rw [setWord_other other, Function.update_of_ne ne]
      exact walks.mem inside' small'
  pool := walks.pool

/-- Writing a word. -/
theorem write (walks : Walks m s) (aligned : vaddr.toNat % 4 = 0) {value : UInt32}
    (written : s.write vaddr.toNat value.toNat = some s') :
    ∃ m', m.write vaddr value = some m' ∧ Walks m' s' := by
  simp only [Mmu.write, Option.bind_eq_bind, Option.bind_eq_some_iff] at written
  obtain ⟨frame, found, result⟩ := written
  cases result
  have walked := walks.lookup vaddr
  rw [found, Option.map_some] at walked
  refine ⟨_, by rw [Machine.write, walked]; rfl, ?_⟩
  have small : vaddr.toNat % 4096 / 4 < 1024 := by omega
  have offset : vaddr.toNat % 4096 / 4 * 4 = vaddr.toNat % 4096 := by omega
  have set := walks.setWord (walks.lookup_lt found) small value
  rw [offset] at set
  exact set

end Walks

/-! ### The functions -/

theorem aligned_ptePtr (vaddr : UInt32) : (ptePtr vaddr).toNat % 4 = 0 := by
  rw [toNat_ptePtr]
  omega

theorem aligned_pdePtr (vaddr : UInt32) : (pdePtr vaddr).toNat % 4 = 0 := by
  rw [toNat_pdePtr]
  omega

theorem toNat_entryOf (phyaddr : UInt32) : (entryOf phyaddr).toNat = pteOf phyaddr.toNat := by
  have flags : entryOf phyaddr = phyaddr ||| 7 := by
    rw [entryOf, UInt32.or_assoc, UInt32.or_assoc]
    rfl
  rw [flags, UInt32.toNat_or, pteOf]
  simp only [UInt32.reduceToNat]

theorem Walks.addrV2p (walks : Walks m s) (vaddr : UInt32) :
    s.addrV2p vaddr.toNat = (m.addrV2p vaddr).map UInt32.toNat := by
  have isRead := walks.read (aligned_ptePtr vaddr)
  rw [(pointers_eq vaddr).1] at isRead
  rw [Machine.addrV2p, Mmu.addrV2p, isRead]
  cases m.read (ptePtr vaddr) with
  | none => rfl
  | some pte =>
      have small := pte.toNat_lt
      have bounded : pte.toNat / 4096 * 4096 + vaddr.toNat % 4096 < 2 ^ 32 := by omega
      simp only [Option.map_some, Option.bind_eq_bind, Option.bind_some, Option.pure_def, pgSize]
      rw [UInt32.toNat_add, toNat_page, toNat_offset, Nat.mod_eq_of_lt bounded]

theorem Walks.palloc (walks : Walks m s) (low : LowPool s) {phyaddr : Nat}
    (allocated : s.palloc .kernel = some (s', phyaddr)) :
    ∃ m' table, m.palloc = some (m', table) ∧ table.toNat = phyaddr ∧ Walks m' s' := by
  simp only [Mmu.palloc, Option.bind_eq_bind, Option.bind_eq_some_iff] at allocated
  obtain ⟨bitIdx, scanned, result⟩ := allocated
  have found := scanned
  rw [bitmapScan_eq] at found
  simp only [if_true, Option.map_eq_some_iff] at found
  obtain ⟨bit, first, rfl⟩ := found
  obtain ⟨inside, _, _⟩ := firstClear_some first
  simp only [show ((bit : Int) = -1) = False by simp, if_false, Int.toNat_natCast,
    Option.pure_def, Option.some.injEq, Prod.mk.injEq] at result
  obtain ⟨rfl, rfl⟩ := result
  refine ⟨{ m with kernelPool := { m.kernelPool with
      poolBitmap := bitmapSet m.kernelPool.poolBitmap bit true } },
    UInt32.ofNat (bit * pgSize + m.kernelPool.phyAddrStart), ?_, ?_, walks.cr3, walks.mem, ?_⟩
  · rw [walks.pool] at scanned
    simp only [Machine.palloc, scanned, Option.bind_eq_bind, Option.bind_some,
      show ((bit : Int) = -1) = False by simp, if_false, Int.toNat_natCast, Option.pure_def]
  · rw [← walks.pool]
    refine UInt32.toNat_ofNat_of_lt' ?_
    show bit * pgSize + (s.pool .kernel).phyAddrStart < 2 ^ 32
    simp only [LowPool, pgSize] at *
    omega
  · simp only [Mmu.setPoolBit, Function.update_self, walks.pool]

/-- The directory of the machine with words maps itself, too. -/
theorem Walks.selfMapped (walks : Walks m s) (isDir : IsDir s.mem s.cr3) : m.SelfMapped := by
  have last : (1023 : UInt32).toNat < 1024 := by decide
  have entry := walks.entry m.cr3 last
  have self := isDir.self
  rw [← walks.cr3] at entry
  rw [show (1023 : UInt32).toNat = 1023 from rfl, self] at entry
  constructor
  · rw [← present_toNat, ← entry]
    exact present_pteOf _
  · apply UInt32.toNat_inj.mp
    have frame : pteOf (s.cr3 * pgSize) / 4096 = s.cr3 := entryFrame_pteOf s.cr3
    rw [toNat_page, toNat_page, ← entry, ← walks.cr3, frame]

/-! ### `page_table_add` -/

theorem write_pool {value : UInt32} (written : m.write vaddr value = some m') :
    m'.kernelPool = m.kernelPool := by
  simp only [Machine.write, Option.bind_eq_bind, Option.bind_eq_some_iff] at written
  obtain ⟨addr, _, result⟩ := written
  cases result
  rfl

theorem memset_pool {words : Nat} :
    ∀ {m m' : Machine} {vaddr : UInt32}, memset words m vaddr = some m' →
      m'.kernelPool = m.kernelPool := by
  induction words with
  | zero =>
      intro m m' vaddr isRun
      cases isRun
      rfl
  | succ words inductionHypothesis =>
      intro m m' vaddr isRun
      simp only [memset, Option.bind_eq_bind, Option.bind_eq_some_iff] at isRun
      obtain ⟨m₁, written, rest⟩ := isRun
      rw [inductionHypothesis rest, write_pool written]

/-- With a new page table, the pool is what `palloc` left. -/
theorem pageTableAdd_pool {m₁ : Machine} {table phyaddr : UInt32} (selfMapped : m.SelfMapped)
    (absent : isPresent (m.pde vaddr) = false) (palloc : m.palloc = some (m₁, table))
    (added : m.pageTableAdd vaddr phyaddr = some m') : m'.kernelPool = m₁.kernelPool := by
  simp only [pageTableAdd, read_pdePtr selfMapped, Option.bind_eq_bind, Option.bind_some, absent,
    Bool.false_eq_true, if_false, palloc, Option.bind_eq_some_iff] at added
  obtain ⟨m₂, written, m₃, cleared, pte, _, result⟩ := added
  split at result
  · cases result
  · rw [write_pool result, memset_pool cleared, write_pool written]

theorem toNat_ofNat_frame {frame : Nat} (inside : frame < 2 ^ 20) :
    (UInt32.ofNat (frame * 4096)).toNat = frame * 4096 :=
  UInt32.toNat_ofNat_of_lt' (by show frame * 4096 < 2 ^ 32; omega)

theorem frames_ofNat {frame idx : Nat} (inside : frame < 2 ^ 20) (small : idx < 1024) :
    m.frames frame idx = (m.mem (entryAddr (UInt32.ofNat (frame * 4096)) (UInt32.ofNat idx))).toNat := by
  have isIdx := toNat_ofNat_idx small
  have address := @frames_entryAddr m (UInt32.ofNat (frame * 4096)) (UInt32.ofNat idx) (by omega)
  rw [toNat_ofNat_frame inside, isIdx, Nat.mul_div_cancel _ (by decide)] at address
  exact address

/-- The directory's entry of a page lies in the frame of CR3, at the index of the page. -/
theorem Walks.entryAddr_eq_pdeAddr (walks : Walks m s) {frame idx : Nat} (inside : frame < 2 ^ 20)
    (small : idx < 1024) :
    entryAddr (UInt32.ofNat (frame * 4096)) (UInt32.ofNat idx) = m.pdeAddr vaddr ↔
      frame = s.cr3 ∧ idx = Memory.pdeIdx vaddr.toNat := by
  have isFrame := toNat_ofNat_frame inside
  have isIdx := toNat_ofNat_idx small
  have dirIdx := dirIdx_lt vaddr
  rw [← UInt32.toNat_inj, pdeAddr, toNat_entryAddr _ (by omega), toNat_entryAddr _ dirIdx, isFrame, isIdx, walks.cr3]
  rw [toNat_dirIdx] at dirIdx ⊢
  unfold Memory.pdeIdx
  omega

/-- The entries of one frame are not in another. -/
theorem entryAddr_outside {table : UInt32} {frame idx : Nat} (inside : frame < 2 ^ 20) (small : idx < 1024)
    (other : frame ≠ table.toNat / 4096) :
    entryAddr (UInt32.ofNat (frame * 4096)) (UInt32.ofNat idx) &&& 0xfffff000 ≠ table &&& 0xfffff000 := by
  intro same
  have isIdx := toNat_ofNat_idx small
  have sameNat := congrArg UInt32.toNat same
  rw [entryAddr_page _ (by omega), toNat_page, toNat_page, toNat_ofNat_frame inside] at sameNat
  omega

/-- The new table holds the entry of the page, and zeros. -/
theorem newTable_frames {table phyaddr : UInt32} (aligned : table.toNat % 4096 = 0)
    (new : NewTable m m' vaddr table phyaddr) {idx : Nat} (small : idx < 1024) :
    m'.frames (table.toNat / 4096) idx =
      Function.update (fun _ => 0) (Memory.pteIdx vaddr.toNat) (pteOf phyaddr.toNat) idx := by
  have isIdx := toNat_ofNat_idx small
  have sameBase : UInt32.ofNat (table.toNat / 4096 * 4096) = table := by
    apply UInt32.toNat_inj.mp
    rw [toNat_ofNat_frame (frame_lt table)]
    omega
  rw [frames_ofNat (frame_lt table) small, sameBase]
  by_cases isPte : idx = Memory.pteIdx vaddr.toNat
  · have sameIdx : UInt32.ofNat idx = tableIdx vaddr := by
      apply UInt32.toNat_inj.mp
      rw [isIdx, toNat_tableIdx, isPte]
      rfl
    rw [sameIdx, new.pte, toNat_entryOf, isPte, Function.update_self]
  · have otherIdx : UInt32.ofNat idx ≠ tableIdx vaddr := by
      intro same
      have sameNat := congrArg UInt32.toNat same
      rw [isIdx, toNat_tableIdx] at sameNat
      exact isPte sameNat
    rw [new.rest _ (by omega) otherIdx, Function.update_of_ne isPte]
    rfl

/-- Memory with a new page table. -/
theorem Walks.withTable (walks : Walks m s) {table phyaddr : UInt32}
    (aligned : table.toNat % 4096 = 0) (new : NewTable m m' vaddr table phyaddr) {frame idx : Nat}
    (inside : frame < 2 ^ 20) (small : idx < 1024) :
    Mmu.withTable s.mem s.cr3 vaddr.toNat (table.toNat / 4096) phyaddr.toNat frame idx =
      m'.frames frame idx := by
  rw [Mmu.withTable, Memory.setWord]
  by_cases isTable : frame = table.toNat / 4096
  · rw [isTable, newTable_frames aligned new small, Function.update_self, Function.update_self]
  · have outside := entryAddr_outside inside small isTable
    rw [Function.update_of_ne isTable, Function.update_of_ne isTable, frames_ofNat inside small]
    by_cases isPde : frame = s.cr3 ∧ idx = Memory.pdeIdx vaddr.toNat
    · have isFrame : table.toNat / 4096 * pgSize = table.toNat := by
        simp only [pgSize]
        omega
      rw [(walks.entryAddr_eq_pdeAddr inside small).mpr isPde, new.pde, toNat_entryOf, isPde.1, isPde.2, setWord_self,
        isFrame]
    · have otherAddr := mt (walks.entryAddr_eq_pdeAddr inside small).mp isPde
      rw [setWord_other (by omega), new.other _ outside otherAddr, walks.mem inside small, frames_ofNat inside small]

/-- `page_table_add` where the page table is there: one word is written. -/
theorem Walks.pageTableAdd_present (walks : Walks m s) (running : s.Running)
    (isThere : isPresent (m.pde vaddr) = true) {phyaddr : UInt32}
    (added : s.pageTableAdd vaddr.toNat phyaddr.toNat = some s') :
    ∃ m', m.pageTableAdd vaddr phyaddr = some m' ∧ Walks m' s' := by
  have selfMapped := walks.selfMapped running.isDir
  have readPde := walks.read (aligned_pdePtr vaddr)
  have readPte := walks.read (aligned_ptePtr vaddr)
  rw [(pointers_eq vaddr).2, read_pdePtr selfMapped, Option.map_some] at readPde
  rw [(pointers_eq vaddr).1, read_ptePtr selfMapped isThere, Option.map_some] at readPte
  simp only [Mmu.pageTableAdd, readPde, readPte, Option.bind_eq_bind, Option.bind_some,
    present_toNat, isThere, if_true] at added
  split at added
  · cases added
  · rename_i free
    rw [← toNat_entryOf, ← (pointers_eq vaddr).1] at added
    obtain ⟨m', written, walks'⟩ := walks.write (aligned_ptePtr vaddr) added
    refine ⟨m', ?_, walks'⟩
    simp only [Machine.pageTableAdd, read_pdePtr selfMapped, read_ptePtr selfMapped isThere,
      Option.bind_eq_bind, Option.bind_some, isThere, if_true, if_neg free, written]

/-- Only the lower half has pages without a page table. -/
theorem Walks.user_of_absent (walks : Walks m s) (running : s.Running)
    (isAbsent : isPresent (m.pde vaddr) = false) : vaddr.toNat < 0xc0000000 := by
  have small := vaddr.toNat_lt
  have absent : present (s.mem s.cr3 (Memory.pdeIdx vaddr.toNat)) = false := by
    rw [walks.pde vaddr, present_toNat]
    exact isAbsent
  by_contra kernel
  have above : 768 ≤ Memory.pdeIdx vaddr.toNat ∧ Memory.pdeIdx vaddr.toNat ≤ 1023 := by
    simp only [Memory.pdeIdx]
    omega
  rcases Nat.lt_or_eq_of_le above.2 with inHalf | last
  · rw [running.isDir.kernel _ above.1 inHalf, present_pteOf] at absent
    cases absent
  · rw [last, running.isDir.self, present_pteOf] at absent
    cases absent

/-- `page_table_add` where the page table has to be made. -/
theorem Walks.pageTableAdd_absent (walks : Walks m s) (running : s.Running) (low : LowPool s)
    (isAbsent : isPresent (m.pde vaddr) = false) {phyaddr : UInt32}
    (added : s.pageTableAdd vaddr.toNat phyaddr.toNat = some s') :
    ∃ m', m.pageTableAdd vaddr phyaddr = some m' ∧ Walks m' s' := by
  have selfMapped := walks.selfMapped running.isDir
  have absent : present (s.mem s.cr3 (Memory.pdeIdx vaddr.toNat)) = false := by
    rw [walks.pde vaddr, present_toNat]
    exact isAbsent
  obtain ⟨s₁, table, allocated, alloc, rfl⟩ :=
    Mmu.pageTableAdd_absent running (walks.user_of_absent running isAbsent) absent added
  obtain ⟨m₁, table', palloc, isTable, walks₁⟩ := walks.palloc low allocated
  have notDir : table ≠ s.cr3 := by
    rintro rfl
    exact running.taken ⟨.kernel, alloc.wasFree⟩
  have isFrame : table'.toNat / 4096 = table := by
    rw [isTable]
    exact Nat.mul_div_cancel _ (by decide)
  have apart : table' &&& 0xfffff000 ≠ m.cr3 &&& 0xfffff000 := by
    intro same
    have := congrArg UInt32.toNat same
    rw [toNat_page, toNat_page, isFrame, ← walks.cr3] at this
    exact notDir (by omega)
  obtain ⟨m', isAdd, new⟩ := pageTableAdd_newTable selfMapped isAbsent palloc apart phyaddr
  refine ⟨m', isAdd, ?_, ?_, ?_⟩
  · rw [new.cr3, ← walks.cr3]
    exact alloc.cr3
  · intro frame idx inside small
    rw [← isFrame]
    refine walks.withTable ?_ new inside small
    rw [isTable]
    exact Nat.mul_mod_left _ _
  · rw [pageTableAdd_pool selfMapped isAbsent palloc isAdd, ← walks₁.pool]

theorem Walks.pageTableAdd (walks : Walks m s) (running : s.Running) (low : LowPool s)
    {phyaddr : UInt32} (added : s.pageTableAdd vaddr.toNat phyaddr.toNat = some s') :
    ∃ m', m.pageTableAdd vaddr phyaddr = some m' ∧ Walks m' s' := by
  cases isThere : isPresent (m.pde vaddr) with
  | true => exact walks.pageTableAdd_present running isThere added
  | false => exact walks.pageTableAdd_absent running low isThere added

end Machine

end ZyOs.Memory.PageWalk
