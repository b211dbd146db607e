import ZyOs.Lib.Masks
import ZyOs.Memory.MmuTables

/-!
Contract: `pte_ptr`, `pde_ptr`, `addr_v2p` and `page_table_add` of `kernel/memory.c` on
32-bit words, beside the page walk of the processor.

Owns:
- physical memory by the address of a word, CR3, the walk over two levels;
- the four functions, which compute addresses by masks and shifts and reach every table
  through the walk itself.

A result of `none` is a page fault or a failed `ASSERT`. Supervisor accesses only: the
walk looks at no bit of an entry but P and the frame.

Does not own: the invariant of the pools.
-/

namespace ZyOs.Memory.PageWalk

open ZyOs.Lib ZyOs.Kernel

/-! ### The processor -/

/-- Physical memory by the address of each word, CR3 and the kernel's pool. -/
structure Machine where
  mem : UInt32 → UInt32
  cr3 : UInt32
  kernelPool : Pool

/-- Bit P. -/
def isPresent (entry : UInt32) : Bool := entry &&& 0x00000001 ≠ 0

/-- Bits 31 to 22 of an address. -/
def dirIdx (vaddr : UInt32) : UInt32 := vaddr >>> 22

/-- Bits 21 to 12. -/
def tableIdx (vaddr : UInt32) : UInt32 := (vaddr >>> 12) &&& 0x3ff

/-- Entry `idx` of the table that `base` points to. -/
def entryAddr (base idx : UInt32) : UInt32 :=
  (base &&& (0xfffff000 : UInt32)) ||| (idx <<< (2 : UInt32))

namespace Machine

/-- The word the walk of an address reads first. -/
def pdeAddr (s : Machine) (vaddr : UInt32) : UInt32 := entryAddr s.cr3 (dirIdx vaddr)

def pde (s : Machine) (vaddr : UInt32) : UInt32 := s.mem (s.pdeAddr vaddr)

/-- The word the walk of an address reads next, where the first is present. -/
def pteAddr (s : Machine) (vaddr : UInt32) : UInt32 :=
  entryAddr (s.pde vaddr) (tableIdx vaddr)

def pte (s : Machine) (vaddr : UInt32) : UInt32 := s.mem (s.pteAddr vaddr)

/-- The physical address of a virtual one. -/
def walk (s : Machine) (vaddr : UInt32) : Option UInt32 :=
  if isPresent (s.pde vaddr) ∧ isPresent (s.pte vaddr) then
    some ((s.pte vaddr &&& 0xfffff000) ||| (vaddr &&& 0xfff))
  else
    none

def read (s : Machine) (vaddr : UInt32) : Option UInt32 := do
  let addr ← s.walk vaddr
  return s.mem addr

def write (s : Machine) (vaddr value : UInt32) : Option Machine := do
  let addr ← s.walk vaddr
  return { s with mem := Function.update s.mem addr value }

/-- `memset` with 0, a word at a time. -/
def memset : Nat → Machine → UInt32 → Option Machine
  | 0, s, _ => some s
  | words + 1, s, vaddr => do
      let s ← s.write vaddr 0
      memset words s (vaddr + 4)

end Machine

/-! ### The functions -/

/-- `PDE_IDX`. -/
def pdeIdx (addr : UInt32) : UInt32 := (addr &&& 0xffc00000) >>> 22

/-- `PTE_IDX`. -/
def pteIdx (addr : UInt32) : UInt32 := (addr &&& 0x003ff000) >>> 12

/-- `phyaddr | PG_US_U | PG_RW_W | PG_P_1`. -/
def entryOf (phyaddr : UInt32) : UInt32 := phyaddr ||| 4 ||| 2 ||| 1

/-- `pte_ptr`. -/
def ptePtr (vaddr : UInt32) : UInt32 :=
  (0xffc00000 : UInt32) + ((vaddr &&& 0xffc00000) >>> 10) + pteIdx vaddr * 4

/-- `pde_ptr`. -/
def pdePtr (vaddr : UInt32) : UInt32 := (0xfffff000 : UInt32) + pdeIdx vaddr * 4

namespace Machine

/-- `palloc(&kernel_pool)`; a pool without a free page gives `NULL`. -/
def palloc (s : Machine) : Option (Machine × UInt32) := do
  let bitIdx ← bitmapScan s.kernelPool.poolBitmap 1
  if bitIdx = -1 then
    return (s, 0)
  else
    return ({ s with kernelPool := { s.kernelPool with
        poolBitmap := bitmapSet s.kernelPool.poolBitmap bitIdx.toNat true } },
      UInt32.ofNat (bitIdx.toNat * pgSize + s.kernelPool.phyAddrStart))

/-- `page_table_add`. -/
def pageTableAdd (s : Machine) (vaddr pagePhyaddr : UInt32) : Option Machine := do
  let pde ← s.read (pdePtr vaddr)
  if isPresent pde then
    let pte ← s.read (ptePtr vaddr)
    if isPresent pte then none else s.write (ptePtr vaddr) (entryOf pagePhyaddr)
  else
    let (s, pdePhyaddr) ← s.palloc
    let s ← s.write (pdePtr vaddr) (entryOf pdePhyaddr)
    let s ← memset 1024 s (ptePtr vaddr &&& 0xfffff000)
    let pte ← s.read (ptePtr vaddr)
    if isPresent pte then none else s.write (ptePtr vaddr) (entryOf pagePhyaddr)

/-- `addr_v2p`. -/
def addrV2p (s : Machine) (vaddr : UInt32) : Option UInt32 := do
  let pte ← s.read (ptePtr vaddr)
  return (pte &&& 0xfffff000) + (vaddr &&& 0x00000fff)

/-- Entry 1023 of the directory points to the directory. -/
structure SelfMapped (s : Machine) : Prop where
  present : isPresent (s.mem (entryAddr s.cr3 1023)) = true
  frame : s.mem (entryAddr s.cr3 1023) &&& 0xfffff000 = s.cr3 &&& 0xfffff000

end Machine

/-! ### Addresses -/

theorem toNat_page (addr : UInt32) : (addr &&& 0xfffff000).toNat = addr.toNat / 4096 * 4096 := by
  have small := addr.toNat_lt
  rw [toNat_and_field addr (k := 20) (n := 12) rfl]
  omega

theorem toNat_offset (addr : UInt32) : (addr &&& 0xfff).toNat = addr.toNat % 4096 :=
  toNat_and_low addr (n := 12) rfl

theorem toNat_dirIdx (addr : UInt32) : (dirIdx addr).toNat = addr.toNat / 2 ^ 22 := by
  rw [dirIdx, UInt32.toNat_shiftRight, Nat.shiftRight_eq_div_pow]
  rfl

theorem toNat_tableIdx (addr : UInt32) : (tableIdx addr).toNat = addr.toNat / 4096 % 1024 := by
  rw [tableIdx, toNat_and_low _ (n := 10) rfl, UInt32.toNat_shiftRight, Nat.shiftRight_eq_div_pow]
  rfl

theorem dirIdx_lt (addr : UInt32) : (dirIdx addr).toNat < 1024 := by
  have small := addr.toNat_lt
  rw [toNat_dirIdx]
  omega

theorem tableIdx_lt (addr : UInt32) : (tableIdx addr).toNat < 1024 := by
  rw [toNat_tableIdx]
  exact Nat.mod_lt _ (by decide)

theorem toNat_ptePtr (vaddr : UInt32) :
    (ptePtr vaddr).toNat =
      0xffc00000 + vaddr.toNat / 2 ^ 22 * 4096 + vaddr.toNat / 4096 % 1024 * 4 := by
  have small := vaddr.toNat_lt
  have dirBits : ((vaddr &&& 0xffc00000) >>> 10).toNat = vaddr.toNat / 2 ^ 22 * 4096 := by
    rw [UInt32.toNat_shiftRight, toNat_and_field vaddr (k := 10) (n := 22) rfl,
      Nat.shiftRight_eq_div_pow]
    simp only [UInt32.reduceToNat, Nat.reducePow, Nat.reduceMod]
    omega
  have tableBits : (pteIdx vaddr).toNat = vaddr.toNat / 4096 % 1024 := by
    rw [pteIdx, UInt32.toNat_shiftRight, toNat_and_field vaddr (k := 10) (n := 12) rfl,
      Nat.shiftRight_eq_div_pow]
    simp only [UInt32.reduceToNat, Nat.reducePow, Nat.reduceMod]
    omega
  rw [ptePtr, UInt32.toNat_add, UInt32.toNat_add, UInt32.toNat_mul, dirBits, tableBits]
  simp only [UInt32.reduceToNat, Nat.reducePow]
  omega

theorem toNat_pdePtr (vaddr : UInt32) :
    (pdePtr vaddr).toNat = 0xfffff000 + vaddr.toNat / 2 ^ 22 * 4 := by
  have small := vaddr.toNat_lt
  have dirBits : (pdeIdx vaddr).toNat = vaddr.toNat / 2 ^ 22 := by
    rw [pdeIdx, UInt32.toNat_shiftRight, toNat_and_field vaddr (k := 10) (n := 22) rfl,
      Nat.shiftRight_eq_div_pow]
    simp only [UInt32.reduceToNat, Nat.reducePow, Nat.reduceMod]
    omega
  rw [pdePtr, UInt32.toNat_add, UInt32.toNat_mul, dirBits]
  simp only [UInt32.reduceToNat, Nat.reducePow]
  omega

theorem toNat_shiftLeft_two {idx : UInt32} (small : idx.toNat < 1024) :
    (idx <<< 2).toNat = idx.toNat * 4 := by
  rw [UInt32.toNat_shiftLeft, Nat.shiftLeft_eq]
  simp only [UInt32.reduceToNat, Nat.reducePow, Nat.reduceMod]
  omega

theorem toNat_entryAddr {idx : UInt32} (base : UInt32) (small : idx.toNat < 1024) :
    (entryAddr base idx).toNat = base.toNat / 4096 * 4096 + idx.toNat * 4 := by
  rw [entryAddr, UInt32.toNat_or, toNat_page, toNat_shiftLeft_two small]
  exact or_low _ (show 2 ^ 12 = 4096 from rfl) (by omega)

theorem entryAddr_page {idx : UInt32} (base : UInt32) (small : idx.toNat < 1024) :
    entryAddr base idx &&& 0xfffff000 = base &&& 0xfffff000 := by
  apply UInt32.toNat_inj.mp
  rw [toNat_page, toNat_page, toNat_entryAddr base small]
  omega

/-- An entry is known by its frame and its index. -/
theorem entryAddr_inj {base base' idx idx' : UInt32} (small : idx.toNat < 1024)
    (small' : idx'.toNat < 1024) (same : entryAddr base idx = entryAddr base' idx') :
    base &&& 0xfffff000 = base' &&& 0xfffff000 ∧ idx = idx' := by
  have sameNat := congrArg UInt32.toNat same
  rw [toNat_entryAddr base small, toNat_entryAddr base' small'] at sameNat
  constructor
  · have frame : base.toNat / 4096 = base'.toNat / 4096 := by omega
    apply UInt32.toNat_inj.mp
    rw [toNat_page, toNat_page, frame]
  · apply UInt32.toNat_inj.mp
    omega

theorem entryAddr_congr {base base' : UInt32} (same : base &&& 0xfffff000 = base' &&& 0xfffff000)
    (idx : UInt32) : entryAddr base idx = entryAddr base' idx := by
  rw [entryAddr, same, entryAddr]

theorem entryOf_page (phyaddr : UInt32) :
    entryOf phyaddr &&& 0xfffff000 = phyaddr &&& 0xfffff000 := by
  apply UInt32.toBitVec_inj.mp
  simp [entryOf, BitVec.and_or_distrib_right]

theorem isPresent_iff (entry : UInt32) : isPresent entry = true ↔ entry.toNat % 2 = 1 := by
  have low : (entry &&& 0x00000001).toNat = entry.toNat % 2 := toNat_and_low entry (n := 1) rfl
  rw [isPresent, decide_eq_true_eq, ne_eq, ← UInt32.toNat_inj, low]
  simp

theorem isPresent_entryOf (phyaddr : UInt32) : isPresent (entryOf phyaddr) = true := by
  have low : (entryOf phyaddr &&& 0x00000001) = 0x00000001 := by
    apply UInt32.toBitVec_inj.mp
    ext i
    simp [entryOf, BitVec.and_or_distrib_right]
  rw [isPresent, low]
  rfl

/-- The word of a page at an offset. -/
theorem or_offset {base vaddr idx : UInt32} (small : idx.toNat < 1024)
    (offset : vaddr.toNat % 4096 = idx.toNat * 4) :
    (base &&& (0xfffff000 : UInt32)) ||| (vaddr &&& (0xfff : UInt32)) = entryAddr base idx := by
  have same : vaddr &&& 0xfff = idx <<< (2 : UInt32) := by
    apply UInt32.toNat_inj.mp
    rw [toNat_offset, toNat_shiftLeft_two small, offset]
  rw [same, entryAddr]

/-- The walk puts frame and offset together by an OR, `addr_v2p` by a sum. -/
theorem page_or_offset (entry vaddr : UInt32) :
    (entry &&& (0xfffff000 : UInt32)) ||| (vaddr &&& (0xfff : UInt32)) =
      (entry &&& 0xfffff000) + (vaddr &&& 0xfff) := by
  have small := entry.toNat_lt
  have bounded : entry.toNat / 4096 * 4096 + vaddr.toNat % 4096 < 2 ^ 32 := by omega
  apply UInt32.toNat_inj.mp
  rw [UInt32.toNat_or, UInt32.toNat_add, toNat_page, toNat_offset,
    or_low _ (show 2 ^ 12 = 4096 from rfl) (Nat.mod_lt _ (by decide)), Nat.mod_eq_of_lt bounded]

theorem page_of_aligned {addr : UInt32} (aligned : addr &&& 0xfff = 0) :
    addr &&& 0xfffff000 = addr := by
  have offset := congrArg UInt32.toNat aligned
  rw [toNat_offset, UInt32.toNat_zero] at offset
  apply UInt32.toNat_inj.mp
  rw [toNat_page]
  omega

/-! ### The window of the page tables -/

namespace Machine

variable {s s' : Machine} {vaddr : UInt32}

/-- An address of the window goes through the directory twice. -/
theorem SelfMapped.walk_window (selfMapped : s.SelfMapped) (window : dirIdx vaddr = 1023)
    {pde : UInt32} (entry : s.mem (entryAddr s.cr3 (tableIdx vaddr)) = pde) :
    s.walk vaddr =
      if isPresent pde then some ((pde &&& 0xfffff000) ||| (vaddr &&& 0xfff)) else none := by
  have dirEntry : s.pde vaddr = s.mem (entryAddr s.cr3 1023) := by
    rw [Machine.pde, pdeAddr, window]
  have tableEntry : s.pte vaddr = pde := by
    rw [Machine.pte, pteAddr, dirEntry, entryAddr_congr selfMapped.frame, entry]
  rw [walk, dirEntry, tableEntry]
  simp [selfMapped.present]

theorem dirIdx_ptePtr (vaddr : UInt32) : dirIdx (ptePtr vaddr) = 1023 := by
  have small := vaddr.toNat_lt
  apply UInt32.toNat_inj.mp
  rw [toNat_dirIdx, toNat_ptePtr]
  simp only [UInt32.reduceToNat]
  omega

theorem tableIdx_ptePtr (vaddr : UInt32) : tableIdx (ptePtr vaddr) = dirIdx vaddr := by
  have small := vaddr.toNat_lt
  apply UInt32.toNat_inj.mp
  rw [toNat_tableIdx, toNat_dirIdx, toNat_ptePtr]
  omega

theorem walk_ptePtr (selfMapped : s.SelfMapped) (vaddr : UInt32) :
    s.walk (ptePtr vaddr) = if isPresent (s.pde vaddr) then some (s.pteAddr vaddr) else none := by
  have word : (ptePtr vaddr).toNat % 4096 = (tableIdx vaddr).toNat * 4 := by
    rw [toNat_tableIdx, toNat_ptePtr]
    omega
  have entry : s.mem (entryAddr s.cr3 (tableIdx (ptePtr vaddr))) = s.pde vaddr := by
    rw [tableIdx_ptePtr, Machine.pde, pdeAddr]
  rw [selfMapped.walk_window (dirIdx_ptePtr vaddr) entry, or_offset (tableIdx_lt vaddr) word,
    pteAddr]

theorem walk_pdePtr (selfMapped : s.SelfMapped) (vaddr : UInt32) :
    s.walk (pdePtr vaddr) = some (s.pdeAddr vaddr) := by
  have small := vaddr.toNat_lt
  have window : dirIdx (pdePtr vaddr) = 1023 := by
    apply UInt32.toNat_inj.mp
    rw [toNat_dirIdx, toNat_pdePtr]
    simp only [UInt32.reduceToNat]
    omega
  have table : tableIdx (pdePtr vaddr) = 1023 := by
    apply UInt32.toNat_inj.mp
    rw [toNat_tableIdx, toNat_pdePtr]
    simp only [UInt32.reduceToNat]
    omega
  have word : (pdePtr vaddr).toNat % 4096 = (dirIdx vaddr).toNat * 4 := by
    rw [toNat_dirIdx, toNat_pdePtr]
    omega
  rw [selfMapped.walk_window window (congrArg (fun idx => s.mem (entryAddr s.cr3 idx)) table),
    if_pos selfMapped.present, or_offset (dirIdx_lt vaddr) word,
    entryAddr_congr selfMapped.frame, pdeAddr]

theorem read_pdePtr (selfMapped : s.SelfMapped) (vaddr : UInt32) :
    s.read (pdePtr vaddr) = some (s.pde vaddr) := by
  rw [read, walk_pdePtr selfMapped]
  rfl

theorem read_ptePtr (selfMapped : s.SelfMapped) (isPde : isPresent (s.pde vaddr) = true) :
    s.read (ptePtr vaddr) = some (s.pte vaddr) := by
  rw [read, walk_ptePtr selfMapped, if_pos isPde]
  rfl

theorem write_ptePtr (selfMapped : s.SelfMapped) (isPde : isPresent (s.pde vaddr) = true)
    (value : UInt32) :
    s.write (ptePtr vaddr) value =
      some { s with mem := Function.update s.mem (s.pteAddr vaddr) value } := by
  rw [write, walk_ptePtr selfMapped, if_pos isPde]
  rfl

/-! ### The walk after a write -/

/-- A walk reads two words. -/
theorem walk_congr (cr3 : s'.cr3 = s.cr3) (pde : s'.mem (s.pdeAddr vaddr) = s.mem (s.pdeAddr vaddr))
    (pte : isPresent (s.pde vaddr) = true → s'.mem (s.pteAddr vaddr) = s.mem (s.pteAddr vaddr)) :
    s'.walk vaddr = s.walk vaddr := by
  have dirEntry : s'.pde vaddr = s.pde vaddr := by
    rw [Machine.pde, pdeAddr, cr3]
    exact pde
  by_cases isPde : isPresent (s.pde vaddr) = true
  · have tableEntry : s'.pte vaddr = s.pte vaddr := by
      rw [Machine.pte, pteAddr, dirEntry]
      exact pte isPde
    rw [walk, dirEntry, tableEntry, walk]
  · rw [walk, dirEntry, walk, if_neg fun both => isPde both.1, if_neg fun both => isPde both.1]

/-- An entry for the page. -/
theorem walk_of_entryOf {phyaddr : UInt32} (isPde : isPresent (s.pde vaddr) = true)
    (pte : s.pte vaddr = entryOf phyaddr) (aligned : phyaddr &&& 0xfff = 0) :
    s.walk vaddr = some (phyaddr + (vaddr &&& 0xfff)) := by
  rw [walk, pte, if_pos ⟨isPde, isPresent_entryOf phyaddr⟩, page_or_offset, entryOf_page,
    page_of_aligned aligned]

theorem walk_none (absent : isPresent (s.pte vaddr) = false) : s.walk vaddr = none := by
  rw [walk, if_neg]
  intro both
  rw [absent] at both
  cases both.2

/-! ### A page of zeros -/

/-- The entries from `first` on that `memset` has reached are 0. -/
structure Cleared (s s' : Machine) (table : UInt32) (first words : Nat) : Prop where
  cr3 : s'.cr3 = s.cr3
  zero : ∀ j, first ≤ j → j < first + words → s'.mem (entryAddr table (UInt32.ofNat j)) = 0
  other : ∀ addr,
    (∀ j, first ≤ j → j < first + words → addr ≠ entryAddr table (UInt32.ofNat j)) →
    s'.mem addr = s.mem addr

theorem toNat_ofNat_idx {j : Nat} (small : j < 1024) : (UInt32.ofNat j).toNat = j :=
  UInt32.toNat_ofNat_of_lt' (by show j < 2 ^ 32; omega)

/-- A page table that is not the directory has no word of the directory. -/
theorem entryAddr_ne_dir {table cr3 i j : UInt32}
    (apart : table &&& 0xfffff000 ≠ cr3 &&& 0xfffff000) (smallI : i.toNat < 1024)
    (smallJ : j.toNat < 1024) : entryAddr cr3 i ≠ entryAddr table j := by
  intro same
  exact apart (entryAddr_inj smallI smallJ same).1.symm

/-- Word `k` of a page of the window. -/
theorem write_window (selfMapped : s.SelfMapped) {base table : UInt32}
    (aligned : base.toNat % 4096 = 0) (window : dirIdx base = 1023)
    (entry : s.mem (entryAddr s.cr3 (tableIdx base)) = table) (isTable : isPresent table = true)
    {k : Nat} (small : k < 1024) (value : UInt32) :
    s.write (base + UInt32.ofNat (4 * k)) value =
      some { s with mem := Function.update s.mem (entryAddr table (UInt32.ofNat k)) value } := by
  have bounded := base.toNat_lt
  have offset : (UInt32.ofNat (4 * k)).toNat = 4 * k :=
    UInt32.toNat_ofNat_of_lt' (by show 4 * k < 2 ^ 32; omega)
  have address : (base + UInt32.ofNat (4 * k)).toNat = base.toNat + 4 * k := by
    rw [UInt32.toNat_add, offset, Nat.mod_eq_of_lt]
    omega
  have inDir : dirIdx (base + UInt32.ofNat (4 * k)) = 1023 := by
    rw [← window]
    apply UInt32.toNat_inj.mp
    rw [toNat_dirIdx, toNat_dirIdx, address]
    omega
  have inTable : tableIdx (base + UInt32.ofNat (4 * k)) = tableIdx base := by
    apply UInt32.toNat_inj.mp
    rw [toNat_tableIdx, toNat_tableIdx, address]
    omega
  have word : (base + UInt32.ofNat (4 * k)).toNat % 4096 = (UInt32.ofNat k).toNat * 4 := by
    rw [toNat_ofNat_idx small, address]
    omega
  have walked := selfMapped.walk_window inDir (inTable ▸ entry)
  rw [if_pos isTable, or_offset (by rw [toNat_ofNat_idx small]; exact small) word] at walked
  rw [write, walked]
  rfl

theorem SelfMapped.setEntry (selfMapped : s.SelfMapped) {table idx : UInt32}
    (apart : table &&& 0xfffff000 ≠ s.cr3 &&& 0xfffff000) (small : idx.toNat < 1024)
    (value : UInt32) :
    SelfMapped { s with mem := Function.update s.mem (entryAddr table idx) value } := by
  have ne := entryAddr_ne_dir apart (i := 1023) (by decide) small
  have same := Function.update_of_ne ne value s.mem
  constructor
  · exact (congrArg isPresent same).trans selfMapped.present
  · exact (congrArg (fun entry => entry &&& 0xfffff000) same).trans selfMapped.frame

theorem memset_window {base table : UInt32} (aligned : base.toNat % 4096 = 0)
    (window : dirIdx base = 1023) (isTable : isPresent table = true) (words : Nat) :
    ∀ {s : Machine} {k : Nat}, s.SelfMapped →
      s.mem (entryAddr s.cr3 (tableIdx base)) = table →
      table &&& 0xfffff000 ≠ s.cr3 &&& 0xfffff000 → k + words ≤ 1024 →
      ∃ s', memset words s (base + UInt32.ofNat (4 * k)) = some s' ∧
        Cleared s s' table k words := by
  induction words with
  | zero =>
      intro s k _ _ _ _
      exact ⟨s, rfl, rfl, fun j from_ below => absurd below (by omega), fun _ _ => rfl⟩
  | succ words ih =>
      intro s k selfMapped entry apart bounded
      have small : k < 1024 := by omega
      have smallIdx : (UInt32.ofNat k).toNat < 1024 := by
        rw [toNat_ofNat_idx small]
        exact small
      have written := write_window selfMapped aligned window entry isTable small 0
      have next : base + UInt32.ofNat (4 * k) + 4 = base + UInt32.ofNat (4 * (k + 1)) := by
        rw [Nat.mul_add, UInt32.ofNat_add, UInt32.add_assoc]
        rfl
      have kept : Function.update s.mem (entryAddr table (UInt32.ofNat k)) 0
          (entryAddr s.cr3 (tableIdx base)) = table := by
        rw [Function.update_of_ne (entryAddr_ne_dir apart (tableIdx_lt base) smallIdx), entry]
      obtain ⟨s', run, cleared⟩ :=
        ih (k := k + 1) (selfMapped.setEntry apart smallIdx 0) kept apart (by omega)
      refine ⟨s', ?_, cleared.cr3, ?_, ?_⟩
      · rw [memset, written]
        exact next ▸ run
      · intro j fromK below
        by_cases first : j = k
        · have untouched : s'.mem (entryAddr table (UInt32.ofNat k)) =
              Function.update s.mem (entryAddr table (UInt32.ofNat k)) 0
                (entryAddr table (UInt32.ofNat k)) := by
            refine cleared.other _ fun i fromNext belowEnd same => ?_
            have sameIdx := congrArg UInt32.toNat (entryAddr_inj smallIdx
              (by rw [toNat_ofNat_idx (by omega)]; omega) same).2
            rw [toNat_ofNat_idx small, toNat_ofNat_idx (by omega)] at sameIdx
            omega
          rw [first, untouched]
          exact Function.update_self _ _ _
        · exact cleared.zero j (by omega) (by omega)
      · intro addr outside
        rw [cleared.other addr fun j fromNext below => outside j (by omega) (by omega)]
        exact Function.update_of_ne (outside k (by omega) (by omega)) _ _

/-! ### `page_table_add` -/

theorem sameIdx_of_page {w : UInt32} (page : w &&& 0xfffff000 = vaddr &&& 0xfffff000) :
    dirIdx w = dirIdx vaddr ∧ tableIdx w = tableIdx vaddr := by
  have pageNat := congrArg UInt32.toNat page
  rw [toNat_page, toNat_page] at pageNat
  have frame : w.toNat / 4096 = vaddr.toNat / 4096 := by omega
  constructor
  · apply UInt32.toNat_inj.mp
    rw [toNat_dirIdx, toNat_dirIdx]
    omega
  · apply UInt32.toNat_inj.mp
    rw [toNat_tableIdx, toNat_tableIdx, frame]

theorem page_of_sameIdx {w : UInt32} (dir : dirIdx w = dirIdx vaddr)
    (table : tableIdx w = tableIdx vaddr) : w &&& 0xfffff000 = vaddr &&& 0xfffff000 := by
  have dirNat := congrArg UInt32.toNat dir
  have tableNat := congrArg UInt32.toNat table
  rw [toNat_dirIdx, toNat_dirIdx] at dirNat
  rw [toNat_tableIdx, toNat_tableIdx] at tableNat
  have frame : w.toNat / 4096 = vaddr.toNat / 4096 := by omega
  apply UInt32.toNat_inj.mp
  rw [toNat_page, toNat_page, frame]

/-- The page table is there: one word is written. -/
theorem pageTableAdd_table (selfMapped : s.SelfMapped) (isPde : isPresent (s.pde vaddr) = true)
    (absent : isPresent (s.pte vaddr) = false) (phyaddr : UInt32) :
    s.pageTableAdd vaddr phyaddr =
      some { s with mem := Function.update s.mem (s.pteAddr vaddr) (entryOf phyaddr) } := by
  simp [pageTableAdd, read_pdePtr selfMapped, read_ptePtr selfMapped isPde, isPde, absent,
    write_ptePtr selfMapped isPde]

theorem palloc_mem {s₁ : Machine} {table : UInt32} (palloc : s.palloc = some (s₁, table)) :
    s₁.mem = s.mem ∧ s₁.cr3 = s.cr3 := by
  unfold Machine.palloc at palloc
  cases scan : bitmapScan s.kernelPool.poolBitmap 1 with
  | none => simp [scan] at palloc
  | some bitIdx =>
      by_cases full : bitIdx = -1
      · simp only [scan, Option.bind_eq_bind, Option.bind_some, full, if_true, Option.pure_def,
          Option.some.injEq, Prod.mk.injEq] at palloc
        rw [← palloc.1]
        exact ⟨rfl, rfl⟩
      · simp only [scan, Option.bind_eq_bind, Option.bind_some, full, if_false, Option.pure_def,
          Option.some.injEq, Prod.mk.injEq] at palloc
        rw [← palloc.1]
        exact ⟨rfl, rfl⟩

/-- What a page table that was created leaves of memory. -/
structure NewTable (s s' : Machine) (vaddr table phyaddr : UInt32) : Prop where
  cr3 : s'.cr3 = s.cr3
  pde : s'.mem (s.pdeAddr vaddr) = entryOf table
  pte : s'.mem (entryAddr table (tableIdx vaddr)) = entryOf phyaddr
  rest : ∀ idx : UInt32, idx.toNat < 1024 → idx ≠ tableIdx vaddr → s'.mem (entryAddr table idx) = 0
  other : ∀ addr, addr &&& 0xfffff000 ≠ table &&& 0xfffff000 → addr ≠ s.pdeAddr vaddr →
    s'.mem addr = s.mem addr

/-- The directory entry that `page_table_add` writes leaves the self-map as it is. -/
theorem SelfMapped.setPde (selfMapped : s.SelfMapped) (absent : isPresent (s.pde vaddr) = false)
    (value : UInt32) :
    SelfMapped { s with mem := Function.update s.mem (s.pdeAddr vaddr) value } := by
  have apart : entryAddr s.cr3 1023 ≠ s.pdeAddr vaddr := by
    intro same
    have isPde := selfMapped.present
    rw [same] at isPde
    exact Bool.false_ne_true (absent.symm.trans isPde)
  have same := Function.update_of_ne apart value s.mem
  constructor
  · exact (congrArg isPresent same).trans selfMapped.present
  · exact (congrArg (fun entry => entry &&& 0xfffff000) same).trans selfMapped.frame

theorem page_page (addr : UInt32) : addr &&& 0xfffff000 &&& 0xfffff000 = addr &&& 0xfffff000 := by
  rw [UInt32.and_assoc, UInt32.and_self]

/-- `memset` of the page of the window that a new directory entry opens. -/
theorem memset_table (selfMapped : s.SelfMapped) {table : UInt32} (pde : s.pde vaddr = entryOf table)
    (apart : table &&& 0xfffff000 ≠ s.cr3 &&& 0xfffff000) :
    ∃ s', memset 1024 s (ptePtr vaddr &&& 0xfffff000) = some s' ∧
      Cleared s s' (entryOf table) 0 1024 := by
  have idx := sameIdx_of_page (page_page (ptePtr vaddr))
  have aligned : (ptePtr vaddr &&& 0xfffff000).toNat % 4096 = 0 := by
    rw [toNat_page]
    omega
  have entry : s.mem (entryAddr s.cr3 (tableIdx (ptePtr vaddr &&& 0xfffff000))) = entryOf table := by
    rw [idx.2, tableIdx_ptePtr]
    exact pde
  obtain ⟨s', run, cleared⟩ := memset_window aligned (idx.1.trans (dirIdx_ptePtr vaddr))
    (isPresent_entryOf table) 1024 (k := 0) selfMapped entry
    (by rw [entryOf_page]; exact apart) (by omega)
  refine ⟨s', ?_, cleared⟩
  rw [← run]
  exact congrArg (memset 1024 s) (UInt32.add_zero _).symm

/-- A page table without entries, behind a directory entry of its own. -/
structure EmptyTable (s s' : Machine) (vaddr table : UInt32) : Prop where
  cr3 : s'.cr3 = s.cr3
  selfMapped : s'.SelfMapped
  pde : s'.pde vaddr = entryOf table
  zero : ∀ idx : UInt32, idx.toNat < 1024 → s'.mem (entryAddr table idx) = 0
  other : ∀ addr, addr &&& 0xfffff000 ≠ table &&& 0xfffff000 → addr ≠ s.pdeAddr vaddr →
    s'.mem addr = s.mem addr

/-- The directory entry, then `memset`. -/
theorem emptyTable (selfMapped : s.SelfMapped) (absent : isPresent (s.pde vaddr) = false)
    {table : UInt32} (apart : table &&& 0xfffff000 ≠ s.cr3 &&& 0xfffff000) :
    ∃ s₁ s₂, s.write (pdePtr vaddr) (entryOf table) = some s₁ ∧
      memset 1024 s₁ (ptePtr vaddr &&& 0xfffff000) = some s₂ ∧ EmptyTable s s₂ vaddr table := by
  have selfMapped₁ := selfMapped.setPde absent (entryOf table)
  have pde₁ : Machine.pde { s with mem := Function.update s.mem (s.pdeAddr vaddr) (entryOf table) }
      vaddr = entryOf table := by
    rw [Machine.pde]
    exact Function.update_self _ _ _
  obtain ⟨s₂, run, cleared⟩ := memset_table selfMapped₁ pde₁ apart
  have kept : ∀ addr, addr &&& 0xfffff000 ≠ table &&& 0xfffff000 →
      s₂.mem addr = Function.update s.mem (s.pdeAddr vaddr) (entryOf table) addr := by
    intro addr outside
    refine cleared.other addr fun j _ below same => outside ?_
    rw [same, entryAddr_page _ (by rw [toNat_ofNat_idx (by omega)]; omega), entryOf_page]
  have inDir : ∀ idx : UInt32, idx.toNat < 1024 →
      entryAddr s.cr3 idx &&& 0xfffff000 ≠ table &&& 0xfffff000 := by
    intro idx small
    rw [entryAddr_page _ small]
    exact fun same => apart same.symm
  have cr3₂ : s₂.cr3 = s.cr3 := cleared.cr3
  have self₂ := kept (entryAddr s.cr3 1023) (inDir 1023 (by decide))
  refine ⟨_, s₂, ?_, run, cr3₂, ⟨?_, ?_⟩, ?_, fun idx small => ?_, fun addr outside ne => ?_⟩
  · rw [write, walk_pdePtr selfMapped]
    rfl
  · rw [cr3₂, self₂]
    exact selfMapped₁.present
  · rw [cr3₂, self₂]
    exact selfMapped₁.frame
  · rw [Machine.pde, pdeAddr, cr3₂, kept _ (inDir _ (dirIdx_lt vaddr))]
    exact Function.update_self _ _ _
  · have zero := cleared.zero idx.toNat (Nat.zero_le _) (by omega)
    rwa [UInt32.ofNat_toNat, entryAddr_congr (entryOf_page table)] at zero
  · rw [kept addr outside, Function.update_of_ne ne]

theorem pageTableAdd_newTable {s₁ : Machine} {table : UInt32} (selfMapped : s.SelfMapped)
    (absent : isPresent (s.pde vaddr) = false) (palloc : s.palloc = some (s₁, table))
    (apart : table &&& 0xfffff000 ≠ s.cr3 &&& 0xfffff000) (phyaddr : UInt32) :
    ∃ s', s.pageTableAdd vaddr phyaddr = some s' ∧ NewTable s s' vaddr table phyaddr := by
  obtain ⟨mem₁, cr3₁⟩ := palloc_mem palloc
  have pdeAddr₁ : s₁.pdeAddr vaddr = s.pdeAddr vaddr := by rw [pdeAddr, cr3₁, pdeAddr]
  have selfMapped₁ : s₁.SelfMapped := by
    constructor
    · rw [mem₁, cr3₁]
      exact selfMapped.present
    · rw [mem₁, cr3₁]
      exact selfMapped.frame
  have absent₁ : isPresent (s₁.pde vaddr) = false := by
    rw [Machine.pde, mem₁, pdeAddr₁]
    exact absent
  obtain ⟨s₂, s₃, written, cleared, empty⟩ := emptyTable selfMapped₁ absent₁ (cr3₁.symm ▸ apart)
  have isPde : isPresent (s₃.pde vaddr) = true := by
    rw [empty.pde]
    exact isPresent_entryOf table
  have pteAddr₃ : s₃.pteAddr vaddr = entryAddr table (tableIdx vaddr) := by
    rw [Machine.pteAddr, empty.pde, entryAddr_congr (entryOf_page table)]
  have isFree : isPresent (s₃.pte vaddr) = false := by
    rw [Machine.pte, pteAddr₃, empty.zero _ (tableIdx_lt vaddr)]
    rfl
  refine ⟨{ s₃ with mem := Function.update s₃.mem (s₃.pteAddr vaddr) (entryOf phyaddr) }, ?_, ?_⟩
  · simp [pageTableAdd, read_pdePtr selfMapped, absent, palloc, written, cleared,
      read_ptePtr empty.selfMapped isPde, isFree, write_ptePtr empty.selfMapped isPde]
  have pdeAddr₃ : s₃.pdeAddr vaddr = s.pdeAddr vaddr := by rw [pdeAddr, empty.cr3, cr3₁, pdeAddr]
  rw [pteAddr₃]
  refine ⟨empty.cr3.trans cr3₁, ?_, Function.update_self _ _ _, fun idx small ne => ?_,
    fun addr outside ne => ?_⟩
  · have inDir : s.pdeAddr vaddr ≠ entryAddr table (tableIdx vaddr) :=
      entryAddr_ne_dir apart (dirIdx_lt vaddr) (tableIdx_lt vaddr)
    dsimp only
    rw [Function.update_of_ne inDir, ← pdeAddr₃]
    exact empty.pde
  · have apartIdx : entryAddr table idx ≠ entryAddr table (tableIdx vaddr) := fun same =>
      ne (entryAddr_inj small (tableIdx_lt vaddr) same).2
    dsimp only
    rw [Function.update_of_ne apartIdx]
    exact empty.zero idx small
  · have notEntry : addr ≠ entryAddr table (tableIdx vaddr) := by
      intro same
      rw [same, entryAddr_page table (tableIdx_lt vaddr)] at outside
      exact outside rfl
    dsimp only
    rw [Function.update_of_ne notEntry, empty.other addr outside (pdeAddr₁.symm ▸ ne), mem₁]

/-! ### The walks -/

/-- What `pde_ptr`, `pte_ptr` and `addr_v2p` lead to. -/
structure PointersWalk (s : Machine) (vaddr : UInt32) : Prop where
  pde : s.read (pdePtr vaddr) = some (s.pde vaddr)
  pte : s.read (ptePtr vaddr) = some (s.pte vaddr)
  addrV2p : s.addrV2p vaddr = some ((s.pte vaddr &&& 0xfffff000) + (vaddr &&& 0xfff))
  mapped : isPresent (s.pte vaddr) = true → s.addrV2p vaddr = s.walk vaddr

theorem pointersWalk (selfMapped : s.SelfMapped) (isPde : isPresent (s.pde vaddr) = true) :
    s.PointersWalk vaddr := by
  have value : s.addrV2p vaddr = some ((s.pte vaddr &&& 0xfffff000) + (vaddr &&& 0xfff)) := by
    rw [addrV2p, read_ptePtr selfMapped isPde]
    rfl
  refine ⟨read_pdePtr selfMapped vaddr, read_ptePtr selfMapped isPde, value, fun isPte => ?_⟩
  rw [value, walk, if_pos ⟨isPde, isPte⟩, page_or_offset]

/-- The walks after an entry was written to a page table that was there. -/
structure EntryAdded (s s' : Machine) (vaddr phyaddr : UInt32) : Prop where
  inside : ∀ w, w &&& 0xfffff000 = vaddr &&& 0xfffff000 →
    s'.walk w = some (phyaddr + (w &&& 0xfff))
  -- the addresses with the same page-table entry, of whatever page
  shared : ∀ w, isPresent (s.pde w) = true → s.pteAddr w = s.pteAddr vaddr →
    s'.walk w = some (phyaddr + (w &&& 0xfff))
  outside : ∀ w, s.pdeAddr w ≠ s.pteAddr vaddr →
    (isPresent (s.pde w) = true → s.pteAddr w ≠ s.pteAddr vaddr) → s'.walk w = s.walk w

theorem entryAdded {phyaddr : UInt32} (aligned : phyaddr &&& 0xfff = 0)
    (isPde : isPresent (s.pde vaddr) = true) (absent : isPresent (s.pte vaddr) = false)
    (cr3 : s'.cr3 = s.cr3) (mem : s'.mem = Function.update s.mem (s.pteAddr vaddr) (entryOf phyaddr)) :
    EntryAdded s s' vaddr phyaddr := by
  have shared : ∀ w, isPresent (s.pde w) = true → s.pteAddr w = s.pteAddr vaddr →
      s'.walk w = some (phyaddr + (w &&& 0xfff)) := by
    intro w isPdeW same
    have apart : s.pdeAddr w ≠ s.pteAddr vaddr := by
      intro sameWord
      rw [pde, sameWord] at isPdeW
      exact Bool.false_ne_true (absent.symm.trans isPdeW)
    have dirEntry : s'.pde w = s.pde w := by
      rw [pde, pdeAddr, cr3, ← pdeAddr, mem, Function.update_of_ne apart, ← pde]
    refine walk_of_entryOf (by rw [dirEntry]; exact isPdeW) ?_ aligned
    rw [pte, pteAddr, dirEntry, ← pteAddr, same, mem, Function.update_self]
  refine ⟨fun w page => ?_, shared, fun w dirKept tableKept => ?_⟩
  · obtain ⟨dir, table⟩ := sameIdx_of_page page
    have dirEntry : s.pde w = s.pde vaddr := by rw [pde, pdeAddr, dir, ← pdeAddr, ← pde]
    have sameEntry : s.pteAddr w = s.pteAddr vaddr := by
      rw [pteAddr, dirEntry, table, ← pteAddr]
    exact shared w (by rw [dirEntry]; exact isPde) sameEntry
  · refine walk_congr cr3 ?_ fun isPdeW => ?_
    · rw [mem, Function.update_of_ne dirKept]
    · rw [mem, Function.update_of_ne (tableKept isPdeW)]

/-- The walks after a page table was created. -/
structure TableAdded (s s' : Machine) (vaddr table phyaddr : UInt32) : Prop where
  inside : ∀ w, w &&& 0xfffff000 = vaddr &&& 0xfffff000 →
    s'.walk w = some (phyaddr + (w &&& 0xfff))
  -- the directory read as a page table
  window : ∀ w, isPresent (s.pde w) = true → s.pteAddr w = s.pdeAddr vaddr →
    s'.walk w = some ((table &&& 0xfffff000) + (w &&& 0xfff))
  outside : ∀ w, w &&& 0xfffff000 ≠ vaddr &&& 0xfffff000 →
    (isPresent (s.pde w) = true → s.pteAddr w ≠ s.pdeAddr vaddr ∧
      s.pteAddr w &&& 0xfffff000 ≠ table &&& 0xfffff000) → s'.walk w = s.walk w

theorem tableAdded {table phyaddr : UInt32} (newTable : NewTable s s' vaddr table phyaddr)
    (aligned : phyaddr &&& 0xfff = 0) (absent : isPresent (s.pde vaddr) = false)
    (apart : table &&& 0xfffff000 ≠ s.cr3 &&& 0xfffff000) :
    TableAdded s s' vaddr table phyaddr := by
  have dirOf : ∀ w, s'.pde w = s'.mem (s.pdeAddr w) := by
    intro w
    rw [pde, pdeAddr, newTable.cr3, ← pdeAddr]
  have dirKept : ∀ w, s.pdeAddr w ≠ s.pdeAddr vaddr → s'.mem (s.pdeAddr w) = s.mem (s.pdeAddr w) := by
    intro w ne
    refine newTable.other _ ?_ ne
    rw [pdeAddr, entryAddr_page _ (dirIdx_lt w)]
    exact fun same => apart same.symm
  have sameDir : ∀ w, dirIdx w = dirIdx vaddr → s'.pde w = entryOf table := by
    intro w dir
    rw [dirOf, pdeAddr, dir, ← pdeAddr, newTable.pde]
  refine ⟨fun w page => ?_, fun w isPdeW same => ?_, fun w page kept => ?_⟩
  · obtain ⟨dir, idx⟩ := sameIdx_of_page page
    refine walk_of_entryOf (by rw [sameDir w dir]; exact isPresent_entryOf table) ?_ aligned
    rw [pte, pteAddr, sameDir w dir, entryAddr_congr (entryOf_page table), idx, newTable.pte]
  · have ne : s.pdeAddr w ≠ s.pdeAddr vaddr := by
      intro sameWord
      rw [pde, sameWord] at isPdeW
      exact Bool.false_ne_true (absent.symm.trans isPdeW)
    have dirEntry : s'.pde w = s.pde w := by rw [dirOf, dirKept w ne, ← pde]
    have tableEntry : s'.pte w = entryOf table := by
      rw [pte, pteAddr, dirEntry, ← pteAddr, same, newTable.pde]
    rw [walk, dirEntry, tableEntry, if_pos ⟨isPdeW, isPresent_entryOf table⟩, page_or_offset,
      entryOf_page]
  · by_cases dir : dirIdx w = dirIdx vaddr
    · -- the other entries of the new table are clear
      have tableEntry : s'.pte w = 0 := by
        rw [pte, pteAddr, sameDir w dir, entryAddr_congr (entryOf_page table)]
        exact newTable.rest _ (tableIdx_lt w) fun idx => page (page_of_sameIdx dir idx)
      have unmapped : isPresent (s.pde w) = false := by
        rw [pde, pdeAddr, dir, ← pdeAddr]
        exact absent
      rw [walk_none (by rw [tableEntry]; rfl), walk, if_neg]
      rw [unmapped]
      exact fun both => absurd both.1 Bool.false_ne_true
    · have ne : s.pdeAddr w ≠ s.pdeAddr vaddr := fun same =>
        dir (entryAddr_inj (dirIdx_lt w) (dirIdx_lt vaddr) same).2
      exact walk_congr newTable.cr3 (dirKept w ne) fun isPdeW =>
        newTable.other _ (kept isPdeW).2 (kept isPdeW).1

/-- The functions reach what the processor's walk reads, for every directory that maps itself,
every address and all table contents; `page_table_add` changes the walks of the page, of the
addresses that share its page-table entry and, with a new page table, of the page of the
window where that table appears. -/
theorem page_tables_walk (selfMapped : s.SelfMapped) :
    (∀ vaddr, isPresent (s.pde vaddr) = true → s.PointersWalk vaddr) ∧
    (∀ vaddr phyaddr, phyaddr &&& 0xfff = 0 → isPresent (s.pde vaddr) = true →
      isPresent (s.pte vaddr) = false →
      ∃ s', s.pageTableAdd vaddr phyaddr = some s' ∧ EntryAdded s s' vaddr phyaddr) ∧
    (∀ vaddr phyaddr s₁ table, phyaddr &&& 0xfff = 0 → isPresent (s.pde vaddr) = false →
      s.palloc = some (s₁, table) → table &&& 0xfffff000 ≠ s.cr3 &&& 0xfffff000 →
      ∃ s', s.pageTableAdd vaddr phyaddr = some s' ∧ TableAdded s s' vaddr table phyaddr) := by
  refine ⟨fun vaddr isPde => pointersWalk selfMapped isPde,
    fun vaddr phyaddr aligned isPde absent => ?_,
    fun vaddr phyaddr s₁ table aligned absent palloc apart => ?_⟩
  · exact ⟨_, pageTableAdd_table selfMapped isPde absent phyaddr,
      entryAdded aligned isPde absent rfl rfl⟩
  · obtain ⟨s', run, newTable⟩ := pageTableAdd_newTable selfMapped absent palloc apart phyaddr
    exact ⟨s', run, tableAdded newTable aligned absent apart⟩

/-! ### The page layer -/

/-- Memory by frame and word. -/
def frames (s : Machine) : Frames := fun frame idx =>
  (s.mem (UInt32.ofNat (frame * 4096 + idx * 4))).toNat

theorem frames_entryAddr (s : Machine) {base idx : UInt32} (small : idx.toNat < 1024) :
    s.frames (base.toNat / 4096) idx.toNat = (s.mem (entryAddr base idx)).toNat := by
  rw [frames, ← toNat_entryAddr base small, UInt32.ofNat_toNat]

theorem present_toNat (entry : UInt32) : present entry.toNat = isPresent entry := by
  rw [Bool.eq_iff_iff, isPresent_iff, present, decide_eq_true_eq]

/-- The translation of the page layer is this walk. -/
theorem walk_eq_translatePage (s : Machine) (vaddr : UInt32) :
    s.walk vaddr = (translatePage s.frames (s.cr3.toNat / 4096) (vaddr.toNat / 4096)).map
      fun frame => UInt32.ofNat (frame * 4096 + vaddr.toNat % 4096) := by
  have dirEntry : s.frames (s.cr3.toNat / 4096) (vaddr.toNat / 4096 / 1024) = (s.pde vaddr).toNat := by
    rw [pde, pdeAddr, ← frames_entryAddr s (dirIdx_lt vaddr), toNat_dirIdx, Nat.div_div_eq_div_mul]
    rfl
  have tableEntry : s.frames (entryFrame (s.pde vaddr).toNat) (vaddr.toNat / 4096 % 1024) =
      (s.pte vaddr).toNat := by
    rw [pte, pteAddr, ← frames_entryAddr s (tableIdx_lt vaddr), toNat_tableIdx]
    rfl
  unfold translatePage walk
  simp only [dirEntry, tableEntry, present_toNat]
  by_cases isPde : isPresent (s.pde vaddr) = true
  · by_cases isPte : isPresent (s.pte vaddr) = true
    · rw [if_pos ⟨isPde, isPte⟩, if_pos isPde, if_pos isPte, page_or_offset, Option.map_some]
      refine congrArg some (UInt32.toNat_inj.mp ?_)
      have small := (s.pte vaddr).toNat_lt
      have bounded : (s.pte vaddr).toNat / 4096 * 4096 + vaddr.toNat % 4096 < 2 ^ 32 := by omega
      rw [UInt32.toNat_add, toNat_page, toNat_offset, Nat.mod_eq_of_lt bounded, entryFrame,
        UInt32.toNat_ofNat_of_lt' bounded]
    · rw [if_neg fun both => isPte both.2, if_pos isPde, if_neg isPte, Option.map_none]
  · rw [if_neg fun both => isPde both.1, if_neg isPde, Option.map_none]

/-- The pointers are those of the page layer. -/
theorem pointers_eq (vaddr : UInt32) :
    (ptePtr vaddr).toNat = Mmu.ptePtr vaddr.toNat ∧ (pdePtr vaddr).toNat = Mmu.pdePtr vaddr.toNat := by
  constructor
  · rw [toNat_ptePtr, Mmu.ptePtr, Memory.pteIdx, Memory.pdeIdx]
    rfl
  · rw [toNat_pdePtr, Mmu.pdePtr, Memory.pdeIdx]

/-! ### After `setup_page` -/

/-- The loader's directory, and a machine with 32 megabytes. -/
def loaderMachine : Machine where
  mem := fun addr => UInt32.ofNat (setupPage (fun _ _ => 0) (addr.toNat / 4096) (addr.toNat % 4096 / 4))
  cr3 := 0x100000
  kernelPool := ⟨⟨480, fun _ => 0⟩, 0x200000, 0xf00000⟩

theorem loaderMachine_selfMapped : loaderMachine.SelfMapped := by
  constructor <;> decide +kernel

/-- The first page of the kernel's heap. -/
theorem loader_first_page :
    ∃ s', loaderMachine.pageTableAdd 0xc0100000 0x200000 = some s' ∧
      s'.walk 0xc0100abc = some 0x200abc ∧ s'.walk 0xc0101000 = loaderMachine.walk 0xc0101000 := by
  obtain ⟨s', run, added⟩ := (page_tables_walk loaderMachine_selfMapped).2.1 0xc0100000 0x200000
    (by decide) (by decide +kernel) (by decide +kernel)
  refine ⟨s', run, added.inside _ (by decide), added.outside _ (by decide +kernel) fun _ => ?_⟩
  decide +kernel

/-- `page_table_add` on an unmapped page, with a page table that has to be created or not,
leaves every other page as it is. -/
def UnchangedElsewhere (isNew : Bool) : Prop :=
  ∀ (s : Machine) (vaddr phyaddr : UInt32), s.SelfMapped → vaddr < 0xffc00000 →
    phyaddr &&& 0xfff = 0 → s.walk vaddr = none → isPresent (s.pde vaddr) = !isNew →
    ∀ s', s.pageTableAdd vaddr phyaddr = some s' →
      ∀ w, w &&& 0xfffff000 ≠ vaddr &&& 0xfffff000 → s'.walk w = s.walk w

/-- Mapping `0xc0100000` also maps `0x00100000`, since entries 0 and 768 of the loader's
directory lead to one page table. A page table created for `0x00400000` appears at
`0xffc01000`. -/
theorem page_table_add_elsewhere : ¬ UnchangedElsewhere false ∧ ¬ UnchangedElsewhere true := by
  constructor
  · intro unchanged
    have elsewhere : ((loaderMachine.pageTableAdd 0xc0100000 0x200000).map fun s' =>
        s'.walk 0x00100000) = some (some 0x200000) := by
      decide +kernel
    obtain ⟨s', run, walked⟩ := Option.map_eq_some_iff.mp elsewhere
    have same := unchanged loaderMachine 0xc0100000 0x200000 loaderMachine_selfMapped
      (by decide) (by decide) (by decide +kernel) (by decide +kernel) s' run 0x00100000 (by decide)
    rw [walked] at same
    exact absurd same (by decide +kernel)
  · intro unchanged
    have table : (loaderMachine.palloc.map Prod.snd) = some 0x200000 := by
      decide +kernel
    obtain ⟨⟨s₁, frame⟩, palloc, isFrame⟩ := Option.map_eq_some_iff.mp table
    obtain rfl : frame = 0x200000 := isFrame
    have absent : isPresent (loaderMachine.pde 0x00400000) = false := by decide +kernel
    have apart : (0x200000 : UInt32) &&& 0xfffff000 ≠ loaderMachine.cr3 &&& 0xfffff000 := by
      decide
    obtain ⟨s', run, newTable⟩ :=
      pageTableAdd_newTable loaderMachine_selfMapped absent palloc apart 0x300000
    have walked := (tableAdded newTable (by decide) absent apart).window 0xffc01000
      (by decide +kernel) (by decide +kernel)
    have same := unchanged loaderMachine 0x00400000 0x300000 loaderMachine_selfMapped
      (by decide) (by decide) (by decide +kernel) absent s' run 0xffc01000 (by decide)
    rw [walked] at same
    exact absurd same (by decide +kernel)

end Machine

end ZyOs.Memory.PageWalk
