import ZyOs.Lib.Words
import ZyOs.Memory.PageWalk

/-!
Contract: `setup_page` of the loader, which writes the page directory and the first page
table, and what the processor makes of them.

Owns:
- the loops of `setup_page` over memory, byte by byte and entry by entry;
- the words that they leave, whatever was in memory before;
- the walk of every virtual address once paging is on.

Does not own: the tables behind the first MiB, which `setup_page` links but does not clear.
-/

namespace ZyOs.Boot

open ZyOs.Lib ZyOs.Memory.PageWalk

/-! ### `setup_page` -/

def pageDirTablePos : Word := 0x100000

/-- `PG_US_U | PG_RW_W | PG_P`. -/
def pgAttributes : Word := 4 ||| 2 ||| 1

/-- `.clear_page_dir`, with `ecx` bytes left. -/
def clearPageDir : Nat → Memory → (esi : Word) → Memory
  | 0, m, _ => m
  | ecx + 1, m, esi => clearPageDir ecx (Function.update m (pageDirTablePos + esi) 0) (esi + 1)

/-- `.create_pde`. -/
def createPde (m : Memory) : Memory :=
  let eax := (pageDirTablePos + 0x1000) ||| pgAttributes
  let m := store m (pageDirTablePos + 0x0) eax
  let m := store m (pageDirTablePos + 0xc00) eax
  store m (pageDirTablePos + 4092) (eax - 0x1000)

/-- The loops of `.create_pte` and `.create_kernel_pde`, with `ecx` entries left: they go from
one page to the next. -/
def createEntries (ebx : Word) : Nat → Memory → (esi entry : Word) → Memory
  | 0, m, _, _ => m
  | ecx + 1, m, esi, entry => createEntries ebx ecx (store m (ebx + esi * 4) entry) (esi + 1) (entry + 0x1000)

/-- `.create_pte`. -/
def createPte (m : Memory) : Memory := createEntries (pageDirTablePos + 0x1000) 256 m 0 pgAttributes

/-- `.create_kernel_pde`. -/
def createKernelPde (m : Memory) : Memory :=
  createEntries pageDirTablePos 254 m 769 ((pageDirTablePos + 0x2000) ||| pgAttributes)

def setupPage (m : Memory) : Memory := createKernelPde (createPte (createPde (clearPageDir 4096 m 0)))

/-! ### What the loops leave -/

variable {m : Memory} {x esi entry ebx : Word} {n k : Nat}

theorem clearPageDir_other (outside : ¬ Inside (pageDirTablePos + esi) n x) (few : n ≤ 4096) :
    clearPageDir n m esi x = m x := by
  induction n generalizing m esi with
  | zero => rfl
  | succ n inductionHypothesis =>
      unfold Inside at outside inductionHypothesis
      have ne : x ≠ pageDirTablePos + esi := by
        intro same
        rw [same] at outside
        bv_omega
      rw [clearPageDir, inductionHypothesis (by bv_omega) (by omega), Function.update_of_ne ne]

theorem clearPageDir_zero (inside : Inside (pageDirTablePos + esi) n x) (few : n ≤ 4096) :
    clearPageDir n m esi x = 0 := by
  induction n generalizing m esi with
  | zero => exact absurd inside (Nat.not_lt_zero _)
  | succ n inductionHypothesis =>
      unfold Inside at inside inductionHypothesis
      rw [clearPageDir]
      by_cases isFirst : x = pageDirTablePos + esi
      · rw [clearPageDir_other _ (by omega), isFirst, Function.update_self]
        rw [isFirst]
        unfold Inside
        bv_omega
      · exact inductionHypothesis (by bv_omega) (by omega)

theorem createEntries_other (outside : ¬ Inside (ebx + esi * 4) (4 * n) x) (few : n ≤ 1024) :
    createEntries ebx n m esi entry x = m x := by
  induction n generalizing m esi entry with
  | zero => rfl
  | succ n inductionHypothesis =>
      unfold Inside at outside inductionHypothesis
      rw [createEntries, inductionHypothesis (by bv_omega) (by omega), store_apart (by omega)]

/-- Entry `k` of the loop. -/
theorem createEntries_load (small : k < n) (few : n ≤ 1024) :
    load (createEntries ebx n m esi entry) (ebx + (esi + BitVec.ofNat 32 k) * 4) =
      entry + BitVec.ofNat 32 (4096 * k) := by
  induction n generalizing m esi entry k with
  | zero => exact absurd small (Nat.not_lt_zero k)
  | succ n inductionHypothesis =>
      rw [createEntries]
      cases k with
      | zero =>
          have isFirst : ebx + (esi + BitVec.ofNat 32 0) * 4 = ebx + esi * 4 := by bv_omega
          rw [isFirst, load_congr fun x inside => createEntries_other _ (by omega), load_store]
          · simp
          · intro x inside
            unfold Inside at inside ⊢
            bv_omega
      | succ k =>
          have isNext : esi + BitVec.ofNat 32 (k + 1) = esi + 1 + BitVec.ofNat 32 k := by bv_omega
          rw [isNext, inductionHypothesis (by omega) (by omega)]
          bv_omega

/-! ### The directory and the tables -/

/-- Word `i` of the directory. -/
def dirEntry (i : Nat) : Nat :=
  if i = 0 ∨ i = 768 then 0x101007
  else if i = 1023 then 0x100007
  else if 769 ≤ i ∧ i < 1023 then 0x102007 + 4096 * (i - 769)
  else 0

/-- Nothing behind the directory and the first entries of the table. -/
theorem setupPage_other (outside : ¬ Inside pageDirTablePos 0x1400 x) : setupPage m x = m x := by
  unfold Inside pageDirTablePos at outside
  unfold setupPage createKernelPde createPte createPde pageDirTablePos
  rw [createEntries_other (by unfold Inside; bv_omega) (by decide),
    createEntries_other (by unfold Inside; bv_omega) (by decide)]
  rw [store_apart (by bv_omega), store_apart (by bv_omega), store_apart (by bv_omega)]
  refine clearPageDir_other ?_ (Nat.le_refl _)
  unfold Inside pageDirTablePos
  bv_omega

theorem load_table {i : Nat} (small : i < 256) :
    load (setupPage m) (0x101000 + BitVec.ofNat 32 (4 * i)) = BitVec.ofNat 32 (4096 * i + 7) := by
  have isEntry : (0x101000 : Word) + BitVec.ofNat 32 (4 * i) =
      pageDirTablePos + 0x1000 + (0 + BitVec.ofNat 32 i) * 4 := by
    unfold pageDirTablePos
    bv_omega
  have isWord : (7 : Word) + BitVec.ofNat 32 (4096 * i) = BitVec.ofNat 32 (4096 * i + 7) := by bv_omega
  unfold setupPage createKernelPde
  rw [load_congr fun x inside => createEntries_other _ (by decide), isEntry, createPte,
    createEntries_load small (by decide)]
  · exact isWord
  · intro x inside
    unfold Inside at inside ⊢
    unfold pageDirTablePos
    bv_omega

theorem load_zero {m : Memory} {a : Word} (zero : ∀ x, Inside a 4 x → m x = 0) : load m a = 0 :=
  (load_congr (m := fun _ => 0) zero).trans (show (0#8 ++ 0#8 ++ 0#8 ++ 0#8 : Word) = 0 by decide)

/-- The words of the directory that `.create_kernel_pde` leaves alone. -/
theorem load_createPde {i : Nat} (small : i < 1024) (notKernel : ¬ (769 ≤ i ∧ i < 1023)) :
    load (createPde (clearPageDir 4096 m 0)) (pageDirTablePos + BitVec.ofNat 32 (4 * i)) =
      BitVec.ofNat 32 (dirEntry i) := by
  unfold createPde dirEntry pageDirTablePos
  by_cases isFirst : i = 0
  · subst isFirst
    rw [load_store_apart (by decide) (by decide), load_store_apart (by decide) (by decide)]
    exact load_store _ _ _
  · by_cases isHigh : i = 768
    · subst isHigh
      rw [load_store_apart (by decide) (by decide)]
      exact load_store _ _ _
    · by_cases isLast : i = 1023
      · subst isLast
        exact load_store _ _ _
      · rw [if_neg (by omega), if_neg isLast, if_neg notKernel, load_store_apart (by bv_omega) (by bv_omega),
          load_store_apart (by bv_omega) (by bv_omega), load_store_apart (by bv_omega) (by bv_omega)]
        refine load_zero fun x inside => clearPageDir_zero ?_ (Nat.le_refl _)
        unfold Inside pageDirTablePos at *
        bv_omega

theorem load_dir {i : Nat} (small : i < 1024) :
    load (setupPage m) (pageDirTablePos + BitVec.ofNat 32 (4 * i)) = BitVec.ofNat 32 (dirEntry i) := by
  by_cases isKernel : 769 ≤ i ∧ i < 1023
  · obtain ⟨k, rfl⟩ := Nat.exists_eq_add_of_le isKernel.1
    have few : k < 254 := by omega
    have isEntry : pageDirTablePos + BitVec.ofNat 32 (4 * (769 + k)) =
        pageDirTablePos + (769 + BitVec.ofNat 32 k) * 4 := by
      bv_omega
    have isWord : (pageDirTablePos + 0x2000 ||| pgAttributes) + BitVec.ofNat 32 (4096 * k) =
        BitVec.ofNat 32 (0x102007 + 4096 * (769 + k - 769)) := by
      have isFirst : pageDirTablePos + 0x2000 ||| pgAttributes = 0x102007 := by decide
      rw [isFirst]
      bv_omega
    rw [setupPage, createKernelPde, isEntry, createEntries_load few (by decide), dirEntry, if_neg (by omega),
      if_neg (by omega), if_pos isKernel]
    exact isWord
  · rw [← load_createPde small isKernel]
    unfold setupPage createKernelPde createPte
    refine load_congr fun x inside => ?_
    unfold Inside at inside
    unfold pageDirTablePos at *
    rw [createEntries_other (by unfold Inside; bv_omega) (by decide),
      createEntries_other (by unfold Inside; bv_omega) (by decide)]

/-! ### The walk -/

/-- The processor that has paging on; there is no pool yet. -/
def paged (m : Memory) : Machine := ⟨fun a => ⟨load m a.toBitVec⟩, 0x100000, ⟨⟨0, fun _ => 0⟩, 0, 0⟩⟩

/-- Word `idx` of the table that entry `dir` of the directory points to. The tables behind the
first MiB are as they were. -/
def tableEntry (m : Memory) (dir idx : Nat) : Nat :=
  if dir = 0 ∨ dir = 768 then
    if idx < 256 then 4096 * idx + 7 else (load m (0x101000 + BitVec.ofNat 32 (4 * idx))).toNat
  else if dir = 1023 then dirEntry idx
  else (load m (0x102000 + BitVec.ofNat 32 (4096 * (dir - 769) + 4 * idx))).toNat

theorem dirEntry_lt (i : Nat) : dirEntry i < 2 ^ 32 := by
  unfold dirEntry
  split_ifs <;> omega

theorem tableEntry_lt {dir idx : Nat} (small : idx < 1024) : tableEntry m dir idx < 2 ^ 32 := by
  unfold tableEntry
  split_ifs
  · omega
  · exact BitVec.isLt _
  · exact dirEntry_lt idx
  · exact BitVec.isLt _

theorem paged_mem (m : Memory) (a : UInt32) : ((paged m).mem a).toNat = (load m (BitVec.ofNat 32 a.toNat)).toNat := by
  have isAddr : BitVec.ofNat 32 a.toNat = a.toBitVec := by
    apply BitVec.eq_of_toNat_eq
    rw [BitVec.toNat_ofNat, Nat.mod_eq_of_lt a.toNat_lt]
    rfl
  rw [isAddr]
  rfl

theorem toNat_pde (m : Memory) (vaddr : UInt32) :
    ((paged m).pde vaddr).toNat = (load m (pageDirTablePos + BitVec.ofNat 32 (4 * (vaddr.toNat / 2 ^ 22)))).toNat := by
  have small := dirIdx_lt vaddr
  have isAddr := toNat_entryAddr (0x100000 : UInt32) small
  rw [toNat_dirIdx] at small isAddr
  have isWord : BitVec.ofNat 32 (entryAddr 0x100000 (dirIdx vaddr)).toNat =
      pageDirTablePos + BitVec.ofNat 32 (4 * (vaddr.toNat / 2 ^ 22)) := by
    rw [isAddr]
    unfold pageDirTablePos
    simp only [UInt32.reduceToNat]
    bv_omega
  rw [Machine.pde, Machine.pdeAddr, ← isWord]
  exact paged_mem m _

theorem toNat_pte (m : Memory) (vaddr : UInt32) :
    ((paged m).pte vaddr).toNat =
      (load m (BitVec.ofNat 32 (((paged m).pde vaddr).toNat / 4096 * 4096 + vaddr.toNat / 4096 % 1024 * 4))).toNat := by
  have isAddr := toNat_entryAddr ((paged m).pde vaddr) (tableIdx_lt vaddr)
  rw [toNat_tableIdx] at isAddr
  rw [← isAddr]
  exact paged_mem m _

/-- A walk by the numbers in the two entries. -/
theorem walk_paged {m : Memory} {vaddr : UInt32} {pde pte : Nat} (isPde : ((paged m).pde vaddr).toNat = pde)
    (isPte : pde % 2 = 1 → ((paged m).pte vaddr).toNat = pte) :
    (paged m).walk vaddr =
      if pde % 2 = 1 ∧ pte % 2 = 1 then some (UInt32.ofNat (pte / 4096 * 4096 + vaddr.toNat % 4096)) else none := by
  have isPresentPde : isPresent ((paged m).pde vaddr) = true ↔ pde % 2 = 1 := by
    rw [isPresent_iff, isPde]
  unfold Machine.walk
  by_cases present : pde % 2 = 1
  · have isPte := isPte present
    have isPresentPte : isPresent ((paged m).pte vaddr) = true ↔ pte % 2 = 1 := by
      rw [isPresent_iff, isPte]
    refine if_congr (and_congr isPresentPde isPresentPte) (congrArg some ?_) rfl
    apply UInt32.toNat_inj.mp
    have bound := ((paged m).pte vaddr).toNat_lt
    rw [isPte] at bound
    rw [UInt32.toNat_or, toNat_page, toNat_offset, or_low _ (show 2 ^ 12 = 4096 from rfl) (Nat.mod_lt _ (by decide)),
      isPte, UInt32.toNat_ofNat_of_lt']
    show _ < 2 ^ 32
    omega
  · rw [if_neg fun both => present (isPresentPde.mp both.1), if_neg fun both => present both.1]

/-- The table that the directory points to. -/
theorem load_tableEntry {dir idx : Nat} (present : dirEntry dir % 2 = 1) (dirSmall : dir < 1024) (small : idx < 1024) :
    load (setupPage m) (BitVec.ofNat 32 (dirEntry dir / 4096 * 4096 + idx * 4)) =
      BitVec.ofNat 32 (tableEntry m dir idx) := by
  unfold tableEntry
  by_cases isLow : dir = 0 ∨ dir = 768
  · have isTable : dirEntry dir / 4096 * 4096 = 0x101000 := by
      rw [dirEntry, if_pos isLow]
    have isAddr : BitVec.ofNat 32 (0x101000 + idx * 4) = (0x101000 : Word) + BitVec.ofNat 32 (4 * idx) := by bv_omega
    rw [isTable, if_pos isLow, isAddr]
    split
    · rename_i isFirst
      exact load_table isFirst
    · rw [BitVec.ofNat_toNat, BitVec.setWidth_eq]
      refine load_congr fun x inside => setupPage_other ?_
      unfold Inside pageDirTablePos at *
      bv_omega
  · rw [if_neg isLow]
    by_cases isSelf : dir = 1023
    · have isTable : dirEntry dir / 4096 * 4096 = 0x100000 := by
        rw [dirEntry, if_neg isLow, if_pos isSelf]
      have isAddr : BitVec.ofNat 32 (0x100000 + idx * 4) = pageDirTablePos + BitVec.ofNat 32 (4 * idx) := by
        unfold pageDirTablePos
        bv_omega
      rw [isTable, if_pos isSelf, isAddr]
      exact load_dir small
    · have isKernel : 769 ≤ dir ∧ dir < 1023 := by
        by_contra notKernel
        rw [dirEntry, if_neg isLow, if_neg isSelf, if_neg notKernel] at present
        cases present
      have isTable : dirEntry dir / 4096 * 4096 = 0x102000 + 4096 * (dir - 769) := by
        rw [dirEntry, if_neg isLow, if_neg isSelf, if_pos isKernel]
        omega
      have isAddr : BitVec.ofNat 32 (0x102000 + 4096 * (dir - 769) + idx * 4) =
          (0x102000 : Word) + BitVec.ofNat 32 (4096 * (dir - 769) + 4 * idx) := by
        bv_omega
      rw [isTable, if_neg isSelf, isAddr, BitVec.ofNat_toNat, BitVec.setWidth_eq]
      refine load_congr fun x inside => setupPage_other ?_
      unfold Inside pageDirTablePos at *
      bv_omega

/-- Where each virtual address goes behind `setup_page`, whatever was in memory. -/
theorem setup_page_walks (m : Memory) (vaddr : UInt32) :
    (paged (setupPage m)).walk vaddr =
      if dirEntry (vaddr.toNat / 2 ^ 22) % 2 = 1 ∧
          tableEntry m (vaddr.toNat / 2 ^ 22) (vaddr.toNat / 4096 % 1024) % 2 = 1 then
        some (UInt32.ofNat
          (tableEntry m (vaddr.toNat / 2 ^ 22) (vaddr.toNat / 4096 % 1024) / 4096 * 4096 + vaddr.toNat % 4096))
      else none := by
  have bound := vaddr.toNat_lt
  have dirSmall : vaddr.toNat / 2 ^ 22 < 1024 := by omega
  have isPde : ((paged (setupPage m)).pde vaddr).toNat = dirEntry (vaddr.toNat / 2 ^ 22) := by
    rw [toNat_pde, load_dir dirSmall, BitVec.toNat_ofNat, Nat.mod_eq_of_lt (dirEntry_lt _)]
  refine walk_paged isPde fun present => ?_
  have small : vaddr.toNat / 4096 % 1024 < 1024 := Nat.mod_lt _ (by decide)
  rw [toNat_pte, isPde, load_tableEntry present dirSmall small, BitVec.toNat_ofNat,
    Nat.mod_eq_of_lt (tableEntry_lt small)]

/-- Entry 1023 leads back to the directory, for `pde_ptr` and `pte_ptr`. -/
theorem setup_page_selfMapped (m : Memory) : (paged (setupPage m)).SelfMapped := by
  have isAddr : BitVec.ofNat 32 (entryAddr 0x100000 1023).toNat = pageDirTablePos + BitVec.ofNat 32 (4 * 1023) := by
    decide
  have isWord : (paged (setupPage m)).mem (entryAddr 0x100000 1023) = 0x100007 := by
    apply UInt32.toNat_inj.mp
    rw [paged_mem, isAddr, load_dir (by decide)]
    decide
  refine ⟨?_, ?_⟩
  · rw [show (paged (setupPage m)).cr3 = 0x100000 from rfl, isWord]
    decide
  · rw [show (paged (setupPage m)).cr3 = 0x100000 from rfl, isWord]
    decide

end ZyOs.Boot
