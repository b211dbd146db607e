import Mathlib.Order.CompletePartialOrder
import Mathlib.Order.Interval.Set.Disjoint
import ZyOs.Memory.Pages

/-!
Contract: the numbers that `mem_pool_init` computes, with their widths: page counts
pass through `uint16_t`, addresses and lengths through `uint32_t`.

Owns:
- the page ranges of the two pools and the places of the three bitmaps, for every
  size of memory that the bitmap area is meant for;
- that the pools of `memPoolInit` are the ones with these numbers.
-/

namespace ZyOs.Memory

/-! ### The numbers -/

/-- `MEM_BITMAP_BASE`. -/
def memBitmapBase : UInt32 := 0xc009a000

/-- The PCB of the main thread. -/
def kernelPcb : Nat := 0xc009e000

/-- What is stored in `kernel_pool`, `user_pool` and `kernel_vaddr`. -/
structure PoolNumbers where
  kernelStart : UInt32
  kernelSize : UInt32
  kernelBits : UInt32
  kbmLength : UInt32
  userStart : UInt32
  userSize : UInt32
  userBits : UInt32
  ubmLength : UInt32
  vaddrBits : UInt32

/-- `mem_pool_init`. -/
def poolNumbers (allMem : UInt32) : PoolNumbers :=
  let pageTableSize : UInt32 := 4096 * 256
  let usedMem := pageTableSize + 0x100000
  let freeMem := allMem - usedMem
  let allFreePages := (freeMem / 4096).toUInt16
  let kernelFreePages := allFreePages / 2
  let userFreePages := allFreePages - kernelFreePages
  let kbmLength := kernelFreePages.toUInt32 / 8
  let ubmLength := userFreePages.toUInt32 / 8
  { kernelStart := usedMem
    kernelSize := kernelFreePages.toUInt32 * 4096
    kernelBits := memBitmapBase
    kbmLength := kbmLength
    userStart := usedMem + kernelFreePages.toUInt32 * 4096
    userSize := userFreePages.toUInt32 * 4096
    userBits := memBitmapBase + kbmLength
    ubmLength := ubmLength
    vaddrBits := memBitmapBase + kbmLength + ubmLength }

/-- The bytes from an address on. -/
def range (start length : UInt32) : Set Nat := Set.Ico start.toNat (start.toNat + length.toNat)

/-- The pools and bitmaps that memory of this size is to be divided into. -/
structure PoolsLaid (allMem : UInt32) (numbers : PoolNumbers) : Prop where
  poolsApart : Disjoint (range numbers.kernelStart numbers.kernelSize)
    (range numbers.userStart numbers.userSize)
  poolsLow : usedMem ≤ numbers.kernelStart.toNat ∧ usedMem ≤ numbers.userStart.toNat
  poolsHigh : numbers.kernelStart.toNat + numbers.kernelSize.toNat ≤ allMem.toNat ∧
    numbers.userStart.toNat + numbers.userSize.toNat ≤ allMem.toNat
  -- each bit stands for a page of its pool
  bitsInside : 8 * numbers.kbmLength.toNat * pgSize ≤ numbers.kernelSize.toNat ∧
    8 * numbers.ubmLength.toNat * pgSize ≤ numbers.userSize.toNat
  managed : (allMem.toNat - usedMem) / pgSize < 8 * (numbers.kbmLength.toNat + numbers.ubmLength.toNat) + 16
  bitmapsApart : Disjoint (range numbers.kernelBits numbers.kbmLength)
      (range numbers.userBits numbers.ubmLength) ∧
    Disjoint (range numbers.kernelBits numbers.kbmLength) (range numbers.vaddrBits numbers.kbmLength) ∧
    Disjoint (range numbers.userBits numbers.ubmLength) (range numbers.vaddrBits numbers.kbmLength)
  bitmapsBelow : ∀ byte, (byte ∈ range numbers.kernelBits numbers.kbmLength ∨
    byte ∈ range numbers.userBits numbers.ubmLength ∨
    byte ∈ range numbers.vaddrBits numbers.kbmLength) → memBitmapBase.toNat ≤ byte ∧ byte < kernelPcb

/-! ### In natural numbers -/

/-- The pages that the pools divide: those that are left when the count of the free ones
is cut to 16 bits. -/
def cutPages (allMem : UInt32) : Nat := (allMem.toNat - usedMem) / pgSize % 2 ^ 16

/-- The numbers, without their widths. -/
structure PoolValues (numbers : PoolNumbers) (pages : Nat) : Prop where
  kernelStart : numbers.kernelStart.toNat = usedMem
  kernelSize : numbers.kernelSize.toNat = pages / 2 * pgSize
  kernelBits : numbers.kernelBits.toNat = memBitmapBase.toNat
  kbmLength : numbers.kbmLength.toNat = pages / 2 / 8
  userStart : numbers.userStart.toNat = usedMem + pages / 2 * pgSize
  userSize : numbers.userSize.toNat = (pages - pages / 2) * pgSize
  userBits : numbers.userBits.toNat = memBitmapBase.toNat + pages / 2 / 8
  ubmLength : numbers.ubmLength.toNat = (pages - pages / 2) / 8
  vaddrBits : numbers.vaddrBits.toNat = memBitmapBase.toNat + pages / 2 / 8 + (pages - pages / 2) / 8

theorem freePages_toNat {allMem : UInt32} (enough : usedMem ≤ allMem.toNat) :
    ((allMem - (4096 * 256 + 0x100000)) / 4096).toUInt16.toNat = cutPages allMem := by
  have isUsed : (4096 * 256 + 0x100000 : UInt32).toNat = usedMem := rfl
  have fits : (4096 * 256 + 0x100000 : UInt32) ≤ allMem := by
    rw [UInt32.le_iff_toNat_le, isUsed]
    exact enough
  rw [UInt32.toNat_toUInt16, UInt32.toNat_div, UInt32.toNat_sub_of_le _ _ fits, isUsed]
  rfl

theorem poolValues {allMem : UInt32} (enough : usedMem ≤ allMem.toNat) :
    PoolValues (poolNumbers allMem) (cutPages allMem) := by
  have few : cutPages allMem < 2 ^ 16 := Nat.mod_lt _ (by decide)
  have used : usedMem = 0x200000 := rfl
  have isBase : memBitmapBase.toNat = 0xc009a000 := rfl
  have isFree := freePages_toNat enough
  obtain ⟨free, isName⟩ : ∃ free, ((allMem - (4096 * 256 + 0x100000)) / 4096).toUInt16 = free := ⟨_, rfl⟩
  rw [isName] at isFree
  have isHalf : (free / 2).toNat = cutPages allMem / 2 := by
    rw [UInt16.toNat_div, isFree]
    rfl
  have isRest : (free - free / 2).toNat = cutPages allMem - cutPages allMem / 2 := by
    have half : free / 2 ≤ free := by
      rw [UInt16.le_iff_toNat_le, isHalf, isFree]
      exact Nat.div_le_self _ _
    rw [UInt16.toNat_sub_of_le _ _ half, isFree, isHalf]
  have isSize : ∀ pages : UInt16, (pages.toUInt32 * 4096).toNat = pages.toNat * pgSize := by
    intro pages
    have small := pages.toNat_lt
    rw [UInt32.toNat_mul, UInt16.toNat_toUInt32]
    exact Nat.mod_eq_of_lt (by show pages.toNat * 4096 < 2 ^ 32; omega)
  have isLength : ∀ pages : UInt16, (pages.toUInt32 / 8).toNat = pages.toNat / 8 := by
    intro pages
    rw [UInt32.toNat_div, UInt16.toNat_toUInt32]
    rfl
  unfold poolNumbers
  dsimp only
  rw [isName]
  constructor
  case kernelStart => rfl
  case kernelBits => rfl
  case kernelSize => rw [isSize, isHalf]
  case userSize => rw [isSize, isRest]
  case kbmLength => rw [isLength, isHalf]
  case ubmLength => rw [isLength, isRest]
  case userStart =>
    rw [UInt32.toNat_add, isSize, isHalf, Nat.mod_eq_of_lt]
    · rfl
    · show 0x200000 + cutPages allMem / 2 * 4096 < 2 ^ 32
      omega
  case userBits =>
    rw [UInt32.toNat_add, isLength, isHalf]
    exact Nat.mod_eq_of_lt (by omega)
  case vaddrBits =>
    rw [UInt32.toNat_add, UInt32.toNat_add, isLength, isLength, isHalf, isRest,
      Nat.mod_eq_of_lt (by omega), Nat.mod_eq_of_lt (by omega)]

/-! ### The layout -/

theorem disjoint_range {start length start' length' : UInt32}
    (before : start.toNat + length.toNat ≤ start'.toNat) : Disjoint (range start length) (range start' length') :=
  Set.disjoint_left.mpr fun byte low high => by
    have below := low.2
    have above := high.1
    omega

/-- The pools are laid out as the sizes ask exactly when the count of the free pages fits
in its 16 bits: for less than 258 megabytes. -/
theorem mem_pool_init_laid_iff (allMem : UInt32) (low : 0x200000 ≤ allMem.toNat)
    (high : allMem.toNat ≤ 0x20000000) :
    PoolsLaid allMem (poolNumbers allMem) ↔ allMem.toNat < 0x10200000 := by
  have values := @poolValues allMem low
  have few : cutPages allMem < 2 ^ 16 := Nat.mod_lt _ (by decide)
  have used : usedMem = 0x200000 := rfl
  have isBase : memBitmapBase.toNat = 0xc009a000 := rfl
  have isPage : pgSize = 4096 := rfl
  have isPcb : kernelPcb = 0xc009e000 := rfl
  have isCut : cutPages allMem = (allMem.toNat - 0x200000) / 4096 % 65536 := rfl
  obtain ⟨kernelStart, kernelSize, kernelBits, kbmLength, userStart, userSize, userBits, ubmLength,
    vaddrBits⟩ := values
  constructor
  · intro laid
    have managed := laid.managed
    rw [kbmLength, ubmLength, used, isPage] at managed
    omega
  · intro fits
    constructor
    case poolsApart => exact disjoint_range (by omega)
    case poolsLow => omega
    case poolsHigh =>
      rw [isPage] at kernelSize userSize userStart
      omega
    case bitsInside =>
      rw [isPage] at kernelSize userSize ⊢
      omega
    case managed =>
      rw [isPage]
      omega
    case bitmapsApart =>
      exact ⟨disjoint_range (by omega), disjoint_range (by omega), disjoint_range (by omega)⟩
    case bitmapsBelow =>
      rintro byte (inside | inside | inside)
      · have below := inside.2
        have above := inside.1
        omega
      · have below := inside.2
        have above := inside.1
        omega
      · have below := inside.2
        have above := inside.1
        omega

/-- The machine of the configuration has 32 megabytes. -/
theorem mem_pool_init_laid_configured : PoolsLaid 0x2000000 (poolNumbers 0x2000000) :=
  (mem_pool_init_laid_iff 0x2000000 (by decide) (by decide)).mpr (by decide)

/-- With 512 megabytes, 130560 pages are free and the pools get 65024 of them. -/
theorem mem_pool_init_loses_pages :
    (0x20000000 - usedMem) / pgSize = 130560 ∧
      8 * ((poolNumbers 0x20000000).kbmLength.toNat + (poolNumbers 0x20000000).ubmLength.toNat) = 65024 ∧
      ¬ PoolsLaid 0x20000000 (poolNumbers 0x20000000) :=
  ⟨by decide, by decide, fun laid => absurd laid.managed (by decide)⟩

/-! ### The pools of the machine -/

/-- `memPoolInit` stores these numbers. -/
theorem memPoolInit_numbers (s : MemState) {allMem : UInt32} (enough : usedMem ≤ allMem.toNat) :
    (memPoolInit s allMem.toNat).kernelPool.phyAddrStart = (poolNumbers allMem).kernelStart.toNat ∧
      (memPoolInit s allMem.toNat).kernelPool.poolSize = (poolNumbers allMem).kernelSize.toNat ∧
      (memPoolInit s allMem.toNat).kernelPool.poolBitmap.btmpBytesLen =
        (poolNumbers allMem).kbmLength.toNat ∧
      (memPoolInit s allMem.toNat).userPool.phyAddrStart = (poolNumbers allMem).userStart.toNat ∧
      (memPoolInit s allMem.toNat).userPool.poolSize = (poolNumbers allMem).userSize.toNat ∧
      (memPoolInit s allMem.toNat).userPool.poolBitmap.btmpBytesLen =
        (poolNumbers allMem).ubmLength.toNat ∧
      (memPoolInit s allMem.toNat).kernelVaddr.vaddrBitmap.btmpBytesLen =
        (poolNumbers allMem).kbmLength.toNat := by
  have values := poolValues enough
  have small := allMem.toNat_lt
  have isCut : allFreePages allMem.toNat = cutPages allMem := by
    have used : usedMem = 0x200000 := rfl
    have isFree : (allMem.toNat + 2 ^ 32 - usedMem) % 2 ^ 32 = allMem.toNat - usedMem := by omega
    rw [allFreePages, isFree]
    rfl
  rw [values.kernelStart, values.kernelSize, values.kbmLength, values.userStart, values.userSize,
    values.ubmLength, ← isCut]
  exact ⟨rfl, rfl, rfl, rfl, rfl, rfl, rfl⟩

end ZyOs.Memory
