import ZyOs.Boot.SetupPage

/-!
Contract: `kernel_init` of the loader, which copies the segments of the kernel to where they
are linked, with paging on.

Owns:
- `kernel_init` and `mem_cpy`, with every access through the page tables, and the arguments
  on the stack;
- `loaded`: memory with the segments of an image in their places;
- that the one leaves the other, wherever the first MiB is mapped.

Does not own: `p_memsz`: nothing is cleared behind the bytes of a segment. A result of `none`
is a page fault or a return to another place.
-/

namespace ZyOs.Boot

open ZyOs.Lib ZyOs.Memory.PageWalk

/-! ### Accesses -/

/-- The physical address of a byte. -/
def phys (m : Memory) (v : Word) : Option Word := ((paged m).walk ⟨v⟩).map UInt32.toBitVec

def readByte (m : Memory) (v : Word) : Option (BitVec 8) := (phys m v).map m

def kernelBinBaseAddr : Word := 0x70000

/-- What a program header says, by physical addresses. -/
structure Header where
  used : Bool
  dst : Word
  src : Word
  size : Nat

def headerAt (m : Memory) (a : Word) : Header :=
  ⟨m a ≠ 0, load m (a + 8) - 0xc0000000, load m (a + 4) + kernelBinBaseAddr, (load m (a + 16)).toNat⟩

/-- The program headers from `a` on. -/
def headersFrom (m : Memory) (edx : Word) : Nat → Word → List Header
  | 0, _ => []
  | n + 1, a => headerAt m a :: headersFrom m edx n (a + edx)

/-- The bytes of a segment in their places. -/
def place (image m : Memory) (h : Header) : Memory :=
  fun x => if h.used ∧ Inside h.dst h.size x then image (h.src + (x - h.dst)) else m x

/-- Memory with the segments of an image in their places, one after the other. -/
def loaded (image m : Memory) (headers : List Header) : Memory := headers.foldl (place image) m

/-- The header and its bytes are in the image, which ends at `last`; a segment with bytes is
linked above the loader and the stack, behind the image or before. -/
structure InImage (m : Memory) (last : Nat) (a : Word) : Prop where
  above : 0x70000 ≤ a.toNat
  below : a.toNat + 32 ≤ last
  source : (headerAt m a).used → (headerAt m a).size ≠ 0 →
    0x70000 ≤ (headerAt m a).src.toNat ∧ (headerAt m a).src.toNat + (headerAt m a).size ≤ last
  dest : (headerAt m a).used → (headerAt m a).size ≠ 0 →
    0x900 ≤ (headerAt m a).dst.toNat ∧ (headerAt m a).dst.toNat + (headerAt m a).size ≤ 0x100000 ∧
    ((headerAt m a).dst.toNat + (headerAt m a).size ≤ 0x70000 ∨ last ≤ (headerAt m a).dst.toNat)

/-! ### The first MiB -/

/-- The entries that map the first MiB, at 0 and at 0xc0000000. -/
structure Tables (m : Memory) : Prop where
  low : load m pageDirTablePos = 0x101007
  high : load m (pageDirTablePos + 0xc00) = 0x101007
  table : ∀ i < 256, load m (0x101000 + BitVec.ofNat 32 (4 * i)) = BitVec.ofNat 32 (4096 * i + 7)

variable {m m' : Memory} {v w x p q : Word} {n : Nat}

theorem Tables.congr (tables : Tables m) (same : ∀ x : Word, 0x100000 ≤ x.toNat → m' x = m x) : Tables m' where
  low := by
    refine (load_congr fun x inside => same x ?_).trans tables.low
    unfold Inside pageDirTablePos at inside
    bv_omega
  high := by
    refine (load_congr fun x inside => same x ?_).trans tables.high
    unfold Inside pageDirTablePos at inside
    bv_omega
  table := by
    intro i small
    refine (load_congr fun x inside => same x ?_).trans (tables.table i small)
    unfold Inside at inside
    bv_omega

/-- A byte of the first MiB, at one of its two addresses. -/
abbrev IsAt (v p : Word) : Prop := v = p ∨ v = 0xc0000000 + p

/-- The first MiB is mapped where it is and 3 GiB above. -/
theorem Tables.phys_eq (tables : Tables m) (isAt : IsAt v p) (isFirst : p.toNat < 0x100000) : phys m v = some p := by
  have isDir : v.toNat / 2 ^ 22 = 0 ∨ v.toNat / 2 ^ 22 = 768 := by
    rcases isAt with rfl | rfl
    · exact .inl (by omega)
    · exact .inr (by bv_omega)
  have isRest : v.toNat % 2 ^ 22 = p.toNat := by
    rcases isAt with rfl | rfl
    · omega
    · bv_omega
  have isPde : ((paged m).pde ⟨v⟩).toNat = 0x101007 := by
    rw [toNat_pde]
    show (load m (pageDirTablePos + BitVec.ofNat 32 (4 * (v.toNat / 2 ^ 22)))).toNat = _
    rcases isDir with isDir | isDir
    · rw [isDir, show pageDirTablePos + BitVec.ofNat 32 (4 * 0) = pageDirTablePos by decide, tables.low]
      rfl
    · rw [isDir, show pageDirTablePos + BitVec.ofNat 32 (4 * 768) = pageDirTablePos + 0xc00 by decide, tables.high]
      rfl
  have small : v.toNat / 4096 % 1024 < 256 := by omega
  have isPte : ((paged m).pte ⟨v⟩).toNat = 4096 * (v.toNat / 4096 % 1024) + 7 := by
    rw [toNat_pte, isPde]
    show (load m (BitVec.ofNat 32 (0x101007 / 4096 * 4096 + v.toNat / 4096 % 1024 * 4))).toNat = _
    have isAddr : BitVec.ofNat 32 (0x101007 / 4096 * 4096 + v.toNat / 4096 % 1024 * 4) =
        (0x101000 : Word) + BitVec.ofNat 32 (4 * (v.toNat / 4096 % 1024)) := by
      bv_omega
    rw [isAddr, tables.table _ small, BitVec.toNat_ofNat, Nat.mod_eq_of_lt (by omega)]
  unfold phys
  rw [walk_paged isPde fun _ => isPte, if_pos ⟨by decide, by omega⟩]
  refine congrArg some (BitVec.eq_of_toNat_eq ?_)
  show (UInt32.ofNat _).toNat = _
  rw [UInt32.toNat_ofNat']
  show ((4096 * (v.toNat / 4096 % 1024) + 7) / 4096 * 4096 + v.toNat % 4096) % 2 ^ 32 = _
  omega

theorem Tables.update (tables : Tables m) (isFirst : p.toNat < 0x100000) (b : BitVec 8) :
    Tables (Function.update m p b) := by
  refine tables.congr fun x isTable => Function.update_of_ne ?_ _ _
  rintro rfl
  omega

theorem readByte_eq (tables : Tables m) (isAt : IsAt v p) (isFirst : p.toNat < 0x100000) :
    readByte m v = some (m p) := by
  rw [readByte, tables.phys_eq isAt isFirst]
  rfl

theorem IsAt.add (isAt : IsAt v p) (k : Word) : IsAt (v + k) (p + k) := by
  rcases isAt with rfl | rfl
  · exact .inl rfl
  · exact .inr (BitVec.add_assoc _ _ _)

theorem IsAt.sub (isAt : IsAt v p) (k : Word) : IsAt (v - k) (p - k) := by
  rw [BitVec.sub_eq_add_neg, BitVec.sub_eq_add_neg]
  exact isAt.add (-k)

theorem Tables.stored (tables : Tables m) (fits : p.toNat + 4 ≤ 0x100000) (w : Word) : Tables (store m p w) := by
  refine tables.congr fun x isTable => store_apart ?_
  bv_omega

/-- The bytes of a range that does not overlap the other. -/
def copied (m : Memory) (dst src : Word) (n : Nat) : Memory :=
  fun x => if Inside dst n x then m (src + (x - dst)) else m x

variable {a esp st ebp ecx edx retaddr : Word} {last : Nat}

/-- The header is the same when the image is. -/
theorem headerAt_congr (image : InImage m last a)
    (same : ∀ x : Word, 0x70000 ≤ x.toNat → x.toNat < last → m' x = m x) (ends : last ≤ 0x100000) :
    headerAt m' a = headerAt m a := by
  have above := image.above
  have below := image.below
  have word : ∀ k : Word, k.toNat + 4 ≤ 32 → load m' (a + k) = load m (a + k) := by
    intro k small
    refine load_congr fun x inside => same x ?_ ?_
    · unfold Inside at inside
      bv_omega
    · unfold Inside at inside
      bv_omega
  unfold headerAt
  rw [same a above (by omega), word 8 (by decide), word 4 (by decide), word 16 (by decide)]

theorem InImage.congr (image : InImage m last a)
    (same : ∀ x : Word, 0x70000 ≤ x.toNat → x.toNat < last → m' x = m x) (ends : last ≤ 0x100000) :
    InImage m' last a := by
  have isHeader := headerAt_congr image same ends
  exact ⟨image.above, image.below, isHeader ▸ image.source, isHeader ▸ image.dest⟩

/-- `e_phentsize`, `e_phnum` and the address of the first program header. -/
def phentsize (m : Memory) : Word := (m (kernelBinBaseAddr + 43) ++ m (kernelBinBaseAddr + 42)).setWidth 32

def phnum (m : Memory) : Nat := (m (kernelBinBaseAddr + 45) ++ m (kernelBinBaseAddr + 44)).toNat

def phdrs (m : Memory) : Word := load m (kernelBinBaseAddr + 28) + kernelBinBaseAddr

/-- All program headers of the image at 0x70000. -/
def headers (m : Memory) : List Header := headersFrom m (phentsize m) (phnum m) (phdrs m)

/-- The headers that `kernel_init` goes through, and their bytes, are in the image. -/
structure WellPlaced (m : Memory) (last : Nat) : Prop where
  nonempty : phnum m ≠ 0
  elfHeader : 0x70000 + 52 ≤ last
  ends : last ≤ 0x100000
  images : ∀ k < phnum m, InImage m last (phdrs m + BitVec.ofNat 32 k * phentsize m)

section Congr

variable (same : ∀ x : Word, 0x70000 ≤ x.toNat → x.toNat < last → m' x = m x) (placed : WellPlaced m last)

include same placed

theorem WellPlaced.fields : phentsize m' = phentsize m ∧ phnum m' = phnum m ∧ phdrs m' = phdrs m := by
  have elfHeader := placed.elfHeader
  have ends := placed.ends
  have byte : ∀ k : Word, k.toNat < 52 → m' (kernelBinBaseAddr + k) = m (kernelBinBaseAddr + k) := by
    intro k small
    unfold kernelBinBaseAddr
    exact same _ (by bv_omega) (by bv_omega)
  refine ⟨?_, ?_, ?_⟩
  · rw [phentsize, byte _ (by decide), byte _ (by decide), phentsize]
  · rw [phnum, byte _ (by decide), byte _ (by decide), phnum]
  · rw [phdrs, load_congr (m := m) fun x inside => ?_, phdrs]
    unfold Inside kernelBinBaseAddr at inside
    exact same _ (by bv_omega) (by bv_omega)

theorem WellPlaced.congr : WellPlaced m' last := by
  obtain ⟨isSize, isNum, isAddr⟩ := placed.fields same
  refine ⟨isNum ▸ placed.nonempty, placed.elfHeader, placed.ends, fun k small => ?_⟩
  rw [isNum] at small
  rw [isSize, isAddr]
  exact (placed.images k small).congr same placed.ends

end Congr

end ZyOs.Boot
