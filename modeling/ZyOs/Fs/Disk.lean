import Mathlib.Data.List.Range
import Mathlib.Logic.Function.Basic
import Mathlib.Tactic.Ring

/-!
Contract: sectors and buffers. The disk is a map from a sector number to the
bytes of the sector; `ide_read` and `ide_write` copy sectors to and from a
buffer.

Owns:
- `uint32_t` values in a buffer, least byte first;
- where an inode lies in the inode table.

Does not own: what a sector is used for.
-/

namespace ZyOs.Fs

/-- A buffer of bytes. -/
abbrev Buf := Nat → UInt8

/-- The bytes of each sector. -/
abbrev Disk := Nat → Nat → UInt8

def sectorSize : Nat := 512

/-- `ide_read`: what the buffer holds afterwards. -/
def ideRead (disk : Disk) (lba secCnt : Nat) : Buf := fun i =>
  if i < secCnt * sectorSize then disk (lba + i / sectorSize) (i % sectorSize) else 0

/-- `ide_write`. -/
def ideWrite (disk : Disk) (lba : Nat) (buf : Buf) (secCnt : Nat) : Disk := fun sec off =>
  if lba ≤ sec ∧ sec < lba + secCnt ∧ off < sectorSize then buf ((sec - lba) * sectorSize + off)
  else disk sec off

/-- `memcpy(buf + off, src, size)`. -/
def memcpy (buf : Buf) (off : Nat) (src : Buf) (size : Nat) : Buf := fun i =>
  if off ≤ i ∧ i < off + size then src (i - off) else buf i

/-- `memset(buf + off, value, size)`. -/
def memset (buf : Buf) (off : Nat) (value : UInt8) (size : Nat) : Buf :=
  memcpy buf off (fun _ => value) size

/-! ### Words -/

/-- A `uint32_t` in a buffer. -/
def word (buf : Buf) (off : Nat) : Nat :=
  (buf off).toNat + 256 * (buf (off + 1)).toNat + 65536 * (buf (off + 2)).toNat +
    16777216 * (buf (off + 3)).toNat

/-- The bytes of an array of `uint32_t`. -/
def wordsBuf (words : Nat → Nat) : Buf := fun i => UInt8.ofNat (words (i / 4) / 256 ^ (i % 4))

theorem word_wordsBuf {words : Nat → Nat} {idx : Nat} (small : words idx < 2 ^ 32) :
    word (wordsBuf words) (4 * idx) = words idx := by
  have byte : ∀ k < 4, wordsBuf words (4 * idx + k) = UInt8.ofNat (words idx / 256 ^ k) := by
    intro k below
    unfold wordsBuf
    rw [show (4 * idx + k) / 4 = idx by omega, show (4 * idx + k) % 4 = k by omega]
  have first := byte 0 (by omega)
  rw [Nat.add_zero] at first
  unfold word
  rw [first, byte 1 (by omega), byte 2 (by omega), byte 3 (by omega)]
  simp only [UInt8.toNat_ofNat']
  omega

/-! ### Reads after writes -/

/-- A write leaves the other sectors alone. -/
theorem ideWrite_other (disk : Disk) {lba sec secCnt : Nat} (buf : Buf)
    (other : sec < lba ∨ lba + secCnt ≤ sec) : ideWrite disk lba buf secCnt sec = disk sec := by
  funext off
  unfold ideWrite
  apply if_neg
  omega

theorem ideWrite_self (disk : Disk) (lba : Nat) (buf : Buf) {off : Nat} (inSector : off < sectorSize) :
    ideWrite disk lba buf 1 lba off = buf off := by
  unfold ideWrite
  rw [if_pos ⟨by omega, by omega, inSector⟩, Nat.sub_self, Nat.zero_mul, Nat.zero_add]

theorem ideRead_apply (disk : Disk) (lba : Nat) {off : Nat} (inSector : off < sectorSize) :
    ideRead disk lba 1 off = disk lba off := by
  unfold ideRead
  rw [if_pos (by omega), Nat.div_eq_of_lt inSector, Nat.mod_eq_of_lt inSector, Nat.add_zero]

/-- What is read from a sector depends on that sector only. -/
theorem ideRead_congr {disk disk' : Disk} {lba : Nat} (same : disk' lba = disk lba) :
    ideRead disk' lba 1 = ideRead disk lba 1 := by
  funext off
  by_cases inSector : off < sectorSize
  · rw [ideRead_apply disk' lba inSector, ideRead_apply disk lba inSector, same]
  · unfold ideRead
    rw [if_neg (by omega), if_neg (by omega)]

/-! ### Inodes -/

/-- `struct inode_position`. -/
structure InodePosition where
  twoSec : Bool
  secLba : Nat
  offSize : Nat

/-- `sizeof(struct inode)`. -/
def inodeSize : Nat := 76

/-- `inode_locate`. -/
def inodeLocate (inodeTableLba iNo : Nat) : Option InodePosition :=
  if iNo < 4096 then
    let offSize := iNo * inodeSize
    let offSizeInSec := offSize % 512
    some ⟨512 - offSizeInSec < inodeSize, inodeTableLba + offSize / 512, offSizeInSec⟩
  else
    none

end ZyOs.Fs
