import ZyOs.Boot.KernelInit
import ZyOs.Device.FlatTransfer

/-!
Contract: `loader.S` in protected mode: the kernel is read from the disk, paging is turned on and
the segments go to where they are linked.

Owns:
- `rd_disk_m_32`, down to the ports of the drive, which is as slow as it likes;
- the moves of the GDT between `setup_page` and paging;
- the way from `p_mode_start` to the jump into the kernel, for every disk and memory;
- `.find_max_mem_area` over the records of the BIOS.

Does not own: real mode but for that loop, A20, and the load of `gs`. A result of `none` is a
page fault, a drive that does not answer in `fuel` polls, or too little fuel.
-/

namespace ZyOs.Boot

open ZyOs.Lib ZyOs.Memory.PageWalk
open ZyOs.Device.Ata (Drives)

/-! ### `rd_disk_m_32` -/

/-- `.not_ready`. -/
def notReady : (fuel : Nat) → Drives → Option Drives
  | 0, _ => none
  | fuel + 1, d =>
      let (al, d) := d.status
      if al &&& 0x88 = 0x08 then some d else notReady fuel d

variable {m m' : Memory} {d d' : Drives} {ebx ecx x : Word} {fuel n : Nat}

/-- The device register for the highest bits of an address of 28 bits. -/
theorem deviceRegister {top : Nat} (small : top < 16) :
    ((BitVec.ofNat 8 top &&& 0x0f ||| 0xe0).toNat.testBit 6 = true ∧ (BitVec.ofNat 8 top &&& 0x0f ||| 0xe0).toNat.testBit 4 = false) ∧
      (BitVec.ofNat 8 top &&& 0x0f ||| 0xe0).toNat % 16 = top := by
  have each : ∀ top < 16, ((BitVec.ofNat 8 top &&& 0x0f ||| 0xe0).toNat.testBit 6 = true ∧
      (BitVec.ofNat 8 top &&& 0x0f ||| 0xe0).toNat.testBit 4 = false) ∧
        (BitVec.ofNat 8 top &&& 0x0f ||| 0xe0).toNat % 16 = top := by decide
  exact each top small

/-- The address and the count in the registers. -/
def addressed (d : Drives) (lba n : Nat) : Drives :=
  { d with
    sectCnt := ⟨BitVec.ofNat 8 n⟩
    lbaL := ⟨BitVec.ofNat 8 lba⟩
    lbaM := ⟨BitVec.ofNat 8 (lba / 2 ^ 8)⟩
    lbaH := ⟨BitVec.ofNat 8 (lba / 2 ^ 16)⟩
    dev := ⟨BitVec.ofNat 8 (lba / 2 ^ 24) &&& 0x0f ||| 0xe0⟩ }

/-- The drive has the command. -/
theorem command_addressed {lba : Nat} (isLba : lba < 2 ^ 28) (positive : 0 < n) (few : n < 256) :
    (addressed d lba n).command 0x20 = { addressed d lba n with
      transfer := some ⟨false, false, lba * 512, n * 512⟩
      busy := d.latency d.commands
      commands := d.commands + 1 } := by
  obtain ⟨⟨isMode, isMaster⟩, isTop⟩ := deviceRegister (show lba / 2 ^ 24 < 16 by omega)
  have isAddress : (addressed d lba n).lba = lba := by
    show (BitVec.ofNat 8 lba).toNat + (BitVec.ofNat 8 (lba / 2 ^ 8)).toNat * 2 ^ 8 +
      (BitVec.ofNat 8 (lba / 2 ^ 16)).toNat * 2 ^ 16 + _ % 16 * 2 ^ 24 = lba
    rw [show (addressed d lba n).dev.toNat % 16 = lba / 2 ^ 24 from isTop, BitVec.toNat_ofNat, BitVec.toNat_ofNat,
      BitVec.toNat_ofNat]
    omega
  have isCount : (addressed d lba n).sectors = n := by
    have isNat : (BitVec.ofNat 8 n).toNat = n := by
      rw [BitVec.toNat_ofNat, Nat.mod_eq_of_lt few]
    unfold Drives.sectors
    rw [if_neg]
    · exact isNat
    · intro isZero
      have none : (BitVec.ofNat 8 n).toNat = 0 := congrArg UInt8.toNat isZero
      omega
  unfold Drives.command
  rw [if_pos ⟨isMode, .inl rfl⟩, isAddress, isCount, show (addressed d lba n).dev.toNat.testBit 4 = false from isMaster]
  rfl

end ZyOs.Boot
