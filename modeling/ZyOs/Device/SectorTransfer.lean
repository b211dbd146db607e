import Mathlib.Data.Nat.Bitwise
import ZyOs.Device.PartitionScan

/-!
Contract: what `ide_read` and `ide_write` move, down to the registers of the drives.

Owns:
- the two drives of a channel, as their registers show them: the 28 bits of the LBA from
  four ports, a sector count where 0 is 256, the data port word by word;
- `select_disk`, `select_sector`, `cmd_out`, `busy_wait`, `read_from_sector`,
  `write2sector`, `ide_read` and `ide_write`.

How long a drive stays busy after a command is a parameter.

Does not own: the lock of the channel and `disk_done`, which the handshake is about.
-/

namespace ZyOs.Device.Ata

/-! ### The drives -/

/-- The data phase of a command: the next byte of the disk, and how many are left. -/
structure Transfer where
  write : Bool
  slave : Bool
  pos : Nat
  left : Nat

/-- The drives of a channel. Sector `lba` is the 512 bytes from `lba * 512` on. `latency` is
how many polls the drive stays busy after each command. -/
structure Drives where
  bytes : Bool → Nat → UInt8
  sectCnt : UInt8
  lbaL : UInt8
  lbaM : UInt8
  lbaH : UInt8
  dev : UInt8
  transfer : Option Transfer
  latency : Nat → Nat
  commands : Nat
  busy : Nat

inductive Register where
  | sectCnt
  | lbaL
  | lbaM
  | lbaH
  | dev
  | cmd

def cmdReadSector : UInt8 := 0x20

def cmdWriteSector : UInt8 := 0x30

namespace Drives

/-- The sector that the registers address, with the low 4 bits of the device register on
top. -/
def lba (d : Drives) : Nat :=
  d.lbaL.toNat + d.lbaM.toNat * 2 ^ 8 + d.lbaH.toNat * 2 ^ 16 + d.dev.toNat % 16 * 2 ^ 24

/-- The sector count; 0 is 256. -/
def sectors (d : Drives) : Nat := if d.sectCnt = 0 then 256 else d.sectCnt.toNat

/-- A command to the selected drive. One that is not in LBA mode, or that is no transfer,
moves nothing. -/
def command (d : Drives) (cmd : UInt8) : Drives :=
  { d with
    transfer :=
      if d.dev.toNat.testBit 6 ∧ (cmd = cmdReadSector ∨ cmd = cmdWriteSector) then
        some ⟨cmd = cmdWriteSector, d.dev.toNat.testBit 4, d.lba * 512, d.sectors * 512⟩
      else
        none
    busy := d.latency d.commands
    commands := d.commands + 1 }

/-- `outb`. -/
def outb (d : Drives) (value : UInt8) : Register → Drives
  | .sectCnt => { d with sectCnt := value }
  | .lbaL => { d with lbaL := value }
  | .lbaM => { d with lbaM := value }
  | .lbaH => { d with lbaH := value }
  | .dev => { d with dev := value }
  | .cmd => d.command value

/-- `inb` of the status register: busy, or ready, with bit 3 while data is to be moved. -/
def status (d : Drives) : UInt8 × Drives :=
  if d.busy = 0 then
    (if d.transfer.any fun t => t.left ≠ 0 then 0x48 else 0x40, d)
  else
    (0x80, { d with busy := d.busy - 1 })

/-- A word read from the data port. -/
def dataIn (d : Drives) : UInt8 × UInt8 × Drives :=
  match d.transfer with
  | some t =>
      if t.write = false ∧ 2 ≤ t.left then
        (d.bytes t.slave t.pos, d.bytes t.slave (t.pos + 1),
          { d with transfer := some { t with pos := t.pos + 2, left := t.left - 2 } })
      else
        (0xff, 0xff, d)
  | none => (0xff, 0xff, d)

/-- A word written to the data port. -/
def dataOut (d : Drives) (low high : UInt8) : Drives :=
  match d.transfer with
  | some t =>
      if t.write = true ∧ 2 ≤ t.left then
        { d with
          bytes := Function.update d.bytes t.slave
            (Function.update (Function.update (d.bytes t.slave) t.pos low) (t.pos + 1) high)
          transfer := some { t with pos := t.pos + 2, left := t.left - 2 } }
      else
        d
  | none => d

end Drives

/-! ### The functions -/

/-- Memory, and the drives of the channel. -/
structure Machine where
  mem : UInt32 → UInt8
  drives : Drives

/-- A failed `ASSERT`, and the `PANIC` when a drive does not answer. -/
inductive Stop where
  | assertion
  | panic
deriving DecidableEq

def bitDevMbs : Nat := 0xa0

def bitDevLba : Nat := 0x40

def bitDevDev : Nat := 0x10

def bitStatBsy : UInt8 := 0x80

def bitStatDrq : UInt8 := 0x8

def Machine.outb (m : Machine) (reg : Register) (value : Nat) : Machine :=
  { m with drives := m.drives.outb (UInt8.ofNat value) reg }

/-- `select_disk`. -/
def selectDisk (m : Machine) (devNo : Nat) : Machine :=
  m.outb .dev (if devNo = 1 then bitDevMbs ||| bitDevLba ||| bitDevDev else bitDevMbs ||| bitDevLba)

/-- `select_sector`; `sec_cnt` is a `uint8_t`. -/
def selectSector (m : Machine) (devNo lba : Nat) (secCnt : UInt8) : Except Stop Machine :=
  if lba ≤ maxLba then
    let m := m.outb .sectCnt secCnt.toNat
    let m := m.outb .lbaL lba
    let m := m.outb .lbaM (lba / 2 ^ 8)
    let m := m.outb .lbaH (lba / 2 ^ 16)
    .ok (m.outb .dev (bitDevMbs ||| bitDevLba ||| (if devNo = 1 then bitDevDev else 0) ||| lba / 2 ^ 24))
  else
    .error .assertion

/-- `cmd_out`, as far as the drive sees it. -/
def cmdOut (m : Machine) (cmd : UInt8) : Machine := m.outb .cmd cmd.toNat

/-- `insw`. -/
def insw : Nat → Machine → UInt32 → Machine
  | 0, m, _ => m
  | wordCnt + 1, m, addr =>
      let (low, high, drives) := m.drives.dataIn
      insw wordCnt
        { mem := Function.update (Function.update m.mem addr low) (addr + 1) high, drives := drives } (addr + 2)

/-- `outsw`. -/
def outsw : Nat → Machine → UInt32 → Machine
  | 0, m, _ => m
  | wordCnt + 1, m, addr =>
      outsw wordCnt { m with drives := m.drives.dataOut (m.mem addr) (m.mem (addr + 1)) } (addr + 2)

/-- `size_in_byte`, in `read_from_sector` and `write2sector`. -/
def sizeInByte (secCnt : UInt8) : Nat := if secCnt = 0 then 256 * 512 else secCnt.toNat * 512

/-- `read_from_sector`. -/
def readFromSector (m : Machine) (buf : UInt32) (secCnt : UInt8) : Machine :=
  insw (sizeInByte secCnt / 2) m buf

/-- `write2sector`. -/
def write2sector (m : Machine) (buf : UInt32) (secCnt : UInt8) : Machine :=
  outsw (sizeInByte secCnt / 2) m buf

/-- The loop of `busy_wait`. Its condition is `time_limit -= (10 >= 0)`. -/
def busyWaitLoop : Nat → Drives → Bool × Drives
  | 0, d => (false, d)
  | timeLimit + 1, d =>
      if timeLimit = 0 then
        (false, d)
      else
        let (status, d) := d.status
        if status &&& bitStatBsy = 0 then
          let (status, d) := d.status
          (status &&& bitStatDrq != 0, d)
        else
          busyWaitLoop timeLimit d

/-- `busy_wait`. -/
def busyWait (m : Machine) : Bool × Machine :=
  let (ready, drives) := busyWaitLoop (30 * 1000) m.drives
  (ready, { m with drives := drives })

/-- `secs_op`. -/
def secsOp (secCnt secsDone : Nat) : Nat :=
  if (secsDone + 256) % 2 ^ 32 ≤ secCnt then 256 else secCnt - secsDone

/-- One round of the loop, with the command and what moves the data. -/
def transferChunk (cmd : UInt8) (move : Machine → UInt32 → UInt8 → Machine) (devNo lba : Nat) (buf : UInt32)
    (secsDone secsOp : Nat) (m : Machine) : Except Stop Machine :=
  match selectSector m devNo ((lba + secsDone) % 2 ^ 32) (UInt8.ofNat secsOp) with
  | .error stop => .error stop
  | .ok m =>
      match busyWait (cmdOut m cmd) with
      | (false, _) => .error .panic
      | (true, m) => .ok (move m (buf + UInt32.ofNat (secsDone * 512)) (UInt8.ofNat secsOp))

/-- The loop. Every round is at least one sector, so there are at most `sec_cnt`. -/
def transferLoop (chunk : Nat → Nat → Machine → Except Stop Machine) (secCnt : Nat) :
    Nat → Nat → Machine → Except Stop Machine
  | 0, _, m => .ok m
  | left + 1, secsDone, m =>
      if secsDone < secCnt then
        match chunk secsDone (secsOp secCnt secsDone) m with
        | .error stop => .error stop
        | .ok m => transferLoop chunk secCnt left ((secsDone + secsOp secCnt secsDone) % 2 ^ 32) m
      else
        .ok m

/-- The frame that `ide_read` and `ide_write` share. -/
def transferSectors (chunk : Nat → Nat → Machine → Except Stop Machine) (devNo lba secCnt : Nat) (m : Machine) :
    Except Stop Machine :=
  if lba ≤ maxLba ∧ secCnt > 0 then
    transferLoop chunk secCnt secCnt 0 (selectDisk m devNo)
  else
    .error .assertion

/-- `ide_read`. -/
def ideRead (devNo lba : Nat) (buf : UInt32) (secCnt : Nat) (m : Machine) : Except Stop Machine :=
  transferSectors (transferChunk cmdReadSector readFromSector devNo lba buf) devNo lba secCnt m

/-- `ide_write`. -/
def ideWrite (devNo lba : Nat) (buf : UInt32) (secCnt : Nat) (m : Machine) : Except Stop Machine :=
  transferSectors (transferChunk cmdWriteSector write2sector devNo lba buf) devNo lba secCnt m

end ZyOs.Device.Ata
