import ZyOs.Device.SectorTransfer

/-!
Contract: `ide_read` and `ide_write` are flat transfers.

Owns:
- the flat meaning: a range of the disk from memory, a range of memory from the disk;
- the bytes behind `insw` and `outsw`, one command, and the loop over the chunks, where a
  count of 256 is passed as 0;
- reading back what was written.
-/

namespace ZyOs.Device.Ata

/-! ### Ranges -/

/-- A disk with `n` bytes from `pos` on replaced by data. -/
def storeBytes (bytes : Nat → UInt8) (pos n : Nat) (data : Nat → UInt8) : Nat → UInt8 := fun p =>
  if pos ≤ p ∧ p < pos + n then data (p - pos) else bytes p

/-- Memory with `n` bytes from `buf` on replaced by data. -/
def loadBytes (mem : UInt32 → UInt8) (buf : UInt32) (n : Nat) (data : Nat → UInt8) : UInt32 → UInt8 := fun a =>
  if (a - buf).toNat < n then data (a - buf).toNat else mem a

section Ranges

variable {bytes : Nat → UInt8} {mem : UInt32 → UInt8} {pos n k : Nat} {buf : UInt32} {data more : Nat → UInt8}

theorem storeBytes_zero : storeBytes bytes pos 0 data = bytes := by
  funext p
  exact if_neg fun inside => by omega

theorem loadBytes_zero : loadBytes mem buf 0 data = mem := by
  funext a
  exact if_neg (Nat.not_lt_zero _)

/-- Two ranges of the disk, one behind the other. -/
theorem storeBytes_append (next : ∀ i < k, more i = data (n + i)) :
    storeBytes (storeBytes bytes pos n data) (pos + n) k more = storeBytes bytes pos (n + k) data := by
  funext p
  unfold storeBytes
  by_cases behind : pos + n ≤ p ∧ p < pos + n + k
  · rw [if_pos behind, if_pos ⟨by omega, by omega⟩, next _ (by omega)]
    congr 1
    omega
  · rw [if_neg behind]
    by_cases first : pos ≤ p ∧ p < pos + n
    · rw [if_pos first, if_pos ⟨by omega, by omega⟩]
    · rw [if_neg first, if_neg (by omega)]

/-- An address behind the first `n` bytes of a buffer. -/
theorem toNat_sub_add (a : UInt32) (small : n < 2 ^ 32) :
    (a - (buf + UInt32.ofNat n)).toNat =
      if n ≤ (a - buf).toNat then (a - buf).toNat - n else 2 ^ 32 - n + (a - buf).toNat := by
  have split : a - (buf + UInt32.ofNat n) = a - buf - UInt32.ofNat n := by grind
  have isLt := (a - buf).toNat_lt
  rw [split, UInt32.toNat_sub, UInt32.toNat_ofNat_of_lt' small]
  split
  all_goals omega

/-- Two ranges of memory, one behind the other. -/
theorem loadBytes_append (small : n + k ≤ 2 ^ 32) (next : ∀ i < k, more i = data (n + i)) :
    loadBytes (loadBytes mem buf n data) (buf + UInt32.ofNat n) k more = loadBytes mem buf (n + k) data := by
  funext a
  by_cases none : k = 0
  · rw [none, loadBytes_zero, Nat.add_zero]
  have isLt := (a - buf).toNat_lt
  unfold loadBytes
  rw [toNat_sub_add a (by omega)]
  by_cases behind : n ≤ (a - buf).toNat
  · rw [if_pos behind, if_neg (show ¬ (a - buf).toNat < n by omega)]
    by_cases inside : (a - buf).toNat - n < k
    · rw [if_pos inside, if_pos (by omega), next _ inside, Nat.add_sub_cancel' behind]
    · rw [if_neg inside, if_neg (by omega)]
  · rw [if_neg behind, if_neg (by omega), if_pos (Nat.lt_of_not_le behind), if_pos (by omega)]

end Ranges

/-! ### One command -/

/-- Whether a disk is the slave. -/
def isSlave (devNo : Nat) : Bool := devNo = 1

variable {m : Machine} {devNo lba : Nat}

/-- The device register of a disk, with no address bits: the sectors end far below 2^24. -/
theorem devRegister (devNo : Nat) (low : lba ≤ maxLba) :
    UInt8.ofNat (bitDevMbs ||| bitDevLba ||| (if devNo = 1 then bitDevDev else 0) ||| lba / 2 ^ 24) =
      if devNo = 1 then 0xf0 else 0xe0 := by
  have high : lba / 2 ^ 24 = 0 := by
    unfold maxLba at low
    omega
  rw [high]
  split
  · rfl
  · rfl

/-- The four ports put the sector together again. -/
theorem lba_assembled (low : lba ≤ maxLba) {d : Drives} (lbaL : d.lbaL = UInt8.ofNat lba)
    (lbaM : d.lbaM = UInt8.ofNat (lba / 2 ^ 8)) (lbaH : d.lbaH = UInt8.ofNat (lba / 2 ^ 16))
    (dev : d.dev.toNat % 16 = 0) : d.lba = lba := by
  unfold Drives.lba maxLba at *
  rw [lbaL, lbaM, lbaH, dev, UInt8.toNat_ofNat', UInt8.toNat_ofNat', UInt8.toNat_ofNat']
  omega

/-- A count of 256 is passed as 0. -/
theorem toNat_ofNat_secsOp {secsOp : Nat} (positive : 1 ≤ secsOp) (small : secsOp ≤ 256) :
    (if UInt8.ofNat secsOp = 0 then 256 else (UInt8.ofNat secsOp).toNat) = secsOp := by
  have isZero : UInt8.ofNat secsOp = 0 ↔ secsOp % 256 = 0 := by
    rw [← UInt8.toNat_inj, UInt8.toNat_ofNat']
    rfl
  rw [UInt8.toNat_ofNat']
  split
  · rename_i zero
    have := isZero.mp zero
    omega
  · rename_i notZero
    have := mt isZero.mpr notZero
    omega

theorem sizeInByte_ofNat {secsOp : Nat} (positive : 1 ≤ secsOp) (small : secsOp ≤ 256) :
    sizeInByte (UInt8.ofNat secsOp) = secsOp * 512 := by
  have isCount := toNat_ofNat_secsOp positive small
  unfold sizeInByte
  split
  · rename_i zero
    rw [if_pos zero] at isCount
    rw [← isCount]
  · rename_i notZero
    rw [if_neg notZero] at isCount
    rw [isCount]

/-- A drive whose data phase is about to begin. -/
structure Commanded (m m' : Machine) (write : Bool) (devNo lba secsOp : Nat) : Prop where
  mem : m'.mem = m.mem
  bytes : m'.drives.bytes = m.drives.bytes
  latency : m'.drives.latency = m.drives.latency
  busy : m'.drives.busy = m.drives.latency m.drives.commands
  transfer : m'.drives.transfer = some ⟨write, isSlave devNo, lba * 512, secsOp * 512⟩

/-- The registers that `select_sector` leaves. -/
def addressed (m : Machine) (devNo lba : Nat) (secCnt : UInt8) : Machine :=
  { m with drives := { m.drives with
    sectCnt := secCnt
    lbaL := UInt8.ofNat lba
    lbaM := UInt8.ofNat (lba / 2 ^ 8)
    lbaH := UInt8.ofNat (lba / 2 ^ 16)
    dev := if devNo = 1 then 0xf0 else 0xe0 } }

theorem selectSector_eq (low : lba ≤ maxLba) (m : Machine) (devNo : Nat) (secCnt : UInt8) :
    selectSector m devNo lba secCnt = .ok (addressed m devNo lba secCnt) := by
  unfold selectSector
  rw [if_pos low]
  show Except.ok { m with drives := { m.drives with
    sectCnt := UInt8.ofNat secCnt.toNat
    lbaL := UInt8.ofNat lba
    lbaM := UInt8.ofNat (lba / 2 ^ 8)
    lbaH := UInt8.ofNat (lba / 2 ^ 16)
    dev := UInt8.ofNat _ } } = _
  rw [devRegister devNo low, UInt8.ofNat_toNat]
  rfl

theorem lba_addressed (low : lba ≤ maxLba) (m : Machine) (devNo : Nat) (secCnt : UInt8) :
    (addressed m devNo lba secCnt).drives.lba = lba := by
  refine lba_assembled low rfl rfl rfl ?_
  show (if devNo = 1 then (0xf0 : UInt8) else 0xe0).toNat % 16 = 0
  split
  · rfl
  · rfl

theorem dev_addressed (m : Machine) (devNo lba : Nat) (secCnt : UInt8) :
    (addressed m devNo lba secCnt).drives.dev.toNat.testBit 6 = true ∧
    (addressed m devNo lba secCnt).drives.dev.toNat.testBit 4 = isSlave devNo := by
  show (if devNo = 1 then (0xf0 : UInt8) else 0xe0).toNat.testBit 6 = true ∧
    (if devNo = 1 then (0xf0 : UInt8) else 0xe0).toNat.testBit 4 = decide (devNo = 1)
  split
  · rename_i slave
    rw [decide_eq_true slave]
    exact ⟨rfl, rfl⟩
  · rename_i master
    rw [decide_eq_false master]
    exact ⟨rfl, rfl⟩

/-- The command for a direction. -/
def cmdOf (write : Bool) : UInt8 := if write then cmdWriteSector else cmdReadSector

/-- `select_sector` and `cmd_out` start the data phase of the whole chunk. -/
theorem command_addressed (low : lba ≤ maxLba) {secsOp : Nat} (positive : 1 ≤ secsOp) (small : secsOp ≤ 256)
    (m : Machine) (devNo : Nat) (write : Bool) :
    Commanded m (cmdOut (addressed m devNo lba (UInt8.ofNat secsOp)) (cmdOf write)) write devNo lba secsOp := by
  refine ⟨rfl, rfl, rfl, rfl, ?_⟩
  obtain ⟨lbaMode, slave⟩ := dev_addressed m devNo lba (UInt8.ofNat secsOp)
  have isLba := lba_addressed low m devNo (UInt8.ofNat secsOp)
  have isCount : (addressed m devNo lba (UInt8.ofNat secsOp)).drives.sectors = secsOp :=
    toNat_ofNat_secsOp positive small
  have isCmd : (cmdOf write = cmdReadSector ∨ cmdOf write = cmdWriteSector) ∧
      decide (cmdOf write = cmdWriteSector) = write := by
    cases write <;> decide
  show (Drives.command _ (UInt8.ofNat (cmdOf write).toNat)).transfer = _
  rw [UInt8.ofNat_toNat]
  unfold Drives.command
  rw [if_pos ⟨lbaMode, isCmd.1⟩, slave, isLba, isCount, isCmd.2]

/-- `busy_wait` sees the end of the busy time when it is short enough. -/
theorem busyWaitLoop_ready (timeLimit : Nat) {d : Drives} (soon : d.busy + 1 < timeLimit) {t : Transfer}
    (isTransfer : d.transfer = some t) (waiting : t.left ≠ 0) :
    busyWaitLoop timeLimit d = (true, { d with busy := 0 }) := by
  induction timeLimit generalizing d with
  | zero => omega
  | succ timeLimit inductionHypothesis =>
      unfold busyWaitLoop
      rw [if_neg (by omega)]
      cases isBusy : d.busy with
      | zero =>
          have isStatus : d.status = (0x48, d) := by
            unfold Drives.status
            rw [if_pos isBusy, isTransfer]
            simp [waiting]
          rw [isStatus]
          dsimp only
          have isReady : ((0x48 : UInt8) &&& bitStatDrq != 0) = true := by decide
          rw [if_pos (by decide), isStatus, ← isBusy]
          dsimp only
          rw [isReady]
      | succ busy =>
          have isStatus : d.status = (0x80, { d with busy := busy }) := by
            unfold Drives.status
            rw [if_neg (by omega), isBusy]
            rfl
          rw [isStatus]
          exact inductionHypothesis (by show busy + 1 < timeLimit; omega) isTransfer

/-! ### The data port -/

theorem ofNat_add_two (addr : UInt32) (i : Nat) : addr + 2 + UInt32.ofNat i = addr + UInt32.ofNat (2 + i) := by
  rw [UInt32.ofNat_add, UInt32.add_assoc]
  rfl

/-- `outsw` into a data phase long enough stores its words one behind the other. -/
theorem outsw_spec (wordCnt : Nat) (addr : UInt32) {slave : Bool} {pos left : Nat}
    (isTransfer : m.drives.transfer = some ⟨true, slave, pos, left⟩) (enough : wordCnt * 2 ≤ left) :
    (outsw wordCnt m addr).mem = m.mem ∧ (outsw wordCnt m addr).drives.latency = m.drives.latency ∧
      (outsw wordCnt m addr).drives.bytes = Function.update m.drives.bytes slave
        (storeBytes (m.drives.bytes slave) pos (wordCnt * 2) fun i => m.mem (addr + UInt32.ofNat i)) := by
  induction wordCnt generalizing m addr pos left with
  | zero => exact ⟨rfl, rfl, by rw [Nat.zero_mul, storeBytes_zero, Function.update_eq_self]; rfl⟩
  | succ wordCnt inductionHypothesis =>
      have isOut : m.drives.dataOut (m.mem addr) (m.mem (addr + 1)) = { m.drives with
          bytes := Function.update m.drives.bytes slave (Function.update
            (Function.update (m.drives.bytes slave) pos (m.mem addr)) (pos + 1) (m.mem (addr + 1)))
          transfer := some ⟨true, slave, pos + 2, left - 2⟩ } := by
        unfold Drives.dataOut
        rw [isTransfer]
        exact if_pos ⟨rfl, by show 2 ≤ left; omega⟩
      have word : Function.update (Function.update (m.drives.bytes slave) pos (m.mem addr)) (pos + 1)
          (m.mem (addr + 1)) = storeBytes (m.drives.bytes slave) pos 2 fun i => m.mem (addr + UInt32.ofNat i) := by
        funext p
        rw [Function.update_apply, Function.update_apply]
        unfold storeBytes
        by_cases high : p = pos + 1
        · rw [if_pos high, if_pos (by omega), high, Nat.add_sub_cancel_left]
          rfl
        · rw [if_neg high]
          by_cases low : p = pos
          · rw [if_pos low, if_pos (by omega), low, Nat.sub_self]
            show m.mem addr = m.mem (addr + 0)
            rw [UInt32.add_zero]
          · rw [if_neg low, if_neg (by omega)]
      rw [word] at isOut
      have isStep : outsw (wordCnt + 1) m addr = outsw wordCnt { m with drives := _ } (addr + 2) :=
        congrArg (fun drives => outsw wordCnt { m with drives := drives } (addr + 2)) isOut
      rw [isStep]
      obtain ⟨mem, latency, bytes⟩ := @inductionHypothesis { m with drives := { m.drives with
          bytes := Function.update m.drives.bytes slave
            (storeBytes (m.drives.bytes slave) pos 2 fun i => m.mem (addr + UInt32.ofNat i))
          transfer := some ⟨true, slave, pos + 2, left - 2⟩ } } (addr + 2) (pos + 2) (left - 2) rfl (by omega)
      refine ⟨mem, latency, bytes.trans ?_⟩
      dsimp only
      rw [Function.update_idem, Function.update_self, storeBytes_append]
      · congr 2
        omega
      · exact fun i _ => congrArg m.mem (ofNat_add_two addr i)

theorem loadBytes_word (mem : UInt32 → UInt8) (addr : UInt32) (data : Nat → UInt8) :
    Function.update (Function.update mem addr (data 0)) (addr + 1) (data 1) = loadBytes mem addr 2 data := by
  funext a
  have first : a = addr ↔ (a - addr).toNat = 0 := by
    rw [← UInt32.toNat_zero, UInt32.toNat_inj]
    grind
  have second : a = addr + 1 ↔ (a - addr).toNat = 1 := by
    rw [← UInt32.toNat_one, UInt32.toNat_inj]
    grind
  rw [Function.update_apply, Function.update_apply]
  unfold loadBytes
  by_cases high : a = addr + 1
  · rw [if_pos high, second.mp high, if_pos Nat.one_lt_two]
  · rw [if_neg high]
    by_cases low : a = addr
    · rw [if_pos low, first.mp low, if_pos Nat.two_pos]
    · have notFirst := mt first.mpr low
      have notSecond := mt second.mpr high
      rw [if_neg low, if_neg (by omega)]

/-- `insw` from a data phase long enough loads its words one behind the other. -/
theorem insw_spec (wordCnt : Nat) (addr : UInt32) {slave : Bool} {pos left : Nat}
    (isTransfer : m.drives.transfer = some ⟨false, slave, pos, left⟩) (enough : wordCnt * 2 ≤ left)
    (small : wordCnt * 2 ≤ 2 ^ 32) :
    (insw wordCnt m addr).drives.bytes = m.drives.bytes ∧
      (insw wordCnt m addr).drives.latency = m.drives.latency ∧
      (insw wordCnt m addr).mem =
        loadBytes m.mem addr (wordCnt * 2) fun i => m.drives.bytes slave (pos + i) := by
  induction wordCnt generalizing m addr pos left with
  | zero => exact ⟨rfl, rfl, by rw [Nat.zero_mul, loadBytes_zero]; rfl⟩
  | succ wordCnt inductionHypothesis =>
      have isIn : m.drives.dataIn = (m.drives.bytes slave pos, m.drives.bytes slave (pos + 1),
          { m.drives with transfer := some ⟨false, slave, pos + 2, left - 2⟩ }) := by
        unfold Drives.dataIn
        rw [isTransfer]
        exact if_pos ⟨rfl, by show 2 ≤ left; omega⟩
      have isStep : insw (wordCnt + 1) m addr = insw wordCnt
          { mem := loadBytes m.mem addr 2 fun i => m.drives.bytes slave (pos + i)
            drives := { m.drives with transfer := some ⟨false, slave, pos + 2, left - 2⟩ } } (addr + 2) := by
        rw [← loadBytes_word]
        show insw wordCnt ⟨Function.update (Function.update m.mem addr m.drives.dataIn.1) (addr + 1)
          m.drives.dataIn.2.1, m.drives.dataIn.2.2⟩ (addr + 2) = _
        rw [isIn]
        rfl
      rw [isStep]
      obtain ⟨bytes, latency, mem⟩ := @inductionHypothesis
        { mem := loadBytes m.mem addr 2 fun i => m.drives.bytes slave (pos + i)
          drives := { m.drives with transfer := some ⟨false, slave, pos + 2, left - 2⟩ } }
        (addr + 2) (pos + 2) (left - 2) rfl (by omega) (by omega)
      refine ⟨bytes, latency, mem.trans ?_⟩
      dsimp only
      have isNext : addr + 2 = addr + UInt32.ofNat 2 := rfl
      rw [isNext, loadBytes_append]
      · congr 1
        omega
      · omega
      · exact fun i _ => congrArg (m.drives.bytes slave) (Nat.add_assoc pos 2 i)

/-! ### One chunk -/

/-- Every drive answers before `busy_wait` gives up. Its comment says 30 seconds; the
limit goes down by 1, not by 10, for each 10 ms, which makes 300. -/
def Drives.Answers (d : Drives) : Prop := ∀ command, d.latency command < 30 * 1000 - 1

/-- The data phase of a chunk is open when its data is moved. -/
theorem transferChunk_eq (devNo : Nat) (answers : m.drives.Answers) {secsDone secsOp : Nat}
    (low : lba + secsDone ≤ maxLba) (positive : 1 ≤ secsOp) (small : secsOp ≤ 256) (write : Bool)
    (move : Machine → UInt32 → UInt8 → Machine) (buf : UInt32) :
    ∃ m', transferChunk (cmdOf write) move devNo lba buf secsDone secsOp m =
        .ok (move m' (buf + UInt32.ofNat (secsDone * 512)) (UInt8.ofNat secsOp)) ∧
      m'.mem = m.mem ∧ m'.drives.bytes = m.drives.bytes ∧ m'.drives.latency = m.drives.latency ∧
      m'.drives.transfer = some ⟨write, isSlave devNo, (lba + secsDone) * 512, secsOp * 512⟩ := by
  have wrapped : (lba + secsDone) % 2 ^ 32 = lba + secsDone := by
    unfold maxLba at low
    omega
  have commanded := command_addressed low positive small m devNo write
  have isReady := busyWaitLoop_ready (30 * 1000)
    (by rw [commanded.busy]; have := answers m.drives.commands; omega) commanded.transfer
    (by show secsOp * 512 ≠ 0; omega)
  unfold transferChunk
  rw [wrapped, selectSector_eq low m devNo]
  dsimp only
  unfold busyWait
  rw [isReady]
  exact ⟨_, rfl, commanded.mem, commanded.bytes, commanded.latency, commanded.transfer⟩

/-! ### The loop -/

/-- What each chunk carries one chunk further, the loop carries from 0 to `sec_cnt`. -/
theorem transferLoop_spec {chunk : Nat → Nat → Machine → Except Stop Machine} {secCnt : Nat}
    {moved : Nat → Machine → Prop} (bounded : secCnt ≤ maxLba + 1)
    (step : ∀ secsDone secsOp m, 1 ≤ secsOp → secsOp ≤ 256 → secsDone + secsOp ≤ secCnt → moved secsDone m →
      ∃ m', chunk secsDone secsOp m = .ok m' ∧ moved (secsDone + secsOp) m')
    {left secsDone : Nat} (enough : secCnt ≤ secsDone + left) (inside : secsDone ≤ secCnt)
    (start : moved secsDone m) :
    ∃ m', transferLoop chunk secCnt left secsDone m = .ok m' ∧ moved secCnt m' := by
  induction left generalizing secsDone m with
  | zero => exact ⟨m, rfl, Nat.le_antisymm inside enough ▸ start⟩
  | succ left inductionHypothesis =>
      unfold transferLoop
      by_cases more : secsDone < secCnt
      · have bound : secsDone + 256 < 2 ^ 32 := by
          unfold maxLba at bounded
          omega
        have isOp : secsOp secCnt secsDone = min 256 (secCnt - secsDone) := by
          unfold secsOp
          rw [Nat.mod_eq_of_lt bound]
          split <;> omega
        obtain ⟨m', isChunk, isMoved⟩ := step secsDone (secsOp secCnt secsDone) m (by omega) (by omega)
          (by omega) start
        rw [if_pos more, isChunk]
        dsimp only
        rw [Nat.mod_eq_of_lt (by omega)]
        exact inductionHypothesis (by omega) (by omega) isMoved
      · rw [if_neg more]
        exact ⟨m, rfl, Nat.le_antisymm inside (Nat.le_of_not_lt more) ▸ start⟩

/-- `ide_read` and `ide_write`, from what their chunks do. -/
theorem transferSectors_spec {chunk : Nat → Nat → Machine → Except Stop Machine} {secCnt : Nat}
    (moved : Nat → Machine → Prop) (positive : 1 ≤ secCnt) (inside : lba + secCnt - 1 ≤ maxLba)
    (step : ∀ secsDone secsOp m, 1 ≤ secsOp → secsOp ≤ 256 → secsDone + secsOp ≤ secCnt → moved secsDone m →
      ∃ m', chunk secsDone secsOp m = .ok m' ∧ moved (secsDone + secsOp) m')
    (start : moved 0 (selectDisk m devNo)) :
    ∃ m', transferSectors chunk devNo lba secCnt m = .ok m' ∧ moved secCnt m' := by
  unfold transferSectors
  rw [if_pos ⟨by omega, positive⟩]
  exact transferLoop_spec (by omega) step (by omega) (Nat.zero_le _) start

/-! ### Writing -/

/-- `n` bytes of the range are on the disk, and nothing else has changed. -/
structure Written (m : Machine) (devNo lba : Nat) (buf : UInt32) (n : Nat) (m' : Machine) : Prop where
  mem : m'.mem = m.mem
  latency : m'.drives.latency = m.drives.latency
  bytes : m'.drives.bytes = Function.update m.drives.bytes (isSlave devNo)
    (storeBytes (m.drives.bytes (isSlave devNo)) (lba * 512) n fun i => m.mem (buf + UInt32.ofNat i))

theorem writeChunk_written (answers : m.drives.Answers) {buf : UInt32} {secsDone secsOp : Nat}
    (low : lba + secsDone ≤ maxLba) (positive : 1 ≤ secsOp) (small : secsOp ≤ 256) {m' : Machine}
    (written : Written m devNo lba buf (secsDone * 512) m') :
    ∃ m'', transferChunk cmdWriteSector write2sector devNo lba buf secsDone secsOp m' = .ok m'' ∧
      Written m devNo lba buf ((secsDone + secsOp) * 512) m'' := by
  have answers' : m'.drives.Answers := fun command => by rw [written.latency]; exact answers command
  obtain ⟨open', isChunk, mem, bytes, latency, isTransfer⟩ :=
    transferChunk_eq devNo answers' low positive small true write2sector buf
  refine ⟨_, isChunk, ?_⟩
  unfold write2sector
  rw [sizeInByte_ofNat positive small]
  have even : secsOp * 512 / 2 * 2 = secsOp * 512 := by omega
  obtain ⟨outMem, outLatency, outBytes⟩ :=
    outsw_spec (secsOp * 512 / 2) (buf + UInt32.ofNat (secsDone * 512)) isTransfer even.le
  refine ⟨outMem.trans (mem.trans written.mem), outLatency.trans (latency.trans written.latency), ?_⟩
  rw [outBytes, even, bytes, mem, written.bytes, written.mem, Function.update_idem, Function.update_self,
    Nat.add_mul lba, storeBytes_append, Nat.add_mul secsDone]
  intro i _
  rw [UInt32.add_assoc, ← UInt32.ofNat_add]

theorem ideWrite_written (answers : m.drives.Answers) {secCnt : Nat} (positive : 1 ≤ secCnt)
    (inside : lba + secCnt - 1 ≤ maxLba) (devNo : Nat) (buf : UInt32) :
    ∃ m', ideWrite devNo lba buf secCnt m = .ok m' ∧ Written m devNo lba buf (secCnt * 512) m' := by
  refine transferSectors_spec (fun secsDone => Written m devNo lba buf (secsDone * 512)) positive
    inside ?_ ?_
  · intro secsDone secsOp m' isPositive isSmall fits written
    exact writeChunk_written answers (by omega) isPositive isSmall written
  · refine ⟨rfl, rfl, ?_⟩
    rw [Nat.zero_mul, storeBytes_zero, Function.update_eq_self]
    rfl

/-! ### Reading -/

/-- `n` bytes of the range are in the buffer, and nothing else has changed. -/
structure Loaded (m : Machine) (devNo lba : Nat) (buf : UInt32) (n : Nat) (m' : Machine) : Prop where
  bytes : m'.drives.bytes = m.drives.bytes
  latency : m'.drives.latency = m.drives.latency
  mem : m'.mem = loadBytes m.mem buf n fun i => m.drives.bytes (isSlave devNo) (lba * 512 + i)

theorem readChunk_loaded (answers : m.drives.Answers) {buf : UInt32} {secsDone secsOp : Nat}
    (low : lba + secsDone + secsOp ≤ maxLba + 1) (positive : 1 ≤ secsOp) (small : secsOp ≤ 256) {m' : Machine}
    (loaded : Loaded m devNo lba buf (secsDone * 512) m') :
    ∃ m'', transferChunk cmdReadSector readFromSector devNo lba buf secsDone secsOp m' = .ok m'' ∧
      Loaded m devNo lba buf ((secsDone + secsOp) * 512) m'' := by
  have answers' : m'.drives.Answers := fun command => by rw [loaded.latency]; exact answers command
  obtain ⟨open', isChunk, mem, bytes, latency, isTransfer⟩ :=
    transferChunk_eq devNo answers' (show lba + secsDone ≤ maxLba by omega) positive small false
      readFromSector buf
  refine ⟨_, isChunk, ?_⟩
  unfold readFromSector
  rw [sizeInByte_ofNat positive small]
  have even : secsOp * 512 / 2 * 2 = secsOp * 512 := by omega
  have bounded : (secsDone + secsOp) * 512 ≤ 2 ^ 32 := by
    unfold maxLba at low
    omega
  obtain ⟨inBytes, inLatency, inMem⟩ := insw_spec (secsOp * 512 / 2)
    (buf + UInt32.ofNat (secsDone * 512)) isTransfer even.le (by omega)
  refine ⟨inBytes.trans (bytes.trans loaded.bytes), inLatency.trans (latency.trans loaded.latency), ?_⟩
  rw [inMem, even, mem, bytes, loaded.mem, loaded.bytes, loadBytes_append, Nat.add_mul secsDone]
  · rw [← Nat.add_mul]
    exact bounded
  · intro i _
    rw [Nat.add_mul, Nat.add_assoc]

theorem ideRead_loaded (answers : m.drives.Answers) {secCnt : Nat} (positive : 1 ≤ secCnt)
    (inside : lba + secCnt - 1 ≤ maxLba) (devNo : Nat) (buf : UInt32) :
    ∃ m', ideRead devNo lba buf secCnt m = .ok m' ∧ Loaded m devNo lba buf (secCnt * 512) m' := by
  refine transferSectors_spec (fun secsDone => Loaded m devNo lba buf (secsDone * 512)) positive
    inside ?_ ?_
  · intro secsDone secsOp m' isPositive isSmall fits loaded
    exact readChunk_loaded answers (by omega) isPositive isSmall loaded
  · exact ⟨rfl, rfl, by rw [Nat.zero_mul, loadBytes_zero]; rfl⟩

/-! ### The calls -/

/-- `ide_write` stores the buffer in the sectors of the range and changes nothing else,
`ide_read` fills the buffer from them, and reading a range that was written gives back what
was written. -/
theorem ide_transfers_flat {secCnt : Nat} (answers : m.drives.Answers) (positive : 1 ≤ secCnt)
    (inside : lba + secCnt - 1 ≤ maxLba) (devNo : Nat) (buf : UInt32) :
    (∃ m', ideWrite devNo lba buf secCnt m = .ok m' ∧ Written m devNo lba buf (secCnt * 512) m') ∧
      (∃ m', ideRead devNo lba buf secCnt m = .ok m' ∧ Loaded m devNo lba buf (secCnt * 512) m') ∧
      ∀ back : UInt32, ∃ m' m'', ideWrite devNo lba buf secCnt m = .ok m' ∧
        ideRead devNo lba back secCnt m' = .ok m'' ∧
        ∀ i < secCnt * 512, m''.mem (back + UInt32.ofNat i) = m.mem (buf + UInt32.ofNat i) := by
  obtain ⟨m', isWrite, written⟩ := ideWrite_written answers positive inside devNo buf
  refine ⟨⟨m', isWrite, written⟩, ideRead_loaded answers positive inside devNo buf, fun back => ?_⟩
  have answers' : m'.drives.Answers := fun command => by rw [written.latency]; exact answers command
  obtain ⟨m'', isRead, loaded⟩ := ideRead_loaded answers' positive inside devNo back
  refine ⟨m', m'', isWrite, isRead, fun i inRange => ?_⟩
  have offset : (back + UInt32.ofNat i - back).toNat = i := by
    have cancel : back + UInt32.ofNat i - back = UInt32.ofNat i := by grind
    rw [cancel, UInt32.toNat_ofNat_of_lt']
    unfold maxLba at inside
    show i < 2 ^ 32
    omega
  rw [loaded.mem, loadBytes, if_pos (offset.symm ▸ inRange), offset, written.bytes, Function.update_self,
    storeBytes, if_pos ⟨by omega, by omega⟩, Nat.add_sub_cancel_left]

/-- Drives that answer after 5 polls. -/
def promptMachine : Machine where
  mem a := a.toUInt8
  drives :=
    { bytes := fun _ _ => 0, sectCnt := 0, lbaL := 0, lbaM := 0, lbaH := 0, dev := 0
      transfer := none, latency := fun _ => 5, commands := 0, busy := 0 }

/-- Two chunks of 256 sectors at the end of the slave disk, from a buffer that goes past the
last address. -/
theorem ide_transfers_flat_twice : ∃ m', ideWrite 1 (maxLba - 511) 0xffffff00 512 promptMachine = .ok m' ∧
    Written promptMachine 1 (maxLba - 511) 0xffffff00 (512 * 512) m' :=
  (ide_transfers_flat (fun _ => by show 5 < 29999; decide) (by decide) (by unfold maxLba; decide) 1 _).1

end ZyOs.Device.Ata
