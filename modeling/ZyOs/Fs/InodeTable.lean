import ZyOs.Fs.Disk

/-!
Contract: inodes in the inode table: `inode_sync`, `inode_open` of an inode that
is not in memory, and `inode_delete`.

Owns:
- the 76 bytes of `struct inode`, which may straddle two sectors;
- the read, change and write of one or two sectors that the three share.

`inode_sync` keeps the inode number in a `uint8_t`, so the inode of number `n`
goes to slot `n % 256`.

Does not own: the memory of an inode. `sys_malloc` succeeds in `inode_open`,
and the order of `open_inodes` stands for the pointers in `inode_tag`.
-/

namespace ZyOs.Fs.InodeTable

/-- `struct inode`: 19 words of four bytes, as `bool` is `int`. -/
structure Inode where
  iNo : UInt32
  iSize : UInt32
  iOpenCnts : UInt32
  writeDeny : UInt32
  iSectors : Fin 13 → UInt32
  tagPrev : UInt32
  tagNext : UInt32

/-- The words of an inode in memory. -/
def Inode.words (inode : Inode) (idx : Nat) : Nat :=
  match idx with
  | 0 => inode.iNo.toNat
  | 1 => inode.iSize.toNat
  | 2 => inode.iOpenCnts.toNat
  | 3 => inode.writeDeny.toNat
  | 17 => inode.tagPrev.toNat
  | 18 => inode.tagNext.toNat
  | idx => (inode.iSectors (Fin.ofNat 13 (idx - 4))).toNat

/-- The bytes of an inode in memory. -/
def Inode.bytes (inode : Inode) : Buf := wordsBuf inode.words

/-- The inode whose bytes start at `off`. -/
def Inode.ofBytes (buf : Buf) (off : Nat) : Inode where
  iNo := UInt32.ofNat (word buf off)
  iSize := UInt32.ofNat (word buf (off + 4))
  iOpenCnts := UInt32.ofNat (word buf (off + 8))
  writeDeny := UInt32.ofNat (word buf (off + 12))
  iSectors := fun i => UInt32.ofNat (word buf (off + (16 + 4 * i.val)))
  tagPrev := UInt32.ofNat (word buf (off + 68))
  tagNext := UInt32.ofNat (word buf (off + 72))

/-- `struct partition`, with the inode table inside the partition. -/
structure Partition where
  disk : Disk
  startLba : Nat
  secCnt : Nat
  inodeTableLba : Nat
  openInodes : List Inode
  tableInside : inodeTableLba + 608 ≤ startLba + secCnt
  sectorsFit : startLba + secCnt ≤ 2 ^ 32

/-- How many sectors an inode at this position takes. -/
def secs (pos : InodePosition) : Nat := if pos.twoSec then 2 else 1

/-- `pure_inode`: the fields that only live in memory are cleared. -/
def pureInode (inode : Inode) : Inode :=
  { inode with iOpenCnts := 0, writeDeny := 0, tagPrev := 0, tagNext := 0 }

/-- `inode_sync`; `none` is a failed `ASSERT`. -/
def inodeSync (part : Partition) (inode : Inode) : Option Partition := do
  let inodeNo : UInt8 := UInt8.ofNat inode.iNo.toNat
  let pos ← inodeLocate part.inodeTableLba inodeNo.toNat
  if pos.secLba ≤ part.startLba + part.secCnt then
    let inodeBuf := ideRead part.disk pos.secLba (secs pos)
    let inodeBuf := memcpy inodeBuf pos.offSize (pureInode inode).bytes inodeSize
    return { part with disk := ideWrite part.disk pos.secLba inodeBuf (secs pos) }
  else
    none

/-- `inode_open`. -/
def inodeOpen (part : Partition) (inodeNo : Nat) : Option (Partition × Inode) :=
  match part.openInodes.find? fun inode => inode.iNo.toNat = inodeNo with
  | some inode => do
      let inodeFound := { inode with iOpenCnts := inode.iOpenCnts + 1 }
      let openInodes := part.openInodes.replaceF fun inode =>
        if inode.iNo.toNat = inodeNo then some inodeFound else none
      return ({ part with openInodes := openInodes }, inodeFound)
  | none => do
      let pos ← inodeLocate part.inodeTableLba inodeNo
      let inodeBuf := ideRead part.disk pos.secLba (secs pos)
      let inodeFound := { Inode.ofBytes inodeBuf pos.offSize with iOpenCnts := 1 }
      return ({ part with openInodes := inodeFound :: part.openInodes }, inodeFound)

/-- `inode_delete`; `none` is a failed `ASSERT`. -/
def inodeDelete (part : Partition) (inodeNo : Nat) : Option Partition := do
  let pos ← inodeLocate part.inodeTableLba inodeNo
  if pos.secLba ≤ part.startLba + part.secCnt then
    let inodeBuf := ideRead part.disk pos.secLba (secs pos)
    let inodeBuf := memset inodeBuf pos.offSize 0 inodeSize
    return { part with disk := ideWrite part.disk pos.secLba inodeBuf (secs pos) }
  else
    none

/-! ### Bytes of the table -/

/-- The disk as one array of bytes. -/
def byteAt (disk : Disk) (addr : Nat) : UInt8 := disk (addr / sectorSize) (addr % sectorSize)

/-- Where the bytes of an inode start. -/
def slotAddr (inodeTableLba n : Nat) : Nat := inodeTableLba * sectorSize + n * inodeSize

/-- The bytes `addr .. addr + size - 1` of a disk are replaced and no others. -/
def Patched (disk disk' : Disk) (addr size : Nat) (src : Buf) : Prop :=
  ∀ a, byteAt disk' a = if addr ≤ a ∧ a < addr + size then src (a - addr) else byteAt disk a

/-- Reading sectors, changing some of their bytes and writing them back. -/
theorem patched_of_rewrite (disk : Disk) {lba off size secCnt : Nat} (src : Buf)
    (inside : off + size ≤ secCnt * sectorSize) :
    Patched disk (ideWrite disk lba (memcpy (ideRead disk lba secCnt) off src size) secCnt)
      (lba * sectorSize + off) size src := by
  intro a
  have pos : 0 < sectorSize := by decide
  have split := Nat.div_add_mod a sectorSize
  have inSector : a % sectorSize < sectorSize := Nat.mod_lt a pos
  generalize secEq : a / sectorSize = sec at *
  generalize offEq : a % sectorSize = rest at *
  unfold byteAt ideWrite
  rw [secEq, offEq]
  by_cases covered : lba ≤ sec ∧ sec < lba + secCnt
  · rw [if_pos ⟨covered.1, covered.2, inSector⟩]
    obtain ⟨k, rfl⟩ := Nat.exists_eq_add_of_le covered.1
    have kSmall : k < secCnt := by omega
    rw [Nat.add_sub_cancel_left]
    have addrEq : a = lba * sectorSize + (k * sectorSize + rest) := by
      rw [← split]
      ring
    have upper : k * sectorSize + rest < secCnt * sectorSize := by
      calc k * sectorSize + rest < k * sectorSize + sectorSize := by omega
        _ = (k + 1) * sectorSize := by ring
        _ ≤ secCnt * sectorSize := Nat.mul_le_mul_right _ kSmall
    unfold memcpy
    by_cases patched : off ≤ k * sectorSize + rest ∧ k * sectorSize + rest < off + size
    · rw [if_pos patched, if_pos (by omega)]
      congr 1
      omega
    · rw [if_neg patched, if_neg (by omega)]
      unfold ideRead
      rw [if_pos upper, Nat.add_comm (k * sectorSize) rest, Nat.add_mul_div_right rest k pos,
        Nat.add_mul_mod_self_right, Nat.div_eq_of_lt inSector, Nat.mod_eq_of_lt inSector,
        Nat.zero_add]
  · rw [if_neg (fun all => covered ⟨all.1, all.2.1⟩)]
    have outside : ¬(lba * sectorSize + off ≤ a ∧ a < lba * sectorSize + off + size) := by
      intro both
      apply covered
      constructor
      · by_contra below
        have : (sec + 1) * sectorSize ≤ lba * sectorSize :=
          Nat.mul_le_mul_right _ (by omega)
        rw [Nat.add_mul, Nat.one_mul, Nat.mul_comm sec] at this
        omega
      · by_contra above
        have : (lba + secCnt) * sectorSize ≤ sec * sectorSize :=
          Nat.mul_le_mul_right _ (by omega)
        rw [Nat.add_mul, Nat.mul_comm sec] at this
        omega
    rw [if_neg outside]

/-! ### Positions -/

/-- The position of an inode: its bytes lie in the sectors that are read. -/
theorem inodeLocate_spec {inodeTableLba n : Nat} (inTable : n < 4096) :
    ∃ pos, inodeLocate inodeTableLba n = some pos ∧
      pos.secLba * sectorSize + pos.offSize = slotAddr inodeTableLba n ∧
      pos.offSize + inodeSize ≤ secs pos * sectorSize ∧
      pos.secLba < inodeTableLba + 608 := by
  refine ⟨_, if_pos inTable, ?_, ?_, ?_⟩
  · simp only [slotAddr, inodeSize, sectorSize]
    omega
  · unfold secs
    by_cases straddles : 512 - n * inodeSize % 512 < inodeSize
    · rw [if_pos (decide_eq_true straddles)]
      simp only [inodeSize, sectorSize] at *
      omega
    · rw [if_neg (by simpa using straddles)]
      simp only [inodeSize, sectorSize] at *
      omega
  · simp only [inodeSize]
    omega

theorem ideRead_byteAt (disk : Disk) (lba : Nat) {secCnt i : Nat} (inside : i < secCnt * sectorSize) :
    ideRead disk lba secCnt i = byteAt disk (lba * sectorSize + i) := by
  have pos : 0 < sectorSize := by decide
  unfold ideRead byteAt
  rw [if_pos inside, Nat.add_comm (lba * sectorSize) i, Nat.add_mul_div_right i lba pos,
    Nat.add_mul_mod_self_right, Nat.add_comm lba]

theorem word_congr {buf buf' : Buf} {off off' : Nat} (same : ∀ k < 4, buf (off + k) = buf' (off' + k)) :
    word buf off = word buf' off' := by
  have first := same 0 (by omega)
  rw [Nat.add_zero, Nat.add_zero] at first
  unfold word
  rw [first, same 1 (by omega), same 2 (by omega), same 3 (by omega)]

/-- Slots are 76 bytes apart. -/
theorem slotAddr_disjoint {inodeTableLba n other k : Nat} (apart : other ≠ n) (inSlot : k < inodeSize) :
    ¬(slotAddr inodeTableLba n ≤ slotAddr inodeTableLba other + k ∧
      slotAddr inodeTableLba other + k < slotAddr inodeTableLba n + inodeSize) := by
  simp only [slotAddr, inodeSize] at *
  omega

/-! ### The three operations -/

/-- `inode_sync` replaces the bytes of the slot that the low byte of `i_no` names. -/
theorem inodeSync_spec (part : Partition) (inode : Inode) :
    ∃ synced, inodeSync part inode = some synced ∧
      synced.inodeTableLba = part.inodeTableLba ∧ synced.openInodes = part.openInodes ∧
      Patched part.disk synced.disk (slotAddr part.inodeTableLba (inode.iNo.toNat % 256))
        inodeSize (pureInode inode).bytes := by
  have narrow : (UInt8.ofNat inode.iNo.toNat).toNat = inode.iNo.toNat % 256 := by
    rw [UInt8.toNat_ofNat']
  have small : inode.iNo.toNat % 256 < 4096 := by omega
  obtain ⟨pos, located, addr, inside, upper⟩ :=
    @inodeLocate_spec part.inodeTableLba _ small
  have allowed : pos.secLba ≤ part.startLba + part.secCnt := by
    have := part.tableInside
    omega
  unfold inodeSync
  simp only [narrow, located, Option.bind_eq_bind, Option.bind_some, if_pos allowed]
  refine ⟨_, rfl, rfl, rfl, ?_⟩
  rw [← addr]
  exact patched_of_rewrite part.disk _ inside

/-- `inode_sync` writes to no sector behind the table. -/
theorem inodeSync_behind (part : Partition) (inode : Inode) :
    ∃ synced, inodeSync part inode = some synced ∧
      ∀ sec, part.inodeTableLba + 608 ≤ sec → synced.disk sec = part.disk sec := by
  have narrow : (UInt8.ofNat inode.iNo.toNat).toNat = inode.iNo.toNat % 256 := by
    rw [UInt8.toNat_ofNat']
  have small : inode.iNo.toNat % 256 < 256 := by omega
  obtain ⟨pos, located, addr, _, upper⟩ :=
    @inodeLocate_spec part.inodeTableLba (inode.iNo.toNat % 256) (by omega)
  have allowed : pos.secLba ≤ part.startLba + part.secCnt := by
    have := part.tableInside
    omega
  have atMostTwo : secs pos ≤ 2 := by
    unfold secs
    split
    · exact Nat.le_refl _
    · exact Nat.le_succ _
  have inTable : pos.secLba ≤ part.inodeTableLba + 606 := by
    simp only [slotAddr, inodeSize, sectorSize] at addr
    omega
  unfold inodeSync
  simp only [narrow, located, Option.bind_eq_bind, Option.bind_some, if_pos allowed]
  refine ⟨_, rfl, fun sec behind => ?_⟩
  apply ideWrite_other
  omega

theorem inodeDelete_spec (part : Partition) {n : Nat} (inTable : n < 4096) :
    ∃ deleted, inodeDelete part n = some deleted ∧
      Patched part.disk deleted.disk (slotAddr part.inodeTableLba n) inodeSize fun _ => 0 := by
  obtain ⟨pos, located, addr, inside, upper⟩ :=
    @inodeLocate_spec part.inodeTableLba _ inTable
  have allowed : pos.secLba ≤ part.startLba + part.secCnt := by
    have := part.tableInside
    omega
  unfold inodeDelete
  simp only [located, Option.bind_eq_bind, Option.bind_some, if_pos allowed]
  refine ⟨_, rfl, ?_⟩
  rw [← addr]
  exact patched_of_rewrite part.disk _ inside

theorem ofBytes_congr {buf buf' : Buf} {off off' : Nat}
    (same : ∀ k < inodeSize, buf (off + k) = buf' (off' + k)) :
    Inode.ofBytes buf off = Inode.ofBytes buf' off' := by
  have words : ∀ j ≤ 72, word buf (off + j) = word buf' (off' + j) := by
    intro j upper
    apply word_congr
    intro k small
    rw [Nat.add_assoc, Nat.add_assoc]
    exact same (j + k) (by simp only [inodeSize]; omega)
  have first := words 0 (by omega)
  rw [Nat.add_zero, Nat.add_zero] at first
  unfold Inode.ofBytes
  congr 1
  · rw [first]
  · rw [words 4 (by omega)]
  · rw [words 8 (by omega)]
  · rw [words 12 (by omega)]
  · funext i
    rw [words _ (by omega)]
  · rw [words 68 (by omega)]
  · rw [words 72 (by omega)]

/-- What is written is what is read. -/
theorem ofBytes_bytes (inode : Inode) : Inode.ofBytes inode.bytes 0 = inode := by
  have fits : ∀ idx, inode.words idx < 2 ^ 32 := by
    intro idx
    unfold Inode.words
    split <;> exact UInt32.toNat_lt _
  have words : ∀ idx, word inode.bytes (4 * idx) = inode.words idx := fun idx =>
    word_wordsBuf (fits idx)
  have sector : ∀ i : Fin 13, word inode.bytes (0 + (16 + 4 * i.val)) = (inode.iSectors i).toNat := by
    intro i
    rw [show 0 + (16 + 4 * i.val) = 4 * (i.val + 4) by omega, words]
    have small := i.isLt
    unfold Inode.words
    split <;> rename_i eq
    all_goals first
      | omega
      | rw [Nat.add_sub_cancel, Fin.ofNat_val_eq_self]
  have w0 : word inode.bytes 0 = inode.iNo.toNat := words 0
  have w1 : word inode.bytes (0 + 4) = inode.iSize.toNat := words 1
  have w2 : word inode.bytes (0 + 8) = inode.iOpenCnts.toNat := words 2
  have w3 : word inode.bytes (0 + 12) = inode.writeDeny.toNat := words 3
  have w17 : word inode.bytes (0 + 68) = inode.tagPrev.toNat := words 17
  have w18 : word inode.bytes (0 + 72) = inode.tagNext.toNat := words 18
  unfold Inode.ofBytes
  simp only [w0, w1, w2, w3, w17, w18, sector, UInt32.ofNat_toNat]

/-- `inode_open` of an inode that is not in memory reads its slot. -/
theorem inodeOpen_spec (part : Partition) {n : Nat} (inTable : n < 4096)
    (uncached : ∀ inode ∈ part.openInodes, inode.iNo.toNat ≠ n) :
    ∃ part' found, inodeOpen part n = some (part', found) ∧
      found = { Inode.ofBytes (fun k => byteAt part.disk (slotAddr part.inodeTableLba n + k)) 0 with
        iOpenCnts := 1 } := by
  have missing : (part.openInodes.find? fun inode => inode.iNo.toNat = n) = none := by
    rw [List.find?_eq_none]
    intro inode mem
    simpa using uncached inode mem
  obtain ⟨pos, located, addr, inside, _⟩ := @inodeLocate_spec part.inodeTableLba _ inTable
  unfold inodeOpen
  simp only [missing, located, Option.bind_eq_bind, Option.bind_some]
  refine ⟨_, _, rfl, ?_⟩
  have slot : Inode.ofBytes (ideRead part.disk pos.secLba (secs pos)) pos.offSize =
      Inode.ofBytes (fun k => byteAt part.disk (slotAddr part.inodeTableLba n + k)) 0 := by
    apply ofBytes_congr
    intro k small
    rw [ideRead_byteAt part.disk pos.secLba (by omega), ← addr, Nat.zero_add, Nat.add_assoc]
  rw [slot]

/-! ### The round trip -/

/-- What the inode table promises for the inode of number `n`. -/
structure RoundTrip (part : Partition) (n : Nat) (inode : Inode) : Prop where
  /-- After `inode_sync`, `inode_open` finds the inode. -/
  sync_open : ∃ synced, inodeSync part inode = some synced ∧
    ∃ part' found, inodeOpen synced n = some (part', found) ∧ found.iNo = inode.iNo ∧
      found.iSize = inode.iSize ∧ found.iSectors = inode.iSectors ∧ found.writeDeny = 0
  /-- `inode_sync` leaves the bytes of the other inodes alone. -/
  sync_frame : ∃ synced, inodeSync part inode = some synced ∧
    ∀ other < 4096, other ≠ n → ∀ k < inodeSize,
      byteAt synced.disk (slotAddr part.inodeTableLba other + k) =
        byteAt part.disk (slotAddr part.inodeTableLba other + k)
  /-- `inode_delete` clears the bytes of the inode and no others. -/
  delete : ∃ deleted, inodeDelete part n = some deleted ∧
    Patched part.disk deleted.disk (slotAddr part.inodeTableLba n) inodeSize fun _ => 0

theorem roundTrip_of_small {part : Partition} {n : Nat} {inode : Inode} (small : n < 256)
    (numbered : inode.iNo.toNat = n)
    (uncached : ∀ inode ∈ part.openInodes, inode.iNo.toNat ≠ n) : RoundTrip part n inode := by
  obtain ⟨synced, eq, table, opened, patched⟩ := inodeSync_spec part inode
  rw [numbered, Nat.mod_eq_of_lt small] at patched
  refine ⟨⟨synced, eq, ?_⟩, ⟨synced, eq, ?_⟩, inodeDelete_spec part (by omega)⟩
  · obtain ⟨part', found, openEq, foundEq⟩ := @inodeOpen_spec synced n (by omega) (opened ▸ uncached)
    have stored : Inode.ofBytes (fun k => byteAt synced.disk (slotAddr synced.inodeTableLba n + k)) 0 =
        pureInode inode := by
      rw [← ofBytes_bytes (pureInode inode)]
      apply ofBytes_congr
      intro k inSlot
      rw [table, patched, if_pos (by omega), Nat.add_sub_cancel_left]
    rw [stored] at foundEq
    subst foundEq
    exact ⟨part', _, openEq, rfl, rfl, rfl, rfl⟩
  · intro other _ apart k inSlot
    rw [patched, if_neg (slotAddr_disjoint apart inSlot)]

/-- With a larger number another inode is overwritten, unless its slot already
holds that number. -/
theorem not_roundTrip_of_large {part : Partition} {n : Nat} {inode : Inode} (large : 256 ≤ n)
    (numbered : inode.iNo.toNat = n)
    (before : word (fun k => byteAt part.disk (slotAddr part.inodeTableLba (n % 256) + k)) 0 ≠ n) :
    ¬RoundTrip part n inode := by
  intro trip
  obtain ⟨synced, eq, _, _, patched⟩ := inodeSync_spec part inode
  obtain ⟨synced', eq', frame⟩ := trip.sync_frame
  obtain rfl : synced = synced' := Option.some.inj (eq.symm.trans eq')
  have kept := frame (n % 256) (by omega) (by omega)
  rw [numbered] at patched
  apply before
  calc word (fun k => byteAt part.disk (slotAddr part.inodeTableLba (n % 256) + k)) 0
      = word (pureInode inode).bytes 0 := by
        apply word_congr
        intro k small
        have inSlot : k < inodeSize := by
          simp only [inodeSize]
          omega
        rw [Nat.zero_add, ← kept k inSlot, patched, if_pos (by omega), Nat.add_sub_cancel_left]
    _ = inode.iNo.toNat := @word_wordsBuf _ 0 (UInt32.toNat_lt _)
    _ = n := numbered

/-- The inode table keeps the inode of number `n`, whatever the disk held before,
exactly when the number fits into a byte. -/
theorem inode_round_trip_iff (part : Partition) (n : Nat) (inTable : n < 4096) (inode : Inode)
    (numbered : inode.iNo.toNat = n)
    (uncached : ∀ inode ∈ part.openInodes, inode.iNo.toNat ≠ n) :
    (∀ disk, RoundTrip { part with disk := disk } n inode) ↔ n < 256 := by
  constructor
  · intro trips
    by_contra large
    refine not_roundTrip_of_large (by omega) numbered ?_ (trips fun _ _ => 0)
    intro zero
    have : n = 0 := zero.symm
    omega
  · intro small disk
    exact roundTrip_of_small small numbered uncached

theorem blank_tableInside : 5 + 608 ≤ 0 + 4096 := by decide

theorem blank_sectorsFit : 0 + 4096 ≤ 2 ^ 32 := by decide

/-- A zeroed disk of 4096 sectors, with the inode table after five sectors. -/
def blankPartition : Partition where
  disk := fun _ _ => 0
  startLba := 0
  secCnt := 4096
  inodeTableLba := 5
  openInodes := []
  tableInside := blank_tableInside
  sectorsFit := blank_sectorsFit

/-- An empty file of this number. -/
def emptyFile (iNo : UInt32) : Inode := ⟨iNo, 0, 1, 0, fun _ => 0, 0, 0⟩

/-- Inode 6 lies in bytes 456 to 531: it straddles two sectors. -/
theorem inode_round_trip_six : RoundTrip blankPartition 6 (emptyFile 6) :=
  (inode_round_trip_iff blankPartition 6 (by decide) (emptyFile 6) (by decide)
    (fun _ none => nomatch none)).mpr (by decide) blankPartition.disk

/-- Inode 256 is written over inode 0. -/
theorem inode_sync_256 : (256 < 4096 ∧ (emptyFile 256).iNo.toNat = 256 ∧
    blankPartition.openInodes = []) ∧ ¬RoundTrip blankPartition 256 (emptyFile 256) := by
  refine ⟨by decide, ?_⟩
  apply not_roundTrip_of_large (by decide) (by decide)
  decide

end ZyOs.Fs.InodeTable
