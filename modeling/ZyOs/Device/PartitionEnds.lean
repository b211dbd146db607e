import ZyOs.Device.PartitionScan

/-!
Contract: on which disks `partition_scan` comes to an end without leaving
`prim_parts` and `logic_parts`.

`Ends` reads the tables in the order of the scan and counts the partitions. The
eighth logical partition ends the table that lists it, and only that one: the
tables that led there are read on. Nothing keeps a table from leading back to
itself.
-/

namespace ZyOs.Device

open Fs

/-! ### Reading the tables -/

/-- The start of the extended partition, 0 before it is found, and the partitions met. -/
structure Counts where
  base : Nat
  prims : Nat
  logics : Nat

namespace Counts

/-- The sector of the table that an extended entry leads to. -/
def target (c : Counts) (p : PartitionTableEntry) : Nat :=
  if c.base ≠ 0 then addLba p.startLba c.base else p.startLba

/-- The first extended entry is the base of the others. -/
def follow (c : Counts) (p : PartitionTableEntry) : Counts :=
  { c with base := if c.base ≠ 0 then c.base else p.startLba }

end Counts

/-- An entry of a partition that is not an extended one. -/
def PartitionTableEntry.isPart (p : PartitionTableEntry) : Prop := p.fsType ≠ 0 ∧ p.fsType ≠ 5

instance (p : PartitionTableEntry) : Decidable p.isPart := by
  unfold PartitionTableEntry.isPart
  infer_instance

/-- These entries of the table at `lba`, and the tables below them, are finitely many
and hold no ninth logical partition. Without counts at the end, the kernel stops at a
fourth primary partition or at a sector above `max_lba`. -/
inductive Ends (disk : Disk) :
    (lba : Nat) → List PartitionTableEntry → (before : Counts) → Option Counts → Prop where
  | nil {lba c} : Ends disk lba [] c (some c)
  | empty {lba p rest c after} (isEmpty : p.fsType = 0) (others : Ends disk lba rest c after) :
      Ends disk lba (p :: rest) c after
  | primary {p rest c after} (isPart : p.isPart) (few : c.prims + 1 < 4)
      (others : Ends disk 0 rest { c with prims := c.prims + 1 } after) :
      Ends disk 0 (p :: rest) c after
  | fourth {p rest c} (isPart : p.isPart) (isFourth : c.prims + 1 = 4) :
      Ends disk 0 (p :: rest) c none
  | logical {lba p rest c after} (inExtended : lba ≠ 0) (isPart : p.isPart) (few : c.logics + 1 < 8)
      (others : Ends disk lba rest { c with logics := c.logics + 1 } after) :
      Ends disk lba (p :: rest) c after
  | eighth {lba p rest c} (inExtended : lba ≠ 0) (isPart : p.isPart) (isEighth : c.logics + 1 = 8) :
      Ends disk lba (p :: rest) c (some { c with logics := c.logics + 1 })
  | beyond {lba p rest c} (isExtended : p.fsType = 5) (high : maxLba < c.target p) :
      Ends disk lba (p :: rest) c none
  | stopped {lba p rest c} (isExtended : p.fsType = 5) (low : c.target p ≤ maxLba)
      (below : Ends disk (c.target p) (partitionTable disk (c.target p)) (c.follow p) none) :
      Ends disk lba (p :: rest) c none
  | extended {lba p rest c mid after} (isExtended : p.fsType = 5) (low : c.target p ≤ maxLba)
      (below : Ends disk (c.target p) (partitionTable disk (c.target p)) (c.follow p) (some mid))
      (others : Ends disk lba rest mid after) : Ends disk lba (p :: rest) c after

/-! ### One entry of the loop -/

namespace Scan

def counts (s : Scan) : Counts := ⟨s.extLbaBase, s.pNo, s.lNo⟩

/-- The globals with which the table below an extended entry is read. -/
def follow (s : Scan) (p : PartitionTableEntry) : Scan :=
  { s with extLbaBase := if s.extLbaBase ≠ 0 then s.extLbaBase else p.startLba }

def read (s : Scan) (lba : Nat) : Scan := { s with reads := s.reads ++ [lba] }

end Scan

variable {disk : Disk} {hd lba fuel : Nat} {p : PartitionTableEntry} {rest : List PartitionTableEntry}
  {s s' : Scan} {scan : Nat → Scan → Except ScanStop Scan}

theorem partitionScan_low (low : lba ≤ maxLba) :
    partitionScan disk hd (fuel + 1) lba s =
      scanEntries (partitionScan disk hd fuel) hd lba (partitionTable disk lba) (s.read lba) := by
  rw [partitionScan, if_pos low]
  rfl

theorem partitionScan_high (high : maxLba < lba) :
    partitionScan disk hd (fuel + 1) lba s = .error .assertFailed := by
  rw [partitionScan, if_neg (by omega)]

theorem scanEntries_empty (isEmpty : p.fsType = 0) :
    scanEntries scan hd lba (p :: rest) s = scanEntries scan hd lba rest s := by
  rw [scanEntries, if_neg (by rw [isEmpty]; decide), if_neg (by simpa using isEmpty)]

theorem scanEntries_extended (isExtended : p.fsType = 5) :
    scanEntries scan hd lba (p :: rest) s =
      (scan (s.counts.target p) (s.follow p)).bind (scanEntries scan hd lba rest) := by
  rw [scanEntries, if_pos isExtended]
  unfold Counts.target Scan.follow Scan.counts
  by_cases found : s.extLbaBase ≠ 0
  · simp only [if_pos found]
    rfl
  · simp only [if_neg found]
    rfl

theorem scanEntries_primary (isPart : p.isPart) :
    scanEntries scan hd 0 (p :: rest) s = (recordPrim hd 0 p s).bind (scanEntries scan hd 0 rest) := by
  rw [scanEntries, if_neg isPart.2, if_pos isPart.1, if_pos rfl]
  rfl

theorem scanEntries_logical (inExtended : lba ≠ 0) (isPart : p.isPart) :
    scanEntries scan hd lba (p :: rest) s = (recordLogic hd lba p s).bind fun s =>
      if s.lNo ≥ 8 then .ok s else scanEntries scan hd lba rest s := by
  rw [scanEntries, if_neg isPart.2, if_pos isPart.1, if_neg inExtended]
  rfl

theorem recordPrim_few (few : s.pNo + 1 < 4) : recordPrim hd lba p s = .ok (s.addPrim hd lba p) := by
  unfold recordPrim
  rw [if_pos (by omega)]
  exact if_pos few

theorem recordPrim_fourth (isFourth : s.pNo + 1 = 4) :
    recordPrim hd lba p s = .error .assertFailed := by
  unfold recordPrim
  rw [if_pos (by omega)]
  apply if_neg
  show ¬ s.pNo + 1 < 4
  omega

theorem recordLogic_few (few : s.lNo < 8) : recordLogic hd lba p s = .ok (s.addLogic hd lba p) :=
  if_pos few

/-! ### The scan follows the reading -/

/-- A scan that ends as the reading does. -/
def EndsAs (after : Option Counts) (result : Except ScanStop Scan) : Prop :=
  match after with
  | some c => ∃ s, result = .ok s ∧ s.counts = c
  | none => result = .error .assertFailed

theorem scan_of_ends (hd : Nat) {entries : List PartitionTableEntry} {c : Counts} {after : Option Counts}
    (ends : Ends disk lba entries c after) :
    ∃ depth, ∀ fuel ≥ depth, ∀ s : Scan, s.counts = c →
      EndsAs after (scanEntries (partitionScan disk hd fuel) hd lba entries s) := by
  induction ends with
  | nil => exact ⟨0, fun fuel _ s isCounts => ⟨s, rfl, isCounts⟩⟩
  | empty isEmpty _ inductionHypothesis =>
      obtain ⟨depth, scanned⟩ := inductionHypothesis
      refine ⟨depth, fun fuel enough s isCounts => ?_⟩
      rw [scanEntries_empty isEmpty]
      exact scanned fuel enough s isCounts
  | @primary p rest c after isPart few _ inductionHypothesis =>
      obtain ⟨depth, scanned⟩ := inductionHypothesis
      refine ⟨depth, fun fuel enough s isCounts => ?_⟩
      subst isCounts
      rw [scanEntries_primary isPart, recordPrim_few few]
      exact scanned fuel enough (s.addPrim hd 0 p) rfl
  | fourth isPart isFourth =>
      refine ⟨0, fun fuel _ s isCounts => ?_⟩
      subst isCounts
      rw [scanEntries_primary isPart, recordPrim_fourth isFourth]
      rfl
  | @logical lba p rest c after inExtended isPart few _ inductionHypothesis =>
      obtain ⟨depth, scanned⟩ := inductionHypothesis
      refine ⟨depth, fun fuel enough s isCounts => ?_⟩
      subst isCounts
      have room : ¬ (s.addLogic hd lba p).lNo ≥ 8 := Nat.not_le.mpr few
      rw [scanEntries_logical inExtended isPart, recordLogic_few (Nat.lt_of_succ_lt few)]
      show EndsAs after (if (s.addLogic hd lba p).lNo ≥ 8 then _ else _)
      rw [if_neg room]
      exact scanned fuel enough (s.addLogic hd lba p) rfl
  | @eighth lba p rest c inExtended isPart isEighth =>
      refine ⟨0, fun fuel _ s isCounts => ⟨s.addLogic hd lba p, ?_, by rw [← isCounts]; rfl⟩⟩
      subst isCounts
      have full : (s.addLogic hd lba p).lNo ≥ 8 := Nat.le_of_eq isEighth.symm
      rw [scanEntries_logical inExtended isPart, recordLogic_few (Nat.lt_of_succ_le isEighth.le)]
      exact if_pos full
  | beyond isExtended high =>
      refine ⟨1, fun fuel enough s isCounts => ?_⟩
      subst isCounts
      obtain ⟨left, rfl⟩ := Nat.exists_eq_add_of_le' enough
      rw [scanEntries_extended isExtended, partitionScan_high high]
      rfl
  | @stopped lba p rest c isExtended low _ inductionHypothesis =>
      obtain ⟨depth, scanned⟩ := inductionHypothesis
      refine ⟨depth + 1, fun fuel enough s isCounts => ?_⟩
      subst isCounts
      obtain ⟨left, rfl⟩ := Nat.exists_eq_add_of_le' (Nat.le_trans (Nat.le_add_left 1 depth) enough)
      have stop := scanned left (by omega) ((s.follow p).read (s.counts.target p)) rfl
      have isStop : scanEntries (partitionScan disk hd left) hd _ _ _ = _ := stop
      rw [scanEntries_extended isExtended, partitionScan_low low, isStop]
      rfl
  | @extended lba p rest c mid after isExtended low _ _ below others =>
      obtain ⟨depth, scanned⟩ := below
      obtain ⟨depth', scanned'⟩ := others
      refine ⟨depth + depth' + 1, fun fuel enough s isCounts => ?_⟩
      subst isCounts
      obtain ⟨left, rfl⟩ := Nat.exists_eq_add_of_le' (Nat.le_trans (Nat.le_add_left 1 _) enough)
      obtain ⟨s', isResult, isCounts'⟩ :=
        scanned left (by omega) ((s.follow p).read (s.counts.target p)) rfl
      rw [scanEntries_extended isExtended, partitionScan_low low, isResult]
      exact scanned' (left + 1) (by omega) s' isCounts'

/-- A scan that returns or stops at an `ASSERT`, with every index in its array. -/
def Contained (result : Except ScanStop Scan) : Prop :=
  result ≠ .error .outOfFuel ∧ result ≠ .error .outside

theorem EndsAs.contained {after : Option Counts} {result : Except ScanStop Scan}
    (ends : EndsAs after result) : Contained result := by
  unfold Contained
  cases after with
  | none =>
      have isStop : result = .error .assertFailed := ends
      simp [isStop]
  | some c =>
      obtain ⟨s, rfl, _⟩ := ends
      simp

theorem Contained.of_bind {result : Except ScanStop Scan} {next : Scan → Except ScanStop Scan}
    (contained : Contained (result.bind next)) : Contained result := by
  refine ⟨fun isError => contained.1 ?_, fun isError => contained.2 ?_⟩
  · rw [isError]
    rfl
  · rw [isError]
    rfl

/-- What is known of a scan with less fuel. -/
def ReadAs (disk : Disk) (hd fuel : Nat) : Prop :=
  ∀ lba s, Contained (partitionScan disk hd fuel lba s) →
    (maxLba < lba ∧ partitionScan disk hd fuel lba s = .error .assertFailed) ∨
      lba ≤ maxLba ∧ ∃ after, Ends disk lba (partitionTable disk lba) s.counts after ∧
        EndsAs after (partitionScan disk hd fuel lba s)

theorem ends_of_scanEntries (known : ReadAs disk hd fuel) (entries : List PartitionTableEntry) :
    ∀ s, Contained (scanEntries (partitionScan disk hd fuel) hd lba entries s) →
      ∃ after, Ends disk lba entries s.counts after ∧
        EndsAs after (scanEntries (partitionScan disk hd fuel) hd lba entries s) := by
  induction entries with
  | nil => exact fun s _ => ⟨some s.counts, .nil, s, rfl, rfl⟩
  | cons p rest inductionHypothesis =>
      intro s contained
      by_cases isEmpty : p.fsType = 0
      · rw [scanEntries_empty isEmpty] at contained ⊢
        obtain ⟨after, others, isResult⟩ := inductionHypothesis s contained
        exact ⟨after, .empty isEmpty others, isResult⟩
      by_cases isExtended : p.fsType = 5
      · rw [scanEntries_extended isExtended] at contained ⊢
        rcases known _ _ contained.of_bind with ⟨high, isStop⟩ | ⟨low, mid, below, isBelow⟩
        · rw [isStop]
          exact ⟨none, .beyond isExtended high, rfl⟩
        · cases mid with
          | none =>
              have isStop : partitionScan disk hd fuel _ _ = _ := isBelow
              rw [isStop]
              exact ⟨none, .stopped isExtended low below, rfl⟩
          | some c =>
              obtain ⟨s', isResult, isCounts⟩ := isBelow
              rw [isResult] at contained ⊢
              obtain ⟨after, others, isEnd⟩ := inductionHypothesis s' contained
              rw [isCounts] at others
              exact ⟨after, .extended isExtended low below others, isEnd⟩
      have isPart : p.isPart := ⟨isEmpty, isExtended⟩
      by_cases inMbr : lba = 0
      · subst inMbr
        rw [scanEntries_primary isPart] at contained ⊢
        by_cases few : s.pNo + 1 < 4
        · rw [recordPrim_few few] at contained ⊢
          obtain ⟨after, others, isEnd⟩ := inductionHypothesis _ contained
          exact ⟨after, .primary isPart few others, isEnd⟩
        · by_cases isFourth : s.pNo + 1 = 4
          · rw [recordPrim_fourth isFourth]
            exact ⟨none, .fourth isPart isFourth, rfl⟩
          · have isOutside : recordPrim hd 0 p s = .error .outside := if_neg (by omega)
            exact absurd isOutside contained.of_bind.2
      · rw [scanEntries_logical inMbr isPart] at contained ⊢
        by_cases few : s.lNo < 8
        · rw [recordLogic_few few] at contained ⊢
          by_cases full : (s.addLogic hd lba p).lNo ≥ 8
          · have isEighth : s.counts.logics + 1 = 8 := Nat.le_antisymm few full
            refine ⟨_, .eighth inMbr isPart isEighth, s.addLogic hd lba p, if_pos full, rfl⟩
          · have skip : ∀ result : Except ScanStop Scan,
                (if (s.addLogic hd lba p).lNo ≥ 8 then .ok (s.addLogic hd lba p) else result) = result :=
              fun _ => if_neg full
            simp only [Except.bind, skip] at contained ⊢
            obtain ⟨after, others, isEnd⟩ := inductionHypothesis _ contained
            exact ⟨after, .logical inMbr isPart (Nat.not_le.mp full) others, isEnd⟩
        · have isOutside : recordLogic hd lba p s = .error .outside := if_neg few
          exact absurd isOutside contained.of_bind.2

theorem readAs (fuel : Nat) : ReadAs disk hd fuel := by
  induction fuel with
  | zero => exact fun lba s contained => absurd rfl contained.1
  | succ fuel inductionHypothesis =>
      intro lba s contained
      by_cases low : lba ≤ maxLba
      · rw [partitionScan_low low] at contained ⊢
        exact .inr ⟨low, ends_of_scanEntries inductionHypothesis _ (s.read lba) contained⟩
      · exact .inl ⟨Nat.not_le.mp low, partitionScan_high (Nat.not_le.mp low)⟩

/-! ### When the scan of a disk ends -/

/-- A disk is scanned to an end, with every index in its array, exactly when its tables
are finitely many and hold no ninth logical partition. -/
theorem partitionScan_contained_iff (disk : Disk) (hd extLbaBase : Nat) (partitionList : List PartTag) :
    (∃ depth, ∀ fuel ≥ depth,
        Contained (partitionScan disk hd fuel 0 (scanStart extLbaBase partitionList))) ↔
      ∃ after, Ends disk 0 (partitionTable disk 0) ⟨extLbaBase, 0, 0⟩ after := by
  have mbr : (0 : Nat) ≤ maxLba := Nat.zero_le _
  constructor
  · rintro ⟨depth, contained⟩
    rcases readAs depth 0 _ (contained depth (Nat.le_refl _)) with ⟨high, _⟩ | ⟨_, after, ends, _⟩
    · exact absurd high (Nat.not_lt.mpr mbr)
    · exact ⟨after, ends⟩
  · rintro ⟨after, ends⟩
    obtain ⟨depth, scanned⟩ := scan_of_ends hd ends
    refine ⟨depth + 1, fun fuel enough => ?_⟩
    obtain ⟨left, rfl⟩ := Nat.exists_eq_add_of_le' (Nat.le_trans (Nat.le_add_left 1 depth) enough)
    rw [partitionScan_low mbr]
    exact (scanned left (by omega) _ rfl).contained

/-! ### A table that leads back to itself -/

/-- The extended partition starts at sector 1, and its table links to offset 0. -/
def cyclicDisk : Disk := fun lba off =>
  if lba ≤ 1 ∧ off = 450 then 5 else if lba = 0 ∧ off = 454 then 1 else 0

theorem cyclicDisk_mbr :
    partitionTable cyclicDisk 0 = ⟨5, 1, 0⟩ :: List.replicate 3 ⟨0, 0, 0⟩ := by decide +kernel

theorem cyclicDisk_table :
    partitionTable cyclicDisk 1 = ⟨5, 0, 0⟩ :: List.replicate 3 ⟨0, 0, 0⟩ := by decide +kernel

theorem cyclicDisk_outOfFuel (fuel : Nat) :
    ∀ s : Scan, s.extLbaBase = 1 → partitionScan cyclicDisk 1 fuel 1 s = .error .outOfFuel := by
  induction fuel with
  | zero => exact fun _ _ => rfl
  | succ fuel inductionHypothesis =>
      intro s isBase
      have isTarget : (s.read 1).counts.target ⟨5, 0, 0⟩ = 1 := by
        simp [Counts.target, Scan.counts, Scan.read, isBase, addLba]
      have below := inductionHypothesis ((s.read 1).follow ⟨5, 0, 0⟩)
        (by simp [Scan.follow, Scan.read, isBase])
      rw [partitionScan_low (by decide), cyclicDisk_table, scanEntries_extended rfl, isTarget, below]
      rfl

theorem cyclic_table_never_ends : ¬ ∃ depth, ∀ fuel ≥ depth,
    Contained (partitionScan cyclicDisk 1 fuel 0 (scanStart 0 [])) := by
  rintro ⟨depth, contained⟩
  apply (contained (depth + 1) (Nat.le_succ depth)).1
  have below := cyclicDisk_outOfFuel depth (((scanStart 0 []).read 0).follow ⟨5, 1, 0⟩) rfl
  have isTarget : ((scanStart 0 []).read 0).counts.target ⟨5, 1, 0⟩ = 1 := rfl
  rw [partitionScan_low (Nat.zero_le _), cyclicDisk_mbr, scanEntries_extended rfl, isTarget, below]
  rfl

end ZyOs.Device
