import ZyOs.Device.PartitionEnds

/-!
Contract: what `ide_init` records of disks with well-formed tables.

A `Layout` is the chain of tables in the extended partition of one disk, read with
the start of that partition as the base of all links. The scan follows it while
`ext_lba_base` is 0 at the start of the disk, and nothing sets it back to 0 after a
disk with an extended partition. It records at most three primary partitions,
because `ASSERT(p_no < 4)` stands behind the increment.
-/

namespace ZyOs.Device

open Fs

/-! ### The chain of tables -/

/-- What is found in an extended partition: the sector of a table, or a partition with
its start and its size. -/
inductive Item where
  | table (lba : Nat)
  | part (startLba secCnt : Nat)
deriving DecidableEq

/-- The tables below these entries, and the partitions they list, in the order of
reading; a table has one link at most. -/
inductive Listed (disk : Disk) (base : Nat) : (lba : Nat) → List PartitionTableEntry → List Item → Prop where
  | nil {lba} : Listed disk base lba [] []
  | empty {lba p rest items} (isEmpty : p.fsType = 0) (others : Listed disk base lba rest items) :
      Listed disk base lba (p :: rest) items
  | logical {lba p rest items} (isPart : p.isPart) (others : Listed disk base lba rest items) :
      Listed disk base lba (p :: rest) (.part (addLba lba p.startLba) p.secCnt :: items)
  | link {lba p rest below items} (isExtended : p.fsType = 5) (onlyLink : ∀ other ∈ rest, other.fsType ≠ 5)
      (notMbr : addLba base p.startLba ≠ 0)
      (isBelow : Listed disk base (addLba base p.startLba)
        (partitionTable disk (addLba base p.startLba)) below)
      (others : Listed disk base lba rest items) :
      Listed disk base lba (p :: rest) (.table (addLba base p.startLba) :: (below ++ items))

def tablesOf : List Item → List Nat
  | [] => []
  | .table lba :: items => lba :: tablesOf items
  | .part _ _ :: items => tablesOf items

def partsOf : List Item → List (Nat × Nat)
  | [] => []
  | .table _ :: items => partsOf items
  | .part startLba secCnt :: items => (startLba, secCnt) :: partsOf items

/-- The items up to this number of partitions. -/
def throughPart : Nat → List Item → List Item
  | 0, _ => []
  | _ + 1, [] => []
  | n + 1, .table lba :: items => .table lba :: throughPart (n + 1) items
  | n + 1, .part startLba secCnt :: items => .part startLba secCnt :: throughPart n items

/-- The primary partitions of a disk. -/
def primaries (disk : Disk) : List PartitionTableEntry :=
  (partitionTable disk 0).filter fun p => p.isPart

/-- The items of the extended partition, which has one entry in the boot sector at
most. -/
inductive Extended (disk : Disk) : List Item → Prop where
  | none (isNone : (partitionTable disk 0).filter (fun p => p.fsType = 5) = []) : Extended disk []
  | one {p below} (isOne : (partitionTable disk 0).filter (fun p => p.fsType = 5) = [p])
      (notMbr : p.startLba ≠ 0)
      (isBelow : Listed disk p.startLba p.startLba (partitionTable disk p.startLba) below) :
      Extended disk (.table p.startLba :: below)

/-- A well-formed disk. -/
structure Layout (disk : Disk) where
  items : List Item
  extended : Extended disk items
  few : (partsOf items).length ≤ 8

/-- The partitions of a list in an array of `struct disk`. -/
def entered (hd first : Nat) (parts : List (Nat × Nat)) : Nat → Option Partition := fun idx =>
  parts[idx]?.map fun part => ⟨part.1, part.2, hd, first + idx⟩

/-- A disk of the list that `ide_init` scans. -/
structure ScannedDisk where
  hd : Nat
  disk : Disk
  layout : Layout disk

/-- The scan has recorded the disk's own partitions, from the disk's own tables. -/
structure Recorded (d : ScannedDisk) (s : Scan) : Prop where
  prims : s.primParts = entered d.hd 1 ((primaries d.disk).map fun p => (p.startLba, p.secCnt))
  logics : s.logicParts = entered d.hd 5 (partsOf d.layout.items)
  reads : s.reads <+: 0 :: tablesOf d.layout.items

/-- No `ASSERT` is in the way of a scan with the right base. -/
structure ScannedDisk.Fits (d : ScannedDisk) : Prop where
  prims : (primaries d.disk).length < 4
  tables : ∀ lba ∈ tablesOf (throughPart 8 d.layout.items), lba ≤ maxLba

/-! ### Reading a chain -/

namespace Scan

/-- What the scan does with an item. -/
def note (hd : Nat) (s : Scan) : Item → Scan
  | .table lba => s.read lba
  | .part startLba secCnt =>
      { s with
        logicParts := Function.update s.logicParts s.lNo (some ⟨startLba, secCnt, hd, s.lNo + 5⟩)
        partitionList := s.partitionList ++ [.logic hd s.lNo]
        lNo := s.lNo + 1 }

def notes (hd : Nat) (s : Scan) (items : List Item) : Scan := items.foldl (note hd) s

end Scan

variable {disk : Disk} {hd base lba fuel : Nat} {p : PartitionTableEntry}
  {entries rest : List PartitionTableEntry} {items below : List Item} {s s' : Scan}
  {scan : Nat → Scan → Except ScanStop Scan}

theorem Scan.notes_append (s : Scan) (items items' : List Item) :
    s.notes hd (items ++ items') = (s.notes hd items).notes hd items' := List.foldl_append

theorem Scan.notes_cons (s : Scan) (item : Item) (items : List Item) :
    s.notes hd (item :: items) = (s.note hd item).notes hd items := rfl

theorem Scan.addLogic_eq (s : Scan) (p : PartitionTableEntry) :
    s.addLogic hd lba p = s.note hd (.part (addLba lba p.startLba) p.secCnt) := rfl

theorem Scan.notes_extLbaBase (items : List Item) :
    ∀ s : Scan, (s.notes hd items).extLbaBase = s.extLbaBase := by
  induction items with
  | nil => exact fun _ => rfl
  | cons item items inductionHypothesis =>
      intro s
      rw [Scan.notes_cons, inductionHypothesis]
      cases item <;> rfl

theorem Scan.notes_lNo (items : List Item) :
    ∀ s : Scan, (s.notes hd items).lNo = s.lNo + (partsOf items).length := by
  induction items with
  | nil => exact fun _ => rfl
  | cons item items inductionHypothesis =>
      intro s
      rw [Scan.notes_cons, inductionHypothesis]
      cases item with
      | table lba => rfl
      | part startLba secCnt =>
          show s.lNo + 1 + _ = s.lNo + ((partsOf items).length + 1)
          omega

@[simp]
theorem throughPart_nil (n : Nat) : throughPart n [] = [] := by
  cases n <;> rfl

theorem throughPart_append (items' : List Item) (items : List Item) :
    ∀ n, throughPart n (items ++ items') =
      throughPart n items ++ throughPart (n - (partsOf items).length) items' := by
  induction items with
  | nil => simp [partsOf]
  | cons item items inductionHypothesis =>
      intro n
      cases n with
      | zero => simp [throughPart]
      | succ n =>
          cases item with
          | table lba =>
              simp only [List.cons_append, throughPart, partsOf]
              rw [inductionHypothesis (n + 1)]
          | part startLba secCnt =>
              simp only [List.cons_append, throughPart, partsOf, List.length_cons,
                Nat.add_sub_add_right]
              rw [inductionHypothesis n]

theorem partsOf_throughPart (items : List Item) :
    ∀ n, (partsOf items).length ≤ n → partsOf (throughPart n items) = partsOf items := by
  induction items with
  | nil => simp
  | cons item items inductionHypothesis =>
      intro n few
      cases n with
      | zero => exact (List.length_eq_zero_iff.mp (Nat.le_zero.mp few)).symm
      | succ n =>
          cases item with
          | table lba => exact inductionHypothesis (n + 1) few
          | part startLba secCnt =>
              simp only [throughPart, partsOf, List.length_cons, Nat.add_le_add_iff_right] at few ⊢
              rw [inductionHypothesis n few]

theorem tablesOf_append (items items' : List Item) :
    tablesOf (items ++ items') = tablesOf items ++ tablesOf items' := by
  induction items with
  | nil => rfl
  | cons item items inductionHypothesis =>
      cases item <;> simp [tablesOf, inductionHypothesis]

theorem partsOf_append (items items' : List Item) :
    partsOf (items ++ items') = partsOf items ++ partsOf items' := by
  induction items with
  | nil => rfl
  | cons item items inductionHypothesis =>
      cases item <;> simp [partsOf, inductionHypothesis]

theorem Listed.noTables (listed : Listed disk base lba entries items) :
    (∀ p ∈ entries, p.fsType ≠ 5) → tablesOf items = [] := by
  induction listed with
  | nil => exact fun _ => rfl
  | empty _ _ inductionHypothesis =>
      exact fun noLink => inductionHypothesis fun p mem => noLink p (List.mem_cons_of_mem _ mem)
  | logical _ _ inductionHypothesis =>
      exact fun noLink => inductionHypothesis fun p mem => noLink p (List.mem_cons_of_mem _ mem)
  | link isExtended => exact fun noLink => absurd isExtended (noLink _ List.mem_cons_self)

/-- The result of reading items, with an `ASSERT` at every table. -/
def follow (hd : Nat) (items : List Item) (s : Scan) : Except ScanStop Scan :=
  if ∀ lba ∈ tablesOf items, lba ≤ maxLba then .ok (s.notes hd items) else .error .assertFailed

theorem follow_nil : follow hd [] s = .ok s := by
  apply if_pos
  simp [tablesOf]

theorem follow_part (startLba secCnt : Nat) (items : List Item) :
    follow hd (.part startLba secCnt :: items) s = follow hd items (s.note hd (.part startLba secCnt)) :=
  rfl

theorem follow_table (low : lba ≤ maxLba) (items : List Item) :
    follow hd (.table lba :: items) s = follow hd items (s.read lba) := by
  unfold follow
  simp only [tablesOf, List.forall_mem_cons, low, true_and]
  rfl

theorem follow_high (high : maxLba < lba) (items : List Item) :
    follow hd (.table lba :: items) s = .error .assertFailed := by
  unfold follow
  apply if_neg
  intro low
  exact absurd (low lba List.mem_cons_self) (Nat.not_le.mpr high)

theorem follow_append (items items' : List Item) :
    follow hd (items ++ items') s = (follow hd items s).bind (follow hd items') := by
  unfold follow
  rw [tablesOf_append, Scan.notes_append]
  by_cases low : ∀ lba ∈ tablesOf items, lba ≤ maxLba
  · simp only [List.forall_mem_append, if_pos low]
    simp only [Except.bind, eq_true low, true_and]
  · simp only [List.forall_mem_append, if_neg low]
    exact if_neg fun both => low both.1

theorem follow_eq_ok (isResult : follow hd items s = .ok s') :
    (∀ lba ∈ tablesOf items, lba ≤ maxLba) ∧ s' = s.notes hd items := by
  unfold follow at isResult
  by_cases low : ∀ lba ∈ tablesOf items, lba ≤ maxLba
  · rw [if_pos low] at isResult
    exact ⟨low, (Except.ok.inj isResult).symm⟩
  · rw [if_neg low] at isResult
    cases isResult

theorem addLba_comm (base off : Nat) : addLba base off = addLba off base := by
  unfold addLba
  rw [Nat.add_comm]

/-- With the right base, the scan of a table reads what the chain lists, up to the
eighth partition. -/
theorem scan_listed (hd : Nat) (listed : Listed disk base lba entries items) (found : base ≠ 0) :
    lba ≠ 0 → ∃ depth, ∀ fuel ≥ depth, ∀ s : Scan, s.extLbaBase = base →
      s.lNo + (partsOf items).length ≤ 8 → s.lNo < 8 ∨ tablesOf items = [] →
      scanEntries (partitionScan disk hd fuel) hd lba entries s =
        follow hd (throughPart (8 - s.lNo) items) s := by
  induction listed with
  | nil =>
      refine fun _ => ⟨0, fun fuel _ s _ _ _ => ?_⟩
      rw [throughPart_nil]
      rfl
  | empty isEmpty _ inductionHypothesis =>
      intro notMbr
      obtain ⟨depth, scanned⟩ := inductionHypothesis notMbr
      refine ⟨depth, fun fuel enough s isBase few room => ?_⟩
      rw [scanEntries_empty isEmpty]
      exact scanned fuel enough s isBase few room
  | @logical lba p rest items isPart _ inductionHypothesis =>
      intro notMbr
      obtain ⟨depth, scanned⟩ := inductionHypothesis notMbr
      refine ⟨depth, fun fuel enough s isBase few room => ?_⟩
      have few : s.lNo + ((partsOf items).length + 1) ≤ 8 := few
      obtain ⟨left, isLeft⟩ : ∃ left, 8 - s.lNo = left + 1 := ⟨7 - s.lNo, by omega⟩
      have lNo : (s.addLogic hd lba p).lNo = s.lNo + 1 := rfl
      rw [scanEntries_logical notMbr isPart, recordLogic_few (by omega), isLeft, throughPart,
        follow_part, ← Scan.addLogic_eq]
      show (if (s.addLogic hd lba p).lNo ≥ 8 then _ else _) = _
      by_cases full : (s.addLogic hd lba p).lNo ≥ 8
      · have isZero : left = 0 := by omega
        rw [if_pos full, isZero]
        rw [throughPart, follow_nil]
      · rw [if_neg full]
        have others := scanned fuel enough (s.addLogic hd lba p) isBase (by omega) (.inl (by omega))
        rwa [lNo, show 8 - (s.lNo + 1) = left by omega] at others
  | @link lba p rest below items isExtended onlyLink notMbr' _ listed belowHypothesis othersHypothesis =>
      intro notMbr
      obtain ⟨depth, scanned⟩ := belowHypothesis notMbr'
      obtain ⟨depth', scanned'⟩ := othersHypothesis notMbr
      refine ⟨depth + depth' + 1, fun fuel enough s isBase few room => ?_⟩
      obtain ⟨fuel, rfl⟩ := Nat.exists_eq_add_of_le' (Nat.le_trans (Nat.le_add_left 1 _) enough)
      have notFull : s.lNo < 8 := room.resolve_right (by simp [tablesOf])
      obtain ⟨left, isLeft⟩ : ∃ left, 8 - s.lNo = left + 1 := ⟨7 - s.lNo, by omega⟩
      have count : s.lNo + ((partsOf below).length + (partsOf items).length) ≤ 8 := by
        rwa [partsOf, partsOf_append, List.length_append] at few
      have isTarget : s.counts.target p = addLba base p.startLba := by
        unfold Counts.target Scan.counts
        rw [isBase, if_pos found, addLba_comm]
      have isFollow : s.follow p = s := by
        unfold Scan.follow
        rw [if_pos (by rwa [isBase])]
      rw [scanEntries_extended isExtended, isTarget, isFollow, isLeft, throughPart, throughPart_append,
        ← isLeft]
      by_cases low : addLba base p.startLba ≤ maxLba
      · have fewBelow : s.lNo + (partsOf below).length ≤ 8 := by omega
        have isBelow := scanned fuel (by omega) (s.read (addLba base p.startLba)) isBase fewBelow
          (.inl notFull)
        rw [partitionScan_low low, follow_table low, follow_append, isBelow]
        show (follow hd (throughPart (8 - s.lNo) below) (s.read (addLba base p.startLba))).bind _ = _
        cases isResult : follow hd (throughPart (8 - s.lNo) below) (s.read (addLba base p.startLba)) with
        | error stop => rfl
        | ok s' =>
            obtain ⟨_, isNotes⟩ := follow_eq_ok isResult
            have isBase' : s'.extLbaBase = base := by
              rw [isNotes, Scan.notes_extLbaBase]
              exact isBase
            have lNo : s'.lNo = s.lNo + (partsOf below).length := by
              rw [isNotes, Scan.notes_lNo, partsOf_throughPart below _ (by omega)]
              rfl
            have others := scanned' (fuel + 1) (by omega) s' isBase' (by omega)
              (.inr (listed.noTables onlyLink))
            rwa [lNo, Nat.sub_add_eq] at others
      · rw [partitionScan_high (Nat.not_le.mp low), follow_high (Nat.not_le.mp low)]
        rfl

/-! ### The boot sector -/

theorem bind_bind_eq {ε α β γ : Type} (result : Except ε α) (next : α → Except ε β)
    (last : β → Except ε γ) :
    (result.bind next).bind last = result.bind fun value => (next value).bind last := by
  cases result <;> rfl

/-- No logical partition is listed in the boot sector, so nothing ends its loop. -/
theorem scanEntries_append (entries' entries : List PartitionTableEntry) :
    ∀ s, scanEntries scan hd 0 (entries ++ entries') s =
      (scanEntries scan hd 0 entries s).bind (scanEntries scan hd 0 entries') := by
  induction entries with
  | nil => exact fun _ => rfl
  | cons p rest inductionHypothesis =>
      intro s
      have others : scanEntries scan hd 0 (rest ++ entries') = fun s =>
          (scanEntries scan hd 0 rest s).bind (scanEntries scan hd 0 entries') :=
        funext inductionHypothesis
      by_cases isEmpty : p.fsType = 0
      · rw [List.cons_append, scanEntries_empty isEmpty, scanEntries_empty isEmpty, others]
      by_cases isExtended : p.fsType = 5
      · rw [List.cons_append, scanEntries_extended isExtended, scanEntries_extended isExtended,
          bind_bind_eq, others]
      · have isPart : p.isPart := ⟨isEmpty, isExtended⟩
        rw [List.cons_append, scanEntries_primary isPart, scanEntries_primary isPart,
          bind_bind_eq, others]

def Scan.addPrims (hd : Nat) (s : Scan) (parts : List PartitionTableEntry) : Scan :=
  parts.foldl (fun s p => s.addPrim hd 0 p) s

/-- Entries of the boot sector that do not lead to other tables. -/
theorem scan_primaries (entries : List PartitionTableEntry) :
    ∀ s : Scan, (∀ p ∈ entries, p.fsType ≠ 5) → s.pNo < 4 →
      scanEntries scan hd 0 entries s =
        if s.pNo + (entries.filter fun p => p.isPart).length < 4 then
          .ok (s.addPrims hd (entries.filter fun p => p.isPart))
        else .error .assertFailed := by
  induction entries with
  | nil =>
      intro s _ few
      exact (if_pos few).symm
  | cons p rest inductionHypothesis =>
      intro s noLink few
      have others := fun s => inductionHypothesis s fun q mem => noLink q (List.mem_cons_of_mem _ mem)
      by_cases isEmpty : p.fsType = 0
      · rw [scanEntries_empty isEmpty, others s few, List.filter_cons_of_neg]
        simp [PartitionTableEntry.isPart, isEmpty]
      · have isPart : p.isPart := ⟨isEmpty, noLink p List.mem_cons_self⟩
        have isKept : (p :: rest).filter (fun p => p.isPart) = p :: rest.filter fun p => p.isPart :=
          List.filter_cons_of_pos (by simpa using isPart)
        rw [scanEntries_primary isPart, isKept, List.length_cons]
        by_cases room : s.pNo + 1 < 4
        · rw [recordPrim_few room]
          show scanEntries scan hd 0 rest (s.addPrim hd 0 p) = _
          rw [others (s.addPrim hd 0 p) room]
          show (if s.pNo + 1 + _ < 4 then _ else _) = _
          rw [Nat.add_right_comm s.pNo 1, ← Nat.add_assoc]
          rfl
        · rw [recordPrim_fourth (by omega), if_neg (by omega)]
          rfl

theorem word_lt (buf : Buf) (off : Nat) : word buf off < 2 ^ 32 := by
  have first := (buf off).toNat_lt
  have second := (buf (off + 1)).toNat_lt
  have third := (buf (off + 2)).toNat_lt
  have fourth := (buf (off + 3)).toNat_lt
  unfold word
  omega

theorem startLba_lt {p : PartitionTableEntry} (mem : p ∈ partitionTable disk lba) :
    p.startLba < 2 ^ 32 := by
  obtain ⟨partIdx, _, rfl⟩ := List.mem_map.mp mem
  exact word_lt _ _

/-! ### What a scan holds -/

/-- The partitions recorded so far, the sectors read, and the base. -/
structure Held (hd : Nat) (prims logics : List (Nat × Nat)) (reads : List Nat) (base : Nat)
    (s : Scan) : Prop where
  pNo : s.pNo = prims.length
  primParts : s.primParts = entered hd 1 prims
  lNo : s.lNo = logics.length
  logicParts : s.logicParts = entered hd 5 logics
  reads : s.reads = reads
  base : s.extLbaBase = base

theorem entered_snoc (hd first : Nat) (parts : List (Nat × Nat)) (part : Nat × Nat) :
    Function.update (entered hd first parts) parts.length
        (some ⟨part.1, part.2, hd, parts.length + first⟩) = entered hd first (parts ++ [part]) := by
  funext idx
  by_cases isLast : idx = parts.length
  · rw [isLast, Function.update_self]
    simp [entered, Nat.add_comm]
  · rw [Function.update_of_ne isLast]
    unfold entered
    by_cases inside : idx < parts.length
    · rw [List.getElem?_append_left inside]
    · rw [List.getElem?_eq_none (by omega),
        List.getElem?_eq_none (by simp only [List.length_append, List.length_singleton]; omega)]

namespace Held

variable {prims logics : List (Nat × Nat)} {reads : List Nat}

theorem start (hd base : Nat) (partitionList : List PartTag) :
    Held hd [] [] [] base (scanStart base partitionList) :=
  ⟨rfl, rfl, rfl, rfl, rfl, rfl⟩

theorem read (held : Held hd prims logics reads base s) (lba : Nat) :
    Held hd prims logics (reads ++ [lba]) base (s.read lba) :=
  ⟨held.pNo, held.primParts, held.lNo, held.logicParts, by rw [← held.reads]; rfl, held.base⟩

theorem addPrim (held : Held hd prims logics reads base s) (small : p.startLba < 2 ^ 32) :
    Held hd (prims ++ [(p.startLba, p.secCnt)]) logics reads base (s.addPrim hd 0 p) where
  pNo := by
    rw [List.length_append, ← held.pNo]
    rfl
  primParts := by
    have sum : addLba 0 p.startLba = p.startLba := by
      unfold addLba
      omega
    rw [← entered_snoc, ← held.primParts, ← held.pNo, ← sum]
    rfl
  lNo := held.lNo
  logicParts := held.logicParts
  reads := held.reads
  base := held.base

theorem addPrims {parts : List PartitionTableEntry} : ∀ {s prims},
    Held hd prims logics reads base s → (∀ p ∈ parts, p.startLba < 2 ^ 32) →
      Held hd (prims ++ parts.map fun p => (p.startLba, p.secCnt)) logics reads base
        (s.addPrims hd parts) := by
  induction parts with
  | nil =>
      intro s prims held _
      rw [List.map_nil, List.append_nil]
      exact held
  | cons p rest inductionHypothesis =>
      intro s prims held small
      have others := inductionHypothesis (held.addPrim (small p List.mem_cons_self))
        fun q mem => small q (List.mem_cons_of_mem _ mem)
      rwa [List.append_assoc] at others

theorem part (held : Held hd prims logics reads base s) (startLba secCnt : Nat) :
    Held hd prims (logics ++ [(startLba, secCnt)]) reads base (s.note hd (.part startLba secCnt)) where
  pNo := held.pNo
  primParts := held.primParts
  lNo := by
    rw [List.length_append, ← held.lNo]
    rfl
  logicParts := by
    rw [← entered_snoc, ← held.logicParts, ← held.lNo]
    rfl
  reads := held.reads
  base := held.base

theorem notes (items : List Item) : ∀ {s logics reads},
    Held hd prims logics reads base s →
      Held hd prims (logics ++ partsOf items) (reads ++ tablesOf items) base (s.notes hd items) := by
  induction items with
  | nil =>
      intro s logics reads held
      rw [partsOf, tablesOf, List.append_nil, List.append_nil]
      exact held
  | cons item items inductionHypothesis =>
      intro s logics reads held
      cases item with
      | table lba =>
          have others := inductionHypothesis (held.read lba)
          rwa [List.append_assoc] at others
      | part startLba secCnt =>
          have others := inductionHypothesis (held.part startLba secCnt)
          rwa [List.append_assoc] at others

theorem follow (held : Held hd prims logics reads 0 s) (p : PartitionTableEntry) :
    Held hd prims logics reads p.startLba (s.follow p) where
  pNo := held.pNo
  primParts := held.primParts
  lNo := held.lNo
  logicParts := held.logicParts
  reads := held.reads
  base := if_neg (not_not.mpr held.base)

end Held

end ZyOs.Device
