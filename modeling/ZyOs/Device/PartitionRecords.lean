import ZyOs.Device.PartitionLayout

/-!
Contract: when the disks of `ide_init` are recorded as their tables have them.

One disk is, when `ext_lba_base` is 0 or the disk has no extended partition, and no
`ASSERT` is in the way. A list of disks is, when that holds of each of them and no
two of them have an extended partition.
-/

namespace ZyOs.Device

open Fs

variable {disk : Disk} {hd base lba fuel : Nat} {p : PartitionTableEntry}
  {items : List Item} {s s' : Scan} {d : ScannedDisk} {partitionList : List PartTag}

/-! ### One disk -/

/-- The boot sector around its extended entry. -/
theorem mbr_split (isOne : (partitionTable disk 0).filter (fun p => p.fsType = 5) = [p]) :
    ∃ front back, partitionTable disk 0 = front ++ p :: back ∧ p.fsType = 5 ∧
      (∀ q ∈ front, q.fsType ≠ 5) ∧ (∀ q ∈ back, q.fsType ≠ 5) ∧
      primaries disk = front.filter (fun p => p.isPart) ++ back.filter fun p => p.isPart := by
  obtain ⟨front, back, isTable, noFront, isExtended, noBack⟩ := List.filter_eq_cons_iff.mp isOne
  have isExtended : p.fsType = 5 := by simpa using isExtended
  have notPart : ¬ p.isPart := fun isPart => isPart.2 isExtended
  refine ⟨front, back, isTable, isExtended, fun q mem => ?_, fun q mem => ?_, ?_⟩
  · simpa using noFront q mem
  · simpa using List.filter_eq_nil_iff.mp noBack q mem
  · unfold primaries
    rw [isTable, List.filter_append, List.filter_cons_of_neg (by simpa using notPart)]

/-- The extended entry of the boot sector, while no base is set. -/
theorem scan_first_link (hd : Nat) {below : List Item} (notMbr : p.startLba ≠ 0)
    (isBelow : Listed disk p.startLba p.startLba (partitionTable disk p.startLba) below)
    (few : (partsOf below).length ≤ 8) :
    ∃ depth, ∀ fuel ≥ depth, ∀ s : Scan, s.extLbaBase = 0 → s.lNo = 0 →
      partitionScan disk hd fuel p.startLba (s.follow p) =
        follow hd (throughPart 8 (.table p.startLba :: below)) (s.follow p) := by
  obtain ⟨depth, scanned⟩ := scan_listed hd isBelow notMbr notMbr
  refine ⟨depth + 1, fun fuel enough s isBase noLogic => ?_⟩
  obtain ⟨fuel, rfl⟩ := Nat.exists_eq_add_of_le' (Nat.le_trans (Nat.le_add_left 1 depth) enough)
  rw [throughPart]
  by_cases low : p.startLba ≤ maxLba
  · have isFound : ((s.follow p).read p.startLba).extLbaBase = p.startLba :=
      if_neg (not_not.mpr isBase)
    have lNo : ((s.follow p).read p.startLba).lNo = 0 := noLogic
    have isRead := scanned fuel (by omega) ((s.follow p).read p.startLba) isFound
      (by rw [lNo]; omega) (.inl (by omega))
    rw [partitionScan_low low, isRead, follow_table low, lNo]
  · rw [partitionScan_high (Nat.not_le.mp low), follow_high (Nat.not_le.mp low)]

theorem throughPart_isPrefix (items : List Item) : ∀ n, throughPart n items <+: items := by
  induction items with
  | nil => simp
  | cons item items inductionHypothesis =>
      intro n
      cases n with
      | zero => exact List.nil_prefix
      | succ n =>
          cases item with
          | table lba => exact List.cons_prefix_cons.mpr ⟨rfl, inductionHypothesis (n + 1)⟩
          | part startLba secCnt => exact List.cons_prefix_cons.mpr ⟨rfl, inductionHypothesis n⟩

theorem tablesOf_isPrefix {items items' : List Item} (isPrefix : items <+: items') :
    tablesOf items <+: tablesOf items' := by
  obtain ⟨others, rfl⟩ := isPrefix
  rw [tablesOf_append]
  exact List.prefix_append _ _

/-- A boot sector without an extended entry. -/
theorem scan_without_extended (isNone : (partitionTable disk 0).filter (fun p => p.fsType = 5) = [])
    (noPrim : s.pNo = 0) :
    partitionScan disk hd (fuel + 1) 0 s =
      if (primaries disk).length < 4 then .ok ((s.read 0).addPrims hd (primaries disk))
      else .error .assertFailed := by
  have noLink : ∀ p ∈ partitionTable disk 0, p.fsType ≠ 5 := fun p mem => by
    simpa using List.filter_eq_nil_iff.mp isNone p mem
  have pNo : (s.read 0).pNo = 0 := noPrim
  rw [partitionScan_low (Nat.zero_le _), scan_primaries _ _ noLink (by omega), pNo, Nat.zero_add]
  rfl

/-- A boot sector with one, while no base is set. -/
theorem scan_with_extended (hd : Nat) {front back : List PartitionTableEntry} {below : List Item}
    (isTable : partitionTable disk 0 = front ++ p :: back) (isExtended : p.fsType = 5)
    (noFront : ∀ q ∈ front, q.fsType ≠ 5) (noBack : ∀ q ∈ back, q.fsType ≠ 5) (notMbr : p.startLba ≠ 0)
    (isBelow : Listed disk p.startLba p.startLba (partitionTable disk p.startLba) below)
    (few : (partsOf below).length ≤ 8) (partitionList : List PartTag) :
    ∃ depth, ∀ fuel ≥ depth, partitionScan disk hd fuel 0 (scanStart 0 partitionList) =
      if (front.filter fun p => p.isPart).length < 4 then
        (follow hd (throughPart 8 (.table p.startLba :: below))
            ((((scanStart 0 partitionList).read 0).addPrims hd
              (front.filter fun p => p.isPart)).follow p)).bind fun s =>
          if (front.filter fun p => p.isPart).length + (back.filter fun p => p.isPart).length < 4 then
            .ok (s.addPrims hd (back.filter fun p => p.isPart))
          else .error .assertFailed
      else .error .assertFailed := by
  obtain ⟨depth, linked⟩ := scan_first_link hd notMbr isBelow few
  refine ⟨depth + 1, fun fuel enough => ?_⟩
  obtain ⟨fuel, rfl⟩ := Nat.exists_eq_add_of_le' (Nat.le_trans (Nat.le_add_left 1 depth) enough)
  have start := (Held.start hd 0 partitionList).read 0
  have smallFront : ∀ q ∈ front.filter (fun p => p.isPart), q.startLba < 2 ^ 32 := fun q mem =>
    startLba_lt (by rw [isTable]; exact List.mem_append_left _ (List.mem_of_mem_filter mem))
  have held := start.addPrims smallFront
  rw [partitionScan_low (Nat.zero_le _), isTable, scanEntries_append,
    scan_primaries _ _ noFront (by rw [start.pNo]; decide), start.pNo]
  simp only [List.length_nil, Nat.zero_add]
  by_cases room : (front.filter fun p => p.isPart).length < 4
  · rw [if_pos room, if_pos room]
    have isTarget : (((scanStart 0 partitionList).read 0).addPrims hd
        (front.filter fun p => p.isPart)).counts.target p = p.startLba :=
      if_neg (not_not.mpr held.base)
    show scanEntries _ hd 0 (p :: back) _ = _
    rw [scanEntries_extended isExtended, isTarget,
      linked fuel (by omega) _ held.base (by rw [held.lNo]; rfl)]
    cases isResult : follow hd (throughPart 8 (.table p.startLba :: below))
      ((((scanStart 0 partitionList).read 0).addPrims hd
        (front.filter fun p => p.isPart)).follow p) with
    | error stop => rfl
    | ok s =>
        obtain ⟨_, isNotes⟩ := follow_eq_ok isResult
        have pNo : s.pNo = (front.filter fun p => p.isPart).length := by
          rw [isNotes, ((held.follow p).notes _).pNo, List.nil_append, List.length_map]
        show scanEntries _ hd 0 back s = _
        rw [scan_primaries _ _ noBack (by omega), pNo]
        rfl
  · rw [if_neg room, if_neg room]
    rfl

/-- A base of its own, or none needed: the scan records the disk, or an `ASSERT` fails. -/
theorem scan_own_base (d : ScannedDisk) (partitionList : List PartTag)
    (own : base = 0 ∨ d.layout.items = []) (small : base < 2 ^ 32) :
    ∃ depth s, (∀ fuel ≥ depth, d.Fits →
        partitionScan d.disk d.hd fuel 0 (scanStart base partitionList) = .ok s) ∧
      (∀ fuel ≥ depth, ¬ d.Fits →
        partitionScan d.disk d.hd fuel 0 (scanStart base partitionList) = .error .assertFailed) ∧
      Recorded d s ∧ s.extLbaBase < 2 ^ 32 ∧
      (s.extLbaBase = 0 ↔ base = 0 ∧ d.layout.items = []) := by
  obtain ⟨hd, disk, ⟨items, extended, few⟩⟩ := d
  have start := (Held.start hd base partitionList).read 0
  have smallParts : ∀ q ∈ primaries disk, q.startLba < 2 ^ 32 := fun q mem =>
    startLba_lt (List.mem_of_mem_filter mem)
  cases extended with
  | none isNone =>
      have held := start.addPrims smallParts
      refine ⟨1, _, fun fuel enough fits => ?_, fun fuel enough notFits => ?_,
        ⟨held.primParts, held.logicParts, ?_⟩, ?_, ?_⟩
      · obtain ⟨fuel, rfl⟩ := Nat.exists_eq_add_of_le' enough
        rw [scan_without_extended isNone rfl, if_pos fits.prims]
      · obtain ⟨fuel, rfl⟩ := Nat.exists_eq_add_of_le' enough
        rw [scan_without_extended isNone rfl, if_neg fun room => notFits ⟨room, by simp [tablesOf]⟩]
      · rw [held.reads]
        exact List.prefix_refl _
      · rwa [held.base]
      · rw [held.base]
        simp
  | @one p below isOne notMbr isBelow =>
      have isZero : base = 0 := own.resolve_right (by simp)
      subst isZero
      obtain ⟨front, back, isTable, isExtended, noFront, noBack, isParts⟩ := mbr_split isOne
      obtain ⟨depth, scanned⟩ := scan_with_extended hd isTable isExtended noFront noBack notMbr
        isBelow few partitionList
      have count : (primaries disk).length =
          (front.filter fun p => p.isPart).length + (back.filter fun p => p.isPart).length := by
        rw [isParts, List.length_append]
      rw [isParts] at smallParts
      have held := (((start.addPrims fun q mem => smallParts q (List.mem_append_left _ mem)).follow p).notes
        (throughPart 8 (.table p.startLba :: below))).addPrims
          fun q mem => smallParts q (List.mem_append_right _ mem)
      refine ⟨depth, (((((scanStart 0 partitionList).read 0).addPrims hd
          (front.filter fun p => p.isPart)).follow p).notes hd
            (throughPart 8 (.table p.startLba :: below))).addPrims hd (back.filter fun p => p.isPart),
        fun fuel enough fits => ?_, fun fuel enough notFits => ?_, ⟨?_, ?_, ?_⟩, ?_, ?_⟩
      · have fewPrims : (primaries disk).length < 4 := fits.prims
        rw [scanned fuel enough, if_pos (by omega)]
        unfold follow
        rw [if_pos fits.tables]
        exact if_pos (by omega)
      · rw [scanned fuel enough]
        by_cases room : (front.filter fun p => p.isPart).length < 4
        · rw [if_pos room]
          unfold follow
          by_cases low : ∀ lba ∈ tablesOf (throughPart 8 (.table p.startLba :: below)), lba ≤ maxLba
          · rw [if_pos low]
            exact if_neg fun fewPrims => notFits ⟨show (primaries disk).length < 4 by omega, low⟩
          · rw [if_neg low]
            rfl
        · rw [if_neg room]
      · rw [held.primParts, isParts, List.map_append]
        rfl
      · rw [held.logicParts, partsOf_throughPart _ _ few]
        rfl
      · rw [held.reads]
        exact List.cons_prefix_cons.mpr ⟨rfl, tablesOf_isPrefix (throughPart_isPrefix _ _)⟩
      · rw [held.base]
        exact startLba_lt (by rw [isTable]; simp)
      · rw [held.base]
        simp [notMbr]

/-! ### The base of another disk -/

/-- A loop that ends has read what it had read before, and more. -/
theorem reads_prefix_entries
    (known : ∀ lba s s', partitionScan disk hd fuel lba s = .ok s' → s.reads <+: s'.reads)
    (entries : List PartitionTableEntry) :
    ∀ s s', scanEntries (partitionScan disk hd fuel) hd lba entries s = .ok s' → s.reads <+: s'.reads := by
  induction entries with
  | nil =>
      intro s s' isResult
      cases isResult
      exact List.prefix_refl _
  | cons p rest inductionHypothesis =>
      intro s s' isResult
      by_cases isEmpty : p.fsType = 0
      · rw [scanEntries_empty isEmpty] at isResult
        exact inductionHypothesis s s' isResult
      by_cases isExtended : p.fsType = 5
      · rw [scanEntries_extended isExtended] at isResult
        cases isBelow : partitionScan disk hd fuel (s.counts.target p) (s.follow p) with
        | error stop =>
            rw [isBelow] at isResult
            cases isResult
        | ok mid =>
            rw [isBelow] at isResult
            exact (known _ _ _ isBelow).trans (inductionHypothesis mid s' isResult)
      have isPart : p.isPart := ⟨isEmpty, isExtended⟩
      by_cases inMbr : lba = 0
      · subst inMbr
        rw [scanEntries_primary isPart] at isResult
        unfold recordPrim at isResult
        split at isResult
        · dsimp only at isResult
          split at isResult
          · exact inductionHypothesis (s.addPrim hd 0 p) s' isResult
          · cases isResult
        · cases isResult
      · rw [scanEntries_logical inMbr isPart] at isResult
        unfold recordLogic at isResult
        split at isResult
        · by_cases full : (s.addLogic hd lba p).lNo ≥ 8
          · have isLast : s' = s.addLogic hd lba p := by
              simpa only [Except.bind, if_pos full, Except.ok.injEq] using isResult.symm
            rw [isLast]
            exact List.prefix_refl _
          · have isOther : scanEntries (partitionScan disk hd fuel) hd lba rest (s.addLogic hd lba p) =
                .ok s' := by
              simpa only [Except.bind, if_neg full] using isResult
            exact inductionHypothesis (s.addLogic hd lba p) s' isOther
        · cases isResult

theorem reads_isPrefix (fuel : Nat) :
    ∀ lba s s', partitionScan disk hd fuel lba s = .ok s' → s.reads ++ [lba] <+: s'.reads := by
  induction fuel with
  | zero =>
      intro lba s s' isResult
      cases isResult
  | succ fuel inductionHypothesis =>
      intro lba s s' isResult
      by_cases low : lba ≤ maxLba
      · rw [partitionScan_low low] at isResult
        have known : ∀ lba s s', partitionScan disk hd fuel lba s = .ok s' → s.reads <+: s'.reads :=
          fun lba s s' isResult =>
            (List.prefix_append _ _).trans (inductionHypothesis lba s s' isResult)
        exact reads_prefix_entries known _ (s.read lba) s' isResult
      · rw [partitionScan_high (Nat.not_le.mp low)] at isResult
        cases isResult

/-- With the base of another disk the scan starts at a sector that is not the first table
of the extended partition. -/
theorem not_recorded_of_base (notFirst : base ≠ 0) (small : base < 2 ^ 32) (isExtended : d.layout.items ≠ [])
    (isResult : partitionScan d.disk d.hd fuel 0 (scanStart base partitionList) = .ok s) :
    ¬ Recorded d s := by
  obtain ⟨hd, disk, ⟨items, extended, few⟩⟩ := d
  intro recorded
  cases extended with
  | none => exact isExtended rfl
  | @one p below isOne notMbr isBelow =>
      obtain ⟨front, back, isTable, isLink, noFront, noBack, _⟩ := mbr_split isOne
      have smallStart : p.startLba < 2 ^ 32 := startLba_lt (by rw [isTable]; simp)
      have start := (Held.start hd base partitionList).read 0
      have smallFront : ∀ q ∈ front.filter (fun p => p.isPart), q.startLba < 2 ^ 32 := fun q mem =>
        startLba_lt (by rw [isTable]; exact List.mem_append_left _ (List.mem_of_mem_filter mem))
      have held := start.addPrims smallFront
      cases fuel with
      | zero => cases isResult
      | succ fuel =>
          have isRun : scanEntries (partitionScan disk hd fuel) hd 0 (front ++ p :: back)
              ((scanStart base partitionList).read 0) = .ok s := by
            rw [← isTable, ← partitionScan_low (Nat.zero_le _)]
            exact isResult
          rw [scanEntries_append, scan_primaries _ _ noFront (by rw [start.pNo]; decide)] at isRun
          split at isRun
          · have isRun : scanEntries (partitionScan disk hd fuel) hd 0 (p :: back)
                (((scanStart base partitionList).read 0).addPrims hd
                  (front.filter fun p => p.isPart)) = .ok s := isRun
            have isTarget : (((scanStart base partitionList).read 0).addPrims hd
                (front.filter fun p => p.isPart)).counts.target p = addLba p.startLba base := by
              unfold Counts.target Scan.counts
              rw [held.base, if_pos notFirst]
            rw [scanEntries_extended isLink, isTarget] at isRun
            cases isMid : partitionScan disk hd fuel (addLba p.startLba base)
              ((((scanStart base partitionList).read 0).addPrims hd
                (front.filter fun p => p.isPart)).follow p) with
            | error stop =>
                rw [isMid] at isRun
                cases isRun
            | ok mid =>
                rw [isMid] at isRun
                have isRead : ((((scanStart base partitionList).read 0).addPrims hd
                    (front.filter fun p => p.isPart)).follow p).reads = [0] := held.reads
                have first : [0] ++ [addLba p.startLba base] <+: mid.reads := by
                  have isPrefix := reads_isPrefix fuel _ _ _ isMid
                  rwa [isRead] at isPrefix
                have known : ∀ lba s s', partitionScan disk hd fuel lba s = .ok s' → s.reads <+: s'.reads :=
                  fun lba s s' isResult => (List.prefix_append _ _).trans (reads_isPrefix fuel lba s s' isResult)
                have others := reads_prefix_entries known back mid s isRun
                have own : [0, addLba p.startLba base] <+: 0 :: p.startLba :: tablesOf below :=
                  (first.trans others).trans recorded.reads
                have same := (List.cons_prefix_cons.mp (List.cons_prefix_cons.mp own).2).1
                unfold addLba at same
                omega
          · cases isRun

/-! ### The list of disks -/

/-- No two disks of a list have an extended partition. -/
def Separate (disks : List ScannedDisk) : Prop :=
  disks.Pairwise fun first second => first.layout.items = [] ∨ second.layout.items = []

/-- The disks as `ide_init` finds them. -/
def contents (disks : List ScannedDisk) : List (Nat × Disk) := disks.map fun d => (d.hd, d.disk)

theorem scanDisks_cons {rest : List ScannedDisk} {results : List Scan} :
    scanDisks fuel (contents (d :: rest)) base partitionList = .ok results ↔
      ∃ s others, results = s :: others ∧
        partitionScan d.disk d.hd fuel 0 (scanStart base partitionList) = .ok s ∧
        scanDisks fuel (contents rest) s.extLbaBase s.partitionList = .ok others := by
  show (partitionScan d.disk d.hd fuel 0 (scanStart base partitionList)).bind (fun s =>
    (scanDisks fuel (contents rest) s.extLbaBase s.partitionList).bind fun others =>
      .ok (s :: others)) = .ok results ↔ _
  cases isScan : partitionScan d.disk d.hd fuel 0 (scanStart base partitionList) with
  | error stop => simp [Except.bind]
  | ok s =>
      cases isOthers : scanDisks fuel (contents rest) s.extLbaBase s.partitionList with
      | error stop => simp [Except.bind, isOthers]
      | ok others => simp [Except.bind, isOthers, eq_comm]

/-- The disks are recorded by every scan with enough fuel. -/
def AllRecorded (disks : List ScannedDisk) (base : Nat) (partitionList : List PartTag) : Prop :=
  ∃ depth results, (∀ fuel ≥ depth, scanDisks fuel (contents disks) base partitionList = .ok results) ∧
    List.Forall₂ Recorded disks results

theorem allRecorded_iff (disks : List ScannedDisk) : ∀ base partitionList, base < 2 ^ 32 →
    (AllRecorded disks base partitionList ↔ (∀ d ∈ disks, d.Fits) ∧
      (base ≠ 0 → ∀ d ∈ disks, d.layout.items = []) ∧ Separate disks) := by
  induction disks with
  | nil =>
      intro base partitionList _
      exact ⟨fun _ => by simp [Separate], fun _ => ⟨0, [], fun _ _ => rfl, .nil⟩⟩
  | cons d rest inductionHypothesis =>
      intro base partitionList small
      unfold Separate
      rw [List.pairwise_cons]
      constructor
      · rintro ⟨depth, results, scanned, recorded⟩
        obtain ⟨s, others, rfl, _, _⟩ := scanDisks_cons.mp (scanned depth (Nat.le_refl _))
        obtain ⟨isRecorded, othersRecorded⟩ := List.forall₂_cons.mp recorded
        have both : ∀ fuel ≥ depth,
            partitionScan d.disk d.hd fuel 0 (scanStart base partitionList) = .ok s ∧
              scanDisks fuel (contents rest) s.extLbaBase s.partitionList = .ok others := by
          intro fuel enough
          obtain ⟨s', others', isCons, isScan, isRest⟩ := scanDisks_cons.mp (scanned fuel enough)
          obtain ⟨rfl, rfl⟩ := List.cons.inj isCons
          exact ⟨isScan, isRest⟩
        have own : base = 0 ∨ d.layout.items = [] := by
          by_contra foreign
          obtain ⟨notFirst, isExtended⟩ := not_or.mp foreign
          exact not_recorded_of_base notFirst small isExtended (both depth (Nat.le_refl _)).1 isRecorded
        obtain ⟨depth', s₀, isOk, isStop, _, small', isBase⟩ := scan_own_base d partitionList own small
        have isScan := (both (max depth depth') (Nat.le_max_left _ _)).1
        have fits : d.Fits := by
          by_contra notFits
          rw [isStop _ (Nat.le_max_right _ _) notFits] at isScan
          cases isScan
        rw [isOk _ (Nat.le_max_right _ _) fits] at isScan
        cases isScan
        obtain ⟨othersFit, based, separate⟩ := (inductionHypothesis s.extLbaBase s.partitionList small').mp
          ⟨depth, others, fun fuel enough => (both fuel enough).2, othersRecorded⟩
        refine ⟨List.forall_mem_cons.mpr ⟨fits, othersFit⟩, fun notFirst => ?_, fun other mem => ?_, separate⟩
        · refine List.forall_mem_cons.mpr ⟨own.resolve_left notFirst, based fun isZero => ?_⟩
          exact notFirst (isBase.mp isZero).1
        · by_cases isEmpty : d.layout.items = []
          · exact .inl isEmpty
          · exact .inr (based (fun isZero => isEmpty (isBase.mp isZero).2) other mem)
      · rintro ⟨fits, based, separate, othersSeparate⟩
        have own : base = 0 ∨ d.layout.items = [] := by
          by_cases isFirst : base = 0
          · exact .inl isFirst
          · exact .inr (based isFirst d List.mem_cons_self)
        obtain ⟨depth, s, isOk, _, isRecorded, small', isBase⟩ := scan_own_base d partitionList own small
        have basedRest : s.extLbaBase ≠ 0 → ∀ other ∈ rest, other.layout.items = [] := by
          intro found other mem
          by_cases isFirst : base = 0
          · exact (separate other mem).resolve_left fun isEmpty => found (isBase.mpr ⟨isFirst, isEmpty⟩)
          · exact based isFirst other (List.mem_cons_of_mem _ mem)
        obtain ⟨depth', others, scanned, recorded⟩ :=
          (inductionHypothesis s.extLbaBase s.partitionList small').mpr
            ⟨fun other mem => fits other (List.mem_cons_of_mem _ mem), basedRest, othersSeparate⟩
        refine ⟨max depth depth', s :: others, fun fuel enough => ?_, .cons isRecorded recorded⟩
        exact scanDisks_cons.mpr ⟨s, others, rfl,
          isOk fuel (Nat.le_trans (Nat.le_max_left _ _) enough) (fits d List.mem_cons_self),
          scanned fuel (Nat.le_trans (Nat.le_max_right _ _) enough)⟩

/-- All disks are recorded by `ide_init` exactly when each has fewer than four primary
partitions and no table above `max_lba`, and only one has an extended partition. -/
theorem scanDisks_recorded_iff (disks : List ScannedDisk) :
    AllRecorded disks 0 [] ↔ (∀ d ∈ disks, d.Fits) ∧ Separate disks := by
  rw [allRecorded_iff disks 0 [] (by decide)]
  constructor
  · rintro ⟨fits, _, separate⟩
    exact ⟨fits, separate⟩
  · rintro ⟨fits, separate⟩
    exact ⟨fits, fun notZero => absurd rfl notZero, separate⟩

/-! ### Two disks with an extended partition -/

/-- The extended partition starts at sector 1, and its table lists one partition. -/
def logicalDisk : Disk := fun lba off =>
  if lba = 0 then
    if off = 450 then 5 else if off = 454 then 1 else 0
  else if lba = 1 then
    if off = 450 then 0x83 else if off = 454 ∨ off = 458 then 1 else 0
  else 0

theorem logicalDisk_table :
    partitionTable logicalDisk 1 = ⟨0x83, 1, 1⟩ :: List.replicate 3 ⟨0, 0, 0⟩ := by decide +kernel

theorem logicalDisk_listed :
    Listed logicalDisk 1 1 (partitionTable logicalDisk 1) [.part 2 1] := by
  rw [logicalDisk_table]
  exact .logical (by decide) (.empty rfl (.empty rfl (.empty rfl .nil)))

theorem logicalDisk_extended :
    (partitionTable logicalDisk 0).filter (fun p => p.fsType = 5) = [⟨5, 1, 0⟩] := by decide +kernel

def logicalLayout : Layout logicalDisk where
  items := [.table 1, .part 2 1]
  extended := .one logicalDisk_extended (by decide) logicalDisk_listed
  few := by decide

def twoDisks : List ScannedDisk := [⟨1, logicalDisk, logicalLayout⟩, ⟨3, logicalDisk, logicalLayout⟩]

/-- The second of two like disks is not recorded. -/
theorem second_disk_not_recorded :
    ¬ ∃ depth results, (∀ fuel ≥ depth, ideInit fuel 4 (fun _ _ => logicalDisk) = .ok results) ∧
      List.Forall₂ Recorded twoDisks results := by
  intro recorded
  obtain ⟨_, _, separate⟩ := (allRecorded_iff twoDisks 0 [] (by decide)).mp recorded
  have isEmpty := (List.pairwise_cons.mp separate).1 ⟨3, logicalDisk, logicalLayout⟩ (by simp)
  rcases isEmpty with isEmpty | isEmpty
  · cases isEmpty
  · cases isEmpty

end ZyOs.Device
