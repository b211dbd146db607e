import ZyOs.Fs.DirectoryDelete

/-!
Contract: which deletions of a directory entry end.

`delete_dir_entry` counts the blocks of the table in a loop whose index stays the
same. The loop is reached when the entry is the only one of a block that the table
lists, and then it does not end.

Owns:
- when `delete_dir_entry` runs out of fuel, its two ways not to return apart;
- the directories in which a deletion ends, whatever they hold.
-/

namespace ZyOs.Fs

open ZyOs.Kernel ZyOs.Lib
open InodeTable (Inode)

variable {part : Volume} {dirInode : Inode} {inodeNo fuel : Nat} {blocks : List Nat}

/-! ### The loop that counts -/

theorem dropRun_fuel_iff (blockIdx : Nat) :
    dropRun fuel part dirInode blocks blockIdx = .error .fuel ↔ 12 ≤ blockIdx := by
  unfold dropRun
  dsimp only
  split
  · rename_i direct
    constructor
    · intro isStop
      cases isStop
    · intro above
      omega
  · rename_i notDirect
    rw [countIndirect_none]
    exact iff_of_true rfl (by omega)

theorem orAssert_ne_fuel {α : Type} (result : Option α) : orAssert result ≠ .error .fuel := by
  cases result with
  | none =>
      intro isStop
      cases isStop
  | some a =>
      intro isStop
      cases isStop

theorem deleteAtRun_fuel_iff {blockIdx idx : Nat} {scan : SectorScan} :
    deleteAtRun fuel part dirInode blocks blockIdx scan idx = .error .fuel ↔
      scan.dirEntryCnt = 1 ∧ scan.isDirFirstBlock = false ∧ 12 ≤ blockIdx := by
  unfold deleteAtRun takeOutRun
  by_cases counted : 1 ≤ scan.dirEntryCnt
  · have passes : orAssert (guard (1 ≤ scan.dirEntryCnt) : Option Unit) = .ok () := by
      simp only [counted, guard_true]
      rfl
    rw [passes]
    by_cases single : scan.dirEntryCnt = 1 ∧ scan.isDirFirstBlock = false
    · rw [if_pos single, ← @dropRun_fuel_iff part dirInode fuel blocks blockIdx]
      cases isDrop : dropRun fuel part dirInode blocks blockIdx with
      | error stop =>
          constructor
          · intro isStop
            cases isStop
            exact ⟨single.1, single.2, rfl⟩
          · intro isStop
            cases isStop.2.2
            rfl
      | ok result =>
          constructor
          · intro isStop
            exact absurd isStop (orAssert_ne_fuel _)
          · intro isStop
            cases isStop.2.2
    · rw [if_neg single]
      constructor
      · intro isStop
        exact absurd isStop (orAssert_ne_fuel _)
      · intro isSingle
        exact absurd ⟨isSingle.1, isSingle.2.1⟩ single
  · have fails : orAssert (guard (1 ≤ scan.dirEntryCnt) : Option Unit) = .error .assert := by
      simp only [counted, guard_false]
      rfl
    rw [fails]
    constructor
    · intro isStop
      cases isStop
    · intro single
      omega

/-! ### The scan of any sector -/

/-- What a scan that returns has counted and found. -/
theorem scanSector_some {buf : Buf} {idxs : List Nat} {scan scan' : SectorScan}
    (isScan : scanSector buf inodeNo idxs scan = some scan') :
    scan'.dirEntryCnt = scan.dirEntryCnt + (idxs.filter (properSlot buf)).length ∧
      scan'.isDirFirstBlock = (scan.isDirFirstBlock || idxs.any (dotSlot buf)) ∧
      scan'.dirEntryFound = scan.dirEntryFound.or (idxs.find? (matchesSlot buf inodeNo)) := by
  induction idxs generalizing scan with
  | nil =>
      cases isScan
      simp
  | cons idx idxs inductionHypothesis =>
      unfold scanSector at isScan
      dsimp only at isScan
      by_cases isLive : fTypeAt buf idx ≠ 0
      · rw [if_pos isLive] at isScan
        by_cases isDot : (dirEntryAt buf idx).name = [dot]
        · rw [if_pos isDot] at isScan
          obtain ⟨cnt, first, found⟩ := inductionHypothesis isScan
          have notProper : properSlot buf idx = false := by
            simp [properSlot, DirEntry.isProper, isDot]
          have notMatch : matchesSlot buf inodeNo idx = false := by simp [matchesSlot, notProper]
          have isDotSlot : dotSlot buf idx = true := by simp [dotSlot, isLive, isDot]
          rw [List.filter_cons_of_neg (by simp [notProper]), List.any_cons, isDotSlot,
            List.find?_cons_of_neg (by simp [notMatch])]
          exact ⟨cnt, by simp [first], found⟩
        · have notDot : dotSlot buf idx = false := by simp [dotSlot, isDot]
          rw [if_neg isDot] at isScan
          rw [List.any_cons, notDot, Bool.false_or]
          by_cases proper : (dirEntryAt buf idx).name ≠ [dot] ∧ (dirEntryAt buf idx).name ≠ [dot, dot]
          · have isProper : properSlot buf idx = true := by
              simp [properSlot, DirEntry.isProper, isLive, proper]
            rw [if_pos proper] at isScan
            rw [List.filter_cons_of_pos isProper, List.length_cons]
            by_cases isNumber : (dirEntryAt buf idx).iNo = inodeNo
            · have isMatch : matchesSlot buf inodeNo idx = true := by
                simp [matchesSlot, isProper, isNumber]
              rw [if_pos isNumber] at isScan
              split at isScan
              · rename_i notFound
                obtain ⟨cnt, first, found⟩ := inductionHypothesis isScan
                rw [List.find?_cons_of_pos isMatch, notFound]
                exact ⟨by rw [cnt]; dsimp only; omega, first, found⟩
              · cases isScan
            · have notMatch : matchesSlot buf inodeNo idx = false := by simp [matchesSlot, isNumber]
              rw [if_neg isNumber] at isScan
              obtain ⟨cnt, first, found⟩ := inductionHypothesis isScan
              rw [List.find?_cons_of_neg (by simp [notMatch])]
              exact ⟨by rw [cnt]; dsimp only; omega, first, found⟩
          · have notProper : properSlot buf idx = false := by
              simp only [properSlot, DirEntry.isProper, proper, decide_false]
              simp
            have notMatch : matchesSlot buf inodeNo idx = false := by simp [matchesSlot, notProper]
            rw [if_neg proper] at isScan
            rw [List.filter_cons_of_neg (by simp [notProper]),
              List.find?_cons_of_neg (by simp [notMatch])]
            exact inductionHypothesis isScan
      · have notProper : properSlot buf idx = false := by simp [properSlot, isLive]
        have notMatch : matchesSlot buf inodeNo idx = false := by simp [matchesSlot, notProper]
        have notDot : dotSlot buf idx = false := by simp [dotSlot, isLive]
        rw [if_neg isLive] at isScan
        rw [List.any_cons, notDot, Bool.false_or, List.filter_cons_of_neg (by simp [notProper]),
          List.find?_cons_of_neg (by simp [notMatch])]
        exact inductionHypothesis isScan

/-! ### Which deletions end -/

/-- The entry with this number is the only one in its block, not counting `..`; the
block has no `.`. -/
def Alone (buf : Buf) (inodeNo : Nat) : Prop :=
  numbersAt buf = [inodeNo] ∧ (List.range dirEntrysPerSec).any (dotSlot buf) = false

instance (buf : Buf) (inodeNo : Nat) : Decidable (Alone buf inodeNo) :=
  inferInstanceAs (Decidable (_ ∧ _))

/-- A block of the list that is not in use, or without an entry of this number. -/
def Passes (disk : Disk) (blocks : List Nat) (inodeNo blockIdx : Nat) : Prop :=
  blocks.getD blockIdx 0 = 0 ∨ inodeNo ∉ numbersAt (ideRead disk (blocks.getD blockIdx 0) 1)

instance (disk : Disk) (blocks : List Nat) (inodeNo blockIdx : Nat) :
    Decidable (Passes disk blocks inodeNo blockIdx) := inferInstanceAs (Decidable (_ ∨ _))

/-- The first entry with this number is alone in a block that the table lists. -/
def AloneInTable (disk : Disk) (dirInode : Inode) (inodeNo : Nat) : Prop :=
  let blocks := allBlocks disk (searchInode dirInode)
  ∃ blockIdx, 12 ≤ blockIdx ∧ blockIdx < 140 ∧ blocks.getD blockIdx 0 ≠ 0 ∧
    Alone (ideRead disk (blocks.getD blockIdx 0) 1) inodeNo ∧
    ∀ earlier < blockIdx, Passes disk blocks inodeNo earlier

theorem numbersAt_length (buf : Buf) :
    (numbersAt buf).length = ((List.range dirEntrysPerSec).filter (properSlot buf)).length := by
  rw [numbersAt_eq, List.length_map]

theorem mem_numbersAt_iff {buf : Buf} :
    inodeNo ∈ numbersAt buf ↔ ∃ idx ∈ List.range dirEntrysPerSec, matchesSlot buf inodeNo idx = true := by
  rw [numbersAt_eq, List.mem_map]
  constructor
  · rintro ⟨idx, mem, isNumber⟩
    obtain ⟨inside, isProper⟩ := List.mem_filter.mp mem
    exact ⟨idx, inside, by simp [matchesSlot, isProper, isNumber]⟩
  · rintro ⟨idx, inside, isMatch⟩
    simp only [matchesSlot, decide_eq_true_eq] at isMatch
    exact ⟨idx, List.mem_filter.mpr ⟨inside, isMatch.1⟩, isMatch.2⟩

theorem Alone.single {buf : Buf} (alone : Alone buf inodeNo) :
    ∀ idx ∈ List.range dirEntrysPerSec, ∀ other ∈ List.range dirEntrysPerSec,
      matchesSlot buf inodeNo idx = true → matchesSlot buf inodeNo other = true → idx = other := by
  intro idx inside other otherInside isMatch otherMatch
  have isOne := numbersAt_length buf
  rw [alone.1] at isOne
  obtain ⟨slot, isSlot⟩ := List.length_eq_one_iff.mp isOne.symm
  simp only [matchesSlot, decide_eq_true_eq] at isMatch otherMatch
  have mem : idx ∈ (List.range dirEntrysPerSec).filter (properSlot buf) :=
    List.mem_filter.mpr ⟨inside, isMatch.1⟩
  have otherMem : other ∈ (List.range dirEntrysPerSec).filter (properSlot buf) :=
    List.mem_filter.mpr ⟨otherInside, otherMatch.1⟩
  rw [isSlot] at mem otherMem
  exact (List.mem_singleton.mp mem).trans (List.mem_singleton.mp otherMem).symm

/-- The scan fails an `ASSERT` only where two entries have the number. -/
theorem scanSector_ne_none {buf : Buf}
    (single : ∀ idx ∈ List.range dirEntrysPerSec, ∀ other ∈ List.range dirEntrysPerSec,
      matchesSlot buf inodeNo idx = true → matchesSlot buf inodeNo other = true → idx = other) :
    scanSector buf inodeNo (List.range dirEntrysPerSec) ⟨0, false, none⟩ ≠ none := by
  rw [scanSector_eq List.nodup_range single fun isFound => absurd rfl isFound]
  exact Option.some_ne_none _

theorem scanSector_passes {buf : Buf} (notIn : inodeNo ∉ numbersAt buf) :
    scanSector buf inodeNo (List.range dirEntrysPerSec) ⟨0, false, none⟩ ≠ none := by
  apply scanSector_ne_none
  intro idx inside other _ isMatch _
  exact absurd (mem_numbersAt_iff.mpr ⟨idx, inside, isMatch⟩) notIn

/-- Where the scan finds an entry, the deletion stays in the block. -/
theorem found_fuel_iff {blockIdx idx : Nat} {scan : SectorScan}
    (isScan : scanSector (ideRead part.disk (blocks.getD blockIdx 0) 1) inodeNo
      (List.range dirEntrysPerSec) ⟨0, false, none⟩ = some scan)
    (isFound : scan.dirEntryFound = some idx) :
    deleteAtRun fuel part dirInode blocks blockIdx scan idx = .error .fuel ↔
      12 ≤ blockIdx ∧ Alone (ideRead part.disk (blocks.getD blockIdx 0) 1) inodeNo := by
  obtain ⟨cnt, first, found⟩ := scanSector_some isScan
  rw [isFound, Option.none_or] at found
  have isIn : inodeNo ∈ numbersAt (ideRead part.disk (blocks.getD blockIdx 0) 1) :=
    mem_numbersAt_iff.mpr ⟨idx, List.mem_of_find?_eq_some found.symm, List.find?_some found.symm⟩
  have isCnt : scan.dirEntryCnt = (numbersAt (ideRead part.disk (blocks.getD blockIdx 0) 1)).length := by
    rw [cnt, numbersAt_length, Nat.zero_add]
  rw [Bool.false_or] at first
  rw [deleteAtRun_fuel_iff, isCnt, first, Alone]
  constructor
  · rintro ⟨isOne, noDot, above⟩
    obtain ⟨only, isOnly⟩ := List.length_eq_one_iff.mp isOne
    rw [isOnly] at isIn ⊢
    exact ⟨above, by rw [List.mem_singleton.mp isIn], noDot⟩
  · rintro ⟨above, isOnly, noDot⟩
    exact ⟨by rw [isOnly]; rfl, noDot, above⟩

/-- The loop over the blocks passes those without the entry, and stays in the first
one with it. -/
theorem deleteLoopRun_fuel_iff (count start : Nat) :
    deleteLoopRun fuel part dirInode inodeNo blocks (List.range' start count) = .error .fuel ↔
      ∃ blockIdx, start ≤ blockIdx ∧ blockIdx < start + count ∧ 12 ≤ blockIdx ∧
        blocks.getD blockIdx 0 ≠ 0 ∧ Alone (ideRead part.disk (blocks.getD blockIdx 0) 1) inodeNo ∧
        ∀ earlier, start ≤ earlier → earlier < blockIdx → Passes part.disk blocks inodeNo earlier := by
  induction count generalizing start with
  | zero =>
      constructor
      · intro isStop
        cases isStop
      · rintro ⟨blockIdx, notBefore, inside, _⟩
        omega
  | succ count inductionHypothesis =>
      have later (passes : Passes part.disk blocks inodeNo start)
          (notHere : blocks.getD start 0 ≠ 0 →
            ¬ Alone (ideRead part.disk (blocks.getD start 0) 1) inodeNo) :
          (∃ blockIdx, start + 1 ≤ blockIdx ∧ blockIdx < start + 1 + count ∧ 12 ≤ blockIdx ∧
            blocks.getD blockIdx 0 ≠ 0 ∧
            Alone (ideRead part.disk (blocks.getD blockIdx 0) 1) inodeNo ∧
            ∀ earlier, start + 1 ≤ earlier → earlier < blockIdx →
              Passes part.disk blocks inodeNo earlier) ↔
          ∃ blockIdx, start ≤ blockIdx ∧ blockIdx < start + (count + 1) ∧ 12 ≤ blockIdx ∧
            blocks.getD blockIdx 0 ≠ 0 ∧
            Alone (ideRead part.disk (blocks.getD blockIdx 0) 1) inodeNo ∧
            ∀ earlier, start ≤ earlier → earlier < blockIdx →
              Passes part.disk blocks inodeNo earlier := by
        constructor
        · rintro ⟨blockIdx, notBefore, inside, above, isBlock, alone, before⟩
          refine ⟨blockIdx, by omega, by omega, above, isBlock, alone, fun earlier from' below => ?_⟩
          by_cases isStart : earlier = start
          · rw [isStart]
            exact passes
          · exact before earlier (by omega) below
        · rintro ⟨blockIdx, notBefore, inside, above, isBlock, alone, before⟩
          have notStart : blockIdx ≠ start := by
            intro isStart
            rw [isStart] at isBlock alone
            exact notHere isBlock alone
          exact ⟨blockIdx, by omega, by omega, above, isBlock, alone,
            fun earlier from' below => before earlier (by omega) below⟩
      rw [List.range'_succ, deleteLoopRun]
      by_cases noBlock : blocks.getD start 0 = 0
      · simp only [noBlock, if_true]
        rw [inductionHypothesis]
        exact later (.inl noBlock) fun isBlock => absurd noBlock isBlock
      · simp only [noBlock, if_false]
        cases isScan : scanSector (ideRead part.disk (blocks.getD start 0) 1) inodeNo
            (List.range dirEntrysPerSec) ⟨0, false, none⟩ with
        | none =>
            -- two entries have the number: the scan fails its `ASSERT`
            constructor
            · intro isStop
              cases isStop
            · rintro ⟨blockIdx, notBefore, _, _, _, alone, before⟩
              by_cases isStart : blockIdx = start
              · rw [isStart] at alone
                exact absurd isScan (scanSector_ne_none alone.single)
              · rcases before start (Nat.le_refl _) (by omega) with isZero | notIn
                · exact absurd isZero noBlock
                · exact absurd isScan (scanSector_passes notIn)
        | some scan =>
            have found := (scanSector_some isScan).2.2
            rw [Option.none_or] at found
            dsimp only
            cases isFound : scan.dirEntryFound with
            | none =>
                have notIn : inodeNo ∉ numbersAt (ideRead part.disk (blocks.getD start 0) 1) := by
                  intro isIn
                  obtain ⟨idx, inside, isMatch⟩ := mem_numbersAt_iff.mp isIn
                  rw [isFound] at found
                  exact List.find?_eq_none.mp found.symm idx inside isMatch
                dsimp only
                rw [inductionHypothesis]
                refine later (.inr notIn) fun _ alone => notIn ?_
                rw [alone.1]
                exact List.mem_singleton_self inodeNo
            | some idx =>
                dsimp only
                rw [found_fuel_iff isScan isFound]
                rw [isFound] at found
                have isIn : inodeNo ∈ numbersAt (ideRead part.disk (blocks.getD start 0) 1) :=
                  mem_numbersAt_iff.mpr
                    ⟨idx, List.mem_of_find?_eq_some found.symm, List.find?_some found.symm⟩
                constructor
                · rintro ⟨above, alone⟩
                  exact ⟨start, Nat.le_refl _, by omega, above, noBlock, alone,
                    fun earlier from' below => by omega⟩
                · rintro ⟨blockIdx, notBefore, _, above, _, alone, before⟩
                  by_cases isStart : blockIdx = start
                  · rw [isStart] at above alone
                    exact ⟨above, alone⟩
                  · rcases before start (Nat.le_refl _) (by omega) with isZero | notIn
                    · exact absurd isZero noBlock
                    · exact absurd isIn notIn

/-- `delete_dir_entry` ends, with a result or a failed `ASSERT`, in every directory
but those where the entry is alone in a block of the table. -/
theorem delete_dir_entry_ends_iff (part : Volume) (dirInode : Inode) (inodeNo : Nat) :
    (∃ fuel, deleteRun fuel part dirInode inodeNo ≠ .error .fuel) ↔
      ¬ AloneInTable part.disk dirInode inodeNo := by
  have each (fuel : Nat) : deleteRun fuel part dirInode inodeNo = .error .fuel ↔
      AloneInTable part.disk dirInode inodeNo := by
    unfold deleteRun
    rw [List.range_eq_range', deleteLoopRun_fuel_iff]
    constructor
    · rintro ⟨blockIdx, _, inside, above, isBlock, alone, before⟩
      exact ⟨blockIdx, above, by omega, isBlock, alone,
        fun earlier below => before earlier (Nat.zero_le _) below⟩
    · rintro ⟨blockIdx, above, inside, isBlock, alone, before⟩
      exact ⟨blockIdx, Nat.zero_le _, by omega, above, isBlock, alone,
        fun earlier _ below => before earlier below⟩
  constructor
  · rintro ⟨fuel, ends⟩ isAlone
    exact ends ((each fuel).mpr isAlone)
  · intro notAlone
    exact ⟨0, fun isStop => notAlone ((each 0).mp isStop)⟩

/-! ### A directory with 253 entries -/

/-- The byte of entry `e` at the offset `k` in it. -/
def entryByte (e k : Nat) : UInt8 :=
  if k = 0 then (if e < 2 then dot else UInt8.ofNat (97 + e / 26))
  else if k = 1 then (if e = 0 then 0 else if e = 1 then dot else UInt8.ofNat (97 + e % 26))
  else if k = 16 then UInt8.ofNat (e % 256)
  else if k = 17 then UInt8.ofNat (e / 256)
  else if k = 20 then (if e < 2 then 2 else 1)
  else 0

/-- Twelve full sectors from 612 on, the table in sector 624, and in sector 625 the
entry that is left. -/
def crowdedDisk : Disk := fun lba off =>
  if lba < 612 then 0
  else if lba < 624 then
    (if off < 504 then entryByte ((lba - 612) * 21 + off / 24) (off % 24) else 0)
  else if lba = 624 then (if off = 0 then 113 else if off = 1 then 2 else 0)
  else if lba = 625 then (if off < 24 then entryByte 252 off else 0)
  else 0

def crowdedVolume : Volume := { blankVolume with disk := crowdedDisk }

def crowdedInode : Inode :=
  { inodeInit 1 with iSize := 6072, iSectors := fun idx => UInt32.ofNat (612 + idx) }

/-- The entry 252 of the directory is never deleted. -/
theorem delete_dir_entry_spins :
    ¬ ∃ fuel, deleteRun fuel crowdedVolume crowdedInode 252 ≠ .error .fuel := by
  have before : ∀ earlier < 12, Passes crowdedVolume.disk
      (allBlocks crowdedVolume.disk (searchInode crowdedInode)) 252 earlier := by decide +kernel
  have isBlock : (allBlocks crowdedVolume.disk (searchInode crowdedInode)).getD 12 0 = 625 := by
    decide +kernel
  have alone : Alone (ideRead crowdedVolume.disk 625 1) 252 := by decide +kernel
  rintro ⟨fuel, ends⟩
  apply ends
  unfold deleteRun
  rw [List.range_eq_range', deleteLoopRun_fuel_iff]
  refine ⟨12, by decide, by decide, by decide, ?_, ?_, fun earlier _ below => before earlier below⟩
  · rw [isBlock]
    decide
  · rw [isBlock]
    exact alone

end ZyOs.Fs
