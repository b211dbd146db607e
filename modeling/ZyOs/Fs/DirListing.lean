import ZyOs.Fs.StreamIndependence

/-!
Contract: the entries that `sys_readdir` returns one after the other.

Each call reads the directory from its start again and counts the entries in use up
to the position of the stream. So a position is a number of entries, whatever slots
and blocks lie empty between them, and the calls list what is in use in the order of
blocks and slots.

Does not own: calls that change the directory; the `i_size` that the others leave.
-/

namespace ZyOs.Fs.DirStreams

/-! ### The entries in use -/

/-- The slots of a sector that are in use. -/
def sectorLive (buf : Buf) (idxs : List Nat) : List DirEntry :=
  (idxs.filter fun idx => word buf (idx * dirEntrySize + 20) ≠ 0).map (dirEntryAt buf)

/-- Those of blocks that are there. -/
def blocksLive (disk : Disk) (blocks : List Nat) : List DirEntry :=
  (blocks.filter (· ≠ 0)).flatMap fun lba =>
    sectorLive (ideRead disk lba 1) (List.range (sectorSize / dirEntrySize))

/-- The live entries of a directory, in the order of blocks and slots. -/
def liveEntries (disk : Disk) (inode : DirInode) : List DirEntry :=
  blocksLive disk (blocksOf disk inode)

theorem sectorLive_used {buf : Buf} {idx : Nat} (rest : List Nat)
    (used : word buf (idx * dirEntrySize + 20) ≠ 0) :
    sectorLive buf (idx :: rest) = dirEntryAt buf idx :: sectorLive buf rest := by
  unfold sectorLive
  rw [List.filter_cons_of_pos (by simpa using used), List.map_cons]

theorem sectorLive_unused {buf : Buf} {idx : Nat} (rest : List Nat)
    (unused : ¬ word buf (idx * dirEntrySize + 20) ≠ 0) :
    sectorLive buf (idx :: rest) = sectorLive buf rest := by
  unfold sectorLive
  rw [List.filter_cons_of_neg (by simpa using unused)]

theorem blocksLive_missing (disk : Disk) (rest : List Nat) :
    blocksLive disk (0 :: rest) = blocksLive disk rest := rfl

theorem blocksLive_cons (disk : Disk) {lba : Nat} (rest : List Nat) (present : lba ≠ 0) :
    blocksLive disk (lba :: rest) =
      sectorLive (ideRead disk lba 1) (List.range (sectorSize / dirEntrySize)) ++ blocksLive disk rest := by
  unfold blocksLive
  rw [List.filter_cons_of_pos (by simpa using present), List.flatMap_cons]

/-! ### One call -/

/-- In one sector: the entry with that number, or the number of those that are passed. -/
theorem readEntries_eq (buf : Buf) {next : Nat} (idxs : List Nat) : ∀ {seen : Nat}, seen ≤ next →
    readEntries buf (next * dirEntrySize) idxs (seen * dirEntrySize) =
      some (match (sectorLive buf idxs)[next - seen]? with
        | some entry => .found entry
        | none => .passed ((seen + (sectorLive buf idxs).length) * dirEntrySize)) := by
  induction idxs with
  | nil => exact fun _ => rfl
  | cons idx rest inductionHypothesis =>
      intro seen below
      unfold readEntries
      by_cases used : word buf (idx * dirEntrySize + 20) ≠ 0
      · rw [if_pos used, sectorLive_used rest used]
        by_cases before : seen < next
        · have left : next - seen = next - (seen + 1) + 1 := by omega
          have count : (seen + 1) + (sectorLive buf rest).length =
              seen + (dirEntryAt buf idx :: sectorLive buf rest).length := by
            rw [List.length_cons]
            omega
          have step : seen * dirEntrySize + dirEntrySize = (seen + 1) * dirEntrySize :=
            (Nat.succ_mul seen dirEntrySize).symm
          rw [if_pos (Nat.mul_lt_mul_of_pos_right before (by decide)), step, inductionHypothesis before,
            left, List.getElem?_cons_succ, count]
        · have here : seen = next := by omega
          subst here
          rw [if_neg (Nat.lt_irrefl _), if_pos rfl, Nat.sub_self, List.getElem?_cons_zero]
      · rw [if_neg used, sectorLive_unused rest used]
        exact inductionHypothesis below

/-- In the blocks: the entry with that number, if there are so many. -/
theorem readBlocks_eq (disk : Disk) {total next : Nat} (more : next < total) (blocks : List Nat) :
    ∀ {seen : Nat}, seen ≤ next →
      readBlocks disk (total * dirEntrySize) (next * dirEntrySize) blocks (seen * dirEntrySize) =
        some (blocksLive disk blocks)[next - seen]? := by
  have inside : ¬ next * dirEntrySize ≥ total * dirEntrySize :=
    Nat.not_le.mpr (Nat.mul_lt_mul_of_pos_right more (by decide))
  induction blocks with
  | nil => exact fun _ => rfl
  | cons lba rest inductionHypothesis =>
      intro seen below
      unfold readBlocks
      rw [if_neg inside]
      by_cases missing : lba = 0
      · subst missing
        rw [if_pos rfl, blocksLive_missing]
        exact inductionHypothesis below
      · rw [if_neg missing, blocksLive_cons disk rest missing,
          readEntries_eq (ideRead disk lba 1) (List.range (sectorSize / dirEntrySize)) below]
        cases read : (sectorLive (ideRead disk lba 1)
            (List.range (sectorSize / dirEntrySize)))[next - seen]? with
        | some entry =>
            have short := (List.getElem?_eq_some_iff.mp read).1
            rw [List.getElem?_append_left short, read]
        | none =>
            have long := List.getElem?_eq_none_iff.mp read
            rw [List.getElem?_append_right long, Nat.sub_sub]
            exact inductionHypothesis (by omega)

/-- `dir_read` finds the entry with the number of the stream. -/
theorem dirRead_eq (disk : Disk) (inode : DirInode) (next : Nat) :
    dirRead disk inode ((liveEntries disk inode).length * dirEntrySize) (next * dirEntrySize) =
      some (liveEntries disk inode)[next]? := by
  by_cases more : next < (liveEntries disk inode).length
  · have read := readBlocks_eq disk more (blocksOf disk inode) (Nat.zero_le next)
    rw [Nat.zero_mul] at read
    exact read
  · have passed := Nat.not_lt.mp more
    rw [List.getElem?_eq_none passed]
    exact dirRead_end disk inode (Nat.mul_le_mul_right _ passed)

namespace Streams

/-! ### A stream and its list -/

/-- A stream over a directory with these entries, which stands at the one with this number. -/
def Stands (s : Streams) (dir : DirPtr) (entries : List DirEntry) (next : Nat) : Prop :=
  ∃ stream, s.deref dir = some stream ∧ stream.dirPos = next * dirEntrySize ∧
    liveEntries s.part.disk stream.inode = entries ∧
    s.iSize stream.inode.iNo = entries.length * dirEntrySize

variable {s : Streams} {dir : DirPtr} {entries : List DirEntry} {next : Nat}

theorem Stands.setPos (stands : s.Stands dir entries next) (next' : Nat) :
    (s.setPos dir (next' * dirEntrySize)).Stands dir entries next' := by
  obtain ⟨stream, found, _, live, size⟩ := stands
  refine ⟨_, deref_setPos_same found _, rfl, ?_, ?_⟩
  · rw [setPos_part]
    exact live
  · rw [setPos_iSize]
    exact size

/-- The stream moves to the next entry, and stays behind the last. -/
theorem Stands.read (stands : s.Stands dir entries next) :
    ∃ s', s.sysReaddir dir = some (s', entries[next]?) ∧
      s'.Stands dir entries (if next < entries.length then next + 1 else next) := by
  obtain ⟨stream, found, position, live, size⟩ := stands
  have read := dirRead_eq s.part.disk stream.inode next
  rw [live, ← size, ← position] at read
  have answer : s.sysReaddir dir = some
      (if entries[next]?.isSome then s.setPos dir (stream.dirPos + dirEntrySize) else s, entries[next]?) := by
    unfold sysReaddir
    rw [found, Option.bind_eq_bind, Option.bind_some, read, Option.bind_eq_bind, Option.bind_some]
    cases entries[next]? <;> rfl
  rw [answer]
  by_cases inside : next < entries.length
  · rw [List.getElem?_eq_getElem inside, if_pos inside]
    refine ⟨_, rfl, ?_⟩
    have moved := Stands.setPos (⟨stream, found, position, live, size⟩ : s.Stands dir entries next) (next + 1)
    rw [Nat.succ_mul, ← position] at moved
    exact moved
  · rw [List.getElem?_eq_none (Nat.not_lt.mp inside), if_neg inside]
    exact ⟨_, rfl, stream, found, position, live, size⟩

theorem Stands.rewind (stands : s.Stands dir entries next) :
    ∃ s', s.sysRewinddir dir = some s' ∧ s'.Stands dir entries 0 := by
  have moved := stands.setPos 0
  rw [Nat.zero_mul] at moved
  obtain ⟨stream, found, _⟩ := stands
  refine ⟨s.setPos dir 0, ?_, moved⟩
  unfold sysRewinddir
  rw [found]
  rfl

/-! ### A sequence of calls -/

/-- Calls on one stream: what each `sys_readdir` returns. -/
def answers (s : Streams) (dir : DirPtr) : List Op → Option (Streams × List (Option DirEntry))
  | [] => some (s, [])
  | .read :: ops => do
      let (s, entry) ← s.sysReaddir dir
      let (s, rest) ← answers s dir ops
      return (s, entry :: rest)
  | .rewind :: ops => do
      let s ← s.sysRewinddir dir
      answers s dir ops

/-- The same over a list. -/
def listing (entries : List DirEntry) : (next : Nat) → List Op → List (Option DirEntry)
  | _, [] => []
  | next, .read :: ops =>
      entries[next]? :: listing entries (if next < entries.length then next + 1 else next) ops
  | _, .rewind :: ops => listing entries 0 ops

theorem Stands.answered (ops : List Op) : ∀ {s : Streams} {next : Nat}, s.Stands dir entries next →
    ∃ s', s.answers dir ops = some (s', listing entries next ops) := by
  induction ops with
  | nil => exact fun _ => ⟨_, rfl⟩
  | cons op ops inductionHypothesis =>
      intro s next stands
      cases op with
      | read =>
          obtain ⟨s₁, isRead, stands₁⟩ := stands.read
          obtain ⟨s₂, isRest⟩ := inductionHypothesis stands₁
          refine ⟨s₂, ?_⟩
          unfold Streams.answers
          rw [isRead, Option.bind_eq_bind, Option.bind_some]
          dsimp only
          rw [isRest]
          rfl
      | rewind =>
          obtain ⟨s₁, isRewound, stands₁⟩ := stands.rewind
          obtain ⟨s₂, isRest⟩ := inductionHypothesis stands₁
          refine ⟨s₂, ?_⟩
          unfold Streams.answers
          rw [isRewound, Option.bind_eq_bind, Option.bind_some, isRest]
          rfl

/-- Reads alone go through the list. -/
theorem listing_reads (entries : List DirEntry) (count : Nat) : ∀ next,
    listing entries next (List.replicate count .read) =
      (List.range count).map fun k => entries[next + k]? := by
  induction count with
  | zero => exact fun _ => rfl
  | succ count inductionHypothesis =>
      intro next
      rw [List.replicate_succ, listing, inductionHypothesis, List.range_succ_eq_map, List.map_cons,
        List.map_map]
      congr 1
      apply List.map_congr_left
      intro k _
      by_cases inside : next < entries.length
      · rw [if_pos inside, Function.comp_apply, Nat.succ_eq_add_one, Nat.add_comm k 1, Nat.add_assoc]
      · have passed := Nat.not_lt.mp inside
        rw [if_neg inside, Function.comp_apply, List.getElem?_eq_none (by omega),
          List.getElem?_eq_none (by omega)]

theorem listing_rewind (entries : List DirEntry) (ops rest : List Op) : ∀ next,
    listing entries next (ops ++ .rewind :: rest) = listing entries next ops ++ listing entries 0 rest := by
  induction ops with
  | nil => exact fun _ => rfl
  | cons op ops inductionHypothesis =>
      intro next
      cases op with
      | read => exact congrArg _ (inductionHypothesis _)
      | rewind => exact inductionHypothesis 0

/-- A stream at the start lists the live entries in order and then `NULL`, and so it does
after `sys_rewinddir`, whatever was read before. -/
theorem readdir_lists (s : Streams) (dir : DirPtr) (stream : Stream)
    (found : s.deref dir = some stream) (start : stream.dirPos = 0)
    (size : s.iSize stream.inode.iNo =
      dirEntrySize * (liveEntries s.part.disk stream.inode).length) (count : Nat) :
    (∃ s', s.answers dir (List.replicate count .read) =
      some (s', (List.range count).map fun k => (liveEntries s.part.disk stream.inode)[k]?)) ∧
    ∀ ops, ∃ t before s', s.answers dir ops = some (t, before) ∧
      s.answers dir (ops ++ .rewind :: List.replicate count .read) =
        some (s', before ++ (List.range count).map fun k => (liveEntries s.part.disk stream.inode)[k]?) := by
  have stands : s.Stands dir (liveEntries s.part.disk stream.inode) 0 :=
    ⟨stream, found, start.trans (Nat.zero_mul _).symm, rfl, size.trans (Nat.mul_comm _ _)⟩
  have reads := listing_reads (liveEntries s.part.disk stream.inode) count 0
  simp only [Nat.zero_add] at reads
  constructor
  · rw [← reads]
    exact stands.answered _
  · intro ops
    obtain ⟨t, isBefore⟩ := stands.answered ops
    obtain ⟨s', isAfter⟩ := stands.answered (ops ++ .rewind :: List.replicate count .read)
    refine ⟨t, _, s', isBefore, ?_⟩
    rw [isAfter, listing_rewind, reads]

/-- Slots 0 and 2 of sector 9 and the last slot of sector 11 are in use. -/
def holedDisk : Disk := fun sec off =>
  if (sec = 9 ∧ (off = 20 ∨ off = 68)) ∨ (sec = 11 ∧ off = 500) then 1 else 0

/-- The root directory with a block missing between the two. -/
def holedPart : Partition :=
  ⟨holedDisk, 1, [⟨0, 1, [9, 0, 11, 0, 0, 0, 0, 0, 0, 0, 0, 0, 0]⟩],
    ⟨0, 1, [9, 0, 11, 0, 0, 0, 0, 0, 0, 0, 0, 0, 0]⟩⟩

theorem holedPart_live : (liveEntries holedPart.disk holedPart.rootInode).length = 3 := by
  decide +kernel

/-- Three entries and `NULL`. -/
theorem holed_listed :
    ∃ s', (openRootDir holedPart fun _ => 72).answers .rootDir (List.replicate 4 .read) =
      some (s', (List.range 4).map fun k => (liveEntries holedPart.disk holedPart.rootInode)[k]?) := by
  have size : 72 = dirEntrySize * (liveEntries holedPart.disk holedPart.rootInode).length := by
    rw [holedPart_live]
    rfl
  exact (readdir_lists (openRootDir holedPart fun _ => 72) .rootDir ⟨holedPart.rootInode, 0⟩ rfl rfl size 4).1

end Streams

end ZyOs.Fs.DirStreams
