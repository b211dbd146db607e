import ZyOs.Fs.DirStreams
import ZyOs.Fs.PathResolution

/-!
Contract: when two directory streams are independent of each other.

`sys_readdir` and `sys_rewinddir` use the `struct dir` of their handle and the
directory, and change only the former. So the question is whether the two handles
are the same `struct dir`: they are when both come from `/`, and then a read or a
rewind of one moves the other, as long as the root directory has an entry.

Does not own: directories that change between the calls.
-/

namespace ZyOs.Fs.DirStreams

/-! ### Reading an entry -/

/-- Offsets of entries. -/
def Aligned (offset : Nat) : Prop := offset % dirEntrySize = 0

theorem Aligned.next {offset : Nat} (aligned : Aligned offset) : Aligned (offset + dirEntrySize) := by
  simpa [Aligned] using aligned

theorem Aligned.next_le {cur dirPos : Nat} (curAligned : Aligned cur) (posAligned : Aligned dirPos)
    (below : cur < dirPos) : cur + dirEntrySize ≤ dirPos := by
  simp only [Aligned, dirEntrySize] at *
  omega

/-- The `ASSERT` of `dir_read` holds in a sector. -/
theorem readEntries_ok (buf : Buf) {dirPos : Nat} (posAligned : Aligned dirPos) (idxs : List Nat) :
    ∀ {cur : Nat}, Aligned cur → cur ≤ dirPos →
      ∃ scan, readEntries buf dirPos idxs cur = some scan ∧
        ∀ next, scan = .passed next → Aligned next ∧ next ≤ dirPos := by
  induction idxs with
  | nil =>
      intro cur aligned below
      refine ⟨_, rfl, ?_⟩
      rintro next ⟨⟩
      exact ⟨aligned, below⟩
  | cons idx rest inductionHypothesis =>
      intro cur aligned below
      unfold readEntries
      by_cases used : word buf (idx * dirEntrySize + 20) ≠ 0
      · rw [if_pos used]
        by_cases before : cur < dirPos
        · rw [if_pos before]
          exact inductionHypothesis aligned.next (aligned.next_le posAligned before)
        · rw [if_neg before, if_pos (by omega)]
          exact ⟨_, rfl, fun next eq => nomatch eq⟩
      · rw [if_neg used]
        exact inductionHypothesis aligned below

theorem readBlocks_ok (disk : Disk) (iSize : Nat) {dirPos : Nat} (posAligned : Aligned dirPos)
    (blocks : List Nat) :
    ∀ {cur : Nat}, Aligned cur → cur ≤ dirPos →
      ∃ entry, readBlocks disk iSize dirPos blocks cur = some entry := by
  induction blocks with
  | nil => exact fun _ _ => ⟨_, rfl⟩
  | cons lba rest inductionHypothesis =>
      intro cur aligned below
      unfold readBlocks
      by_cases done : dirPos ≥ iSize
      · exact ⟨_, if_pos done⟩
      · rw [if_neg done]
        by_cases empty : lba = 0
        · rw [if_pos empty]
          exact inductionHypothesis aligned below
        · rw [if_neg empty]
          obtain ⟨scan, eq, passed⟩ := readEntries_ok (ideRead disk lba 1) posAligned
            (List.range (sectorSize / dirEntrySize)) aligned below
          rw [eq]
          cases scan with
          | passed next => exact inductionHypothesis (passed next rfl).1 (passed next rfl).2
          | found entry => exact ⟨_, rfl⟩

/-- `dir_read` returns, from every position that is the offset of an entry. -/
theorem dirRead_ok (disk : Disk) (inode : DirInode) (iSize : Nat) {dirPos : Nat}
    (aligned : Aligned dirPos) : ∃ entry, dirRead disk inode iSize dirPos = some entry :=
  readBlocks_ok disk iSize aligned _ (Nat.zero_mod _) (Nat.zero_le _)

theorem dirRead_end (disk : Disk) (inode : DirInode) {iSize dirPos : Nat} (done : dirPos ≥ iSize) :
    dirRead disk inode iSize dirPos = some none := by
  unfold dirRead
  cases blocksOf disk inode with
  | nil => rfl
  | cons lba rest => exact if_pos done

/-- A sector without an entry for the first position has none for any. -/
theorem readEntries_unused {buf : Buf} {idxs : List Nat} {next : Nat}
    (passed : readEntries buf 0 idxs 0 = some (.passed next)) (dirPos cur : Nat) :
    next = 0 ∧ readEntries buf dirPos idxs cur = some (.passed cur) := by
  induction idxs with
  | nil =>
      simp only [readEntries, Option.some.injEq, Scan.passed.injEq] at passed
      exact ⟨passed.symm, rfl⟩
  | cons idx rest inductionHypothesis =>
      unfold readEntries at passed ⊢
      by_cases used : word buf (idx * dirEntrySize + 20) ≠ 0
      · simp [used] at passed
      · rw [if_neg used] at passed ⊢
        exact inductionHypothesis passed

theorem readBlocks_unused {disk : Disk} {iSize : Nat} {blocks : List Nat}
    (bare : readBlocks disk iSize 0 blocks 0 = some none) (dirPos cur : Nat) :
    readBlocks disk iSize dirPos blocks cur = some none := by
  induction blocks generalizing cur with
  | nil => rfl
  | cons lba rest inductionHypothesis =>
      unfold readBlocks at bare ⊢
      by_cases done : dirPos ≥ iSize
      · exact if_pos done
      · rw [if_neg done]
        rw [if_neg (by omega)] at bare
        by_cases empty : lba = 0
        · rw [if_pos empty] at bare ⊢
          exact inductionHypothesis bare cur
        · rw [if_neg empty] at bare ⊢
          cases scan : readEntries (ideRead disk lba 1) 0 (List.range (sectorSize / dirEntrySize)) 0 with
          | none => simp [scan] at bare
          | some scan' =>
              cases scan' with
              | found entry => simp [scan] at bare
              | passed next =>
                  obtain ⟨rfl, unused⟩ := readEntries_unused scan dirPos cur
                  rw [scan] at bare
                  rw [unused]
                  exact inductionHypothesis bare cur

/-- A directory without a first entry has no entry at all. -/
theorem dirRead_empty {disk : Disk} {inode : DirInode} {iSize : Nat}
    (bare : dirRead disk inode iSize 0 = some none) (dirPos : Nat) :
    dirRead disk inode iSize dirPos = some none :=
  readBlocks_unused bare dirPos 0

namespace Streams

/-! ### One call -/

theorem setPos_part (s : Streams) (dir : DirPtr) (dirPos : Nat) :
    (s.setPos dir dirPos).part = s.part := by
  cases dir <;> rfl

theorem setPos_iSize (s : Streams) (dir : DirPtr) (dirPos : Nat) :
    (s.setPos dir dirPos).iSize = s.iSize := by
  cases dir <;> rfl

theorem setPos_length (s : Streams) (dir : DirPtr) (dirPos : Nat) :
    (s.setPos dir dirPos).dirs.length = s.dirs.length := by
  cases dir with
  | rootDir => rfl
  | heap idx => exact List.length_modify _ _ _

theorem deref_setPos_same {s : Streams} {dir : DirPtr} {stream : Stream}
    (found : s.deref dir = some stream) (dirPos : Nat) :
    (s.setPos dir dirPos).deref dir = some { stream with dirPos := dirPos } := by
  cases dir with
  | rootDir =>
      cases found
      rfl
  | heap idx =>
      simp only [deref, Option.join_eq_some_iff] at found
      simp [deref, setPos, found]

theorem deref_setPos_other (s : Streams) {dir other : DirPtr} (ne : dir ≠ other) (dirPos : Nat) :
    (s.setPos dir dirPos).deref other = s.deref other := by
  cases dir with
  | rootDir =>
      cases other with
      | rootDir => exact absurd rfl ne
      | heap idx => rfl
  | heap idx =>
      cases other with
      | rootDir => rfl
      | heap idx' =>
          have apart : idx ≠ idx' := fun eq => ne (by rw [eq])
          simp [deref, setPos, apart]

/-- A stream that is open and stands at an entry. -/
structure Open (s : Streams) (dir : DirPtr) (stream : Stream) : Prop where
  deref : s.deref dir = some stream
  aligned : Aligned stream.dirPos

/-- What `sys_readdir` returns and where the stream stands afterwards. -/
theorem sysReaddir_spec {s : Streams} {dir : DirPtr} {stream : Stream} (opened : s.Open dir stream) :
    ∃ entry, dirRead s.part.disk stream.inode (s.iSize stream.inode.iNo) stream.dirPos = some entry ∧
      s.sysReaddir dir = some (if entry.isSome then s.setPos dir (stream.dirPos + dirEntrySize) else s,
        entry) := by
  obtain ⟨entry, eq⟩ := dirRead_ok s.part.disk stream.inode (s.iSize stream.inode.iNo) opened.aligned
  refine ⟨entry, eq, ?_⟩
  unfold sysReaddir
  simp only [opened.deref, eq, Option.bind_eq_bind, Option.bind_some]
  cases entry <;> rfl

theorem sysRewinddir_spec {s : Streams} {dir : DirPtr} {stream : Stream} (opened : s.Open dir stream) :
    s.sysRewinddir dir = some (s.setPos dir 0) := by
  unfold sysRewinddir
  rw [opened.deref]
  rfl

/-- A call on one stream keeps every stream open; only its own may move. -/
theorem Open.setPos {s : Streams} {dir : DirPtr} {stream : Stream} (opened : s.Open dir stream)
    {dirPos : Nat} (aligned : Aligned dirPos) {other : DirPtr}
    (otherOpened : ∃ stream, s.Open other stream) :
    ∃ stream, (s.setPos dir dirPos).Open other stream := by
  by_cases same : dir = other
  · subst same
    exact ⟨_, deref_setPos_same opened.deref dirPos, aligned⟩
  · obtain ⟨stream', opened'⟩ := otherOpened
    exact ⟨stream', (deref_setPos_other s same dirPos).trans opened'.deref, opened'.aligned⟩

/-- Both handles are open. -/
def BothOpen (s : Streams) (dir : Handle → DirPtr) : Prop := ∀ who, ∃ stream, s.Open (dir who) stream

theorem BothOpen.setPos {s : Streams} {dir : Handle → DirPtr} (both : s.BothOpen dir) (who : Handle)
    {dirPos : Nat} (aligned : Aligned dirPos) : (s.setPos (dir who) dirPos).BothOpen dir := by
  intro other
  obtain ⟨stream, opened⟩ := both who
  exact opened.setPos aligned (both other)

/-- The state after a read. -/
theorem BothOpen.readdir {s : Streams} {dir : Handle → DirPtr} (both : s.BothOpen dir) {who : Handle}
    {stream : Stream} (opened : s.Open (dir who) stream) (entry : Option DirEntry) :
    (if entry.isSome then s.setPos (dir who) (stream.dirPos + dirEntrySize) else s).BothOpen dir := by
  split
  · exact both.setPos who opened.aligned.next
  · exact both

/-! ### Two handles -/

/-- Two states that look the same through one handle. -/
structure SameView (s t : Streams) (dir : DirPtr) : Prop where
  disk : s.part.disk = t.part.disk
  iSize : s.iSize = t.iSize
  deref : s.deref dir = t.deref dir

theorem SameView.setPos {s t : Streams} {dir : DirPtr} (same : SameView s t dir) {stream : Stream}
    (found : s.deref dir = some stream) (dirPos : Nat) :
    SameView (s.setPos dir dirPos) (t.setPos dir dirPos) dir := by
  refine ⟨?_, ?_, ?_⟩
  · rw [setPos_part, setPos_part, same.disk]
  · rw [setPos_iSize, setPos_iSize, same.iSize]
  · rw [deref_setPos_same found, deref_setPos_same (same.deref ▸ found)]

/-- A call on the other handle is not seen. -/
theorem SameView.setPos_other {s t : Streams} {dir other : DirPtr} (same : SameView s t dir)
    (ne : other ≠ dir) (dirPos : Nat) : SameView (s.setPos other dirPos) t dir := by
  refine ⟨?_, ?_, ?_⟩
  · rw [setPos_part, same.disk]
  · rw [setPos_iSize, same.iSize]
  · rw [deref_setPos_other s ne, same.deref]

theorem calls_sameView {dir : Handle → DirPtr} (ne : dir .first ≠ dir .second) (who : Handle)
    (ops : List (Handle × Op)) :
    ∀ {s t : Streams}, s.BothOpen dir → t.BothOpen dir → SameView s t (dir who) →
      ∃ together alone, s.calls dir ops = some together ∧
        t.calls dir (ops.filter (·.1 = who)) = some alone ∧ together.filter (·.1 = who) = alone := by
  induction ops with
  | nil => exact fun _ _ _ => ⟨[], [], rfl, rfl, rfl⟩
  | cons call rest inductionHypothesis =>
      intro s t sBoth tBoth same
      obtain ⟨caller, op⟩ := call
      obtain ⟨stream, opened⟩ := sBoth caller
      by_cases own : caller = who
      · subst own
        have tOpened : t.Open (dir caller) stream := ⟨same.deref ▸ opened.deref, opened.aligned⟩
        rw [List.filter_cons_of_pos (by simp)]
        cases op with
        | read =>
            obtain ⟨entry, eq, sRead⟩ := sysReaddir_spec opened
            obtain ⟨entry', eq', tRead⟩ := sysReaddir_spec tOpened
            rw [← same.disk, ← same.iSize, eq] at eq'
            obtain rfl : entry = entry' := Option.some.inj eq'
            have next : SameView (if entry.isSome then s.setPos (dir caller) (stream.dirPos + dirEntrySize) else s)
                (if entry.isSome then t.setPos (dir caller) (stream.dirPos + dirEntrySize) else t)
                (dir caller) := by
              split
              · exact same.setPos opened.deref _
              · exact same
            obtain ⟨together, alone, sCalls, tCalls, filtered⟩ :=
              inductionHypothesis (sBoth.readdir opened entry) (tBoth.readdir tOpened entry) next
            refine ⟨(caller, entry) :: together, (caller, entry) :: alone, ?_, ?_, ?_⟩
            · simp only [calls, sRead, Option.bind_eq_bind, Option.bind_some, sCalls, Option.pure_def]
            · simp only [calls, tRead, Option.bind_eq_bind, Option.bind_some, tCalls, Option.pure_def]
            · rw [List.filter_cons_of_pos (by simp), filtered]
        | rewind =>
            obtain ⟨together, alone, sCalls, tCalls, filtered⟩ :=
              inductionHypothesis (sBoth.setPos caller (Nat.zero_mod _))
                (tBoth.setPos caller (Nat.zero_mod _)) (same.setPos opened.deref 0)
            refine ⟨together, alone, ?_, ?_, filtered⟩
            · simp only [calls, sysRewinddir_spec opened, Option.bind_eq_bind, Option.bind_some, sCalls]
            · simp only [calls, sysRewinddir_spec tOpened, Option.bind_eq_bind, Option.bind_some, tCalls]
      · have other : dir caller ≠ dir who := by
          cases caller <;> cases who
          · exact absurd rfl own
          · exact ne
          · exact ne.symm
          · exact absurd rfl own
        rw [List.filter_cons_of_neg (by simpa using own)]
        cases op with
        | read =>
            obtain ⟨entry, eq, sRead⟩ := sysReaddir_spec opened
            have next : SameView (if entry.isSome then s.setPos (dir caller) (stream.dirPos + dirEntrySize) else s)
                t (dir who) := by
              split
              · exact same.setPos_other other _
              · exact same
            obtain ⟨together, alone, sCalls, tCalls, filtered⟩ :=
              inductionHypothesis (sBoth.readdir opened entry) tBoth next
            refine ⟨(caller, entry) :: together, alone, ?_, tCalls, ?_⟩
            · simp only [calls, sRead, Option.bind_eq_bind, Option.bind_some, sCalls, Option.pure_def]
            · rw [List.filter_cons_of_neg (by simpa using own), filtered]
        | rewind =>
            obtain ⟨together, alone, sCalls, tCalls, filtered⟩ :=
              inductionHypothesis (sBoth.setPos caller (Nat.zero_mod _)) tBoth (same.setPos_other other 0)
            refine ⟨together, alone, ?_, tCalls, filtered⟩
            simp only [calls, sysRewinddir_spec opened, Option.bind_eq_bind, Option.bind_some, sCalls]

theorem independent_of_ne {s : Streams} {dir : Handle → DirPtr} (both : s.BothOpen dir)
    (ne : dir .first ≠ dir .second) : s.Independent dir := fun ops who =>
  calls_sameView ne who ops both both ⟨rfl, rfl, rfl⟩

/-! ### Two handles of `/` -/

/-- Both handles are `&root_dir`. -/
def bothRoot : Handle → DirPtr := fun _ => .rootDir

/-- `dir_read` of the root directory. -/
def rootRead (s : Streams) (dirPos : Nat) : Option (Option DirEntry) :=
  dirRead s.part.disk s.part.rootInode (s.iSize s.part.rootInode.iNo) dirPos

theorem open_rootDir {s : Streams} (aligned : Aligned s.rootPos) :
    s.Open .rootDir ⟨s.part.rootInode, s.rootPos⟩ := ⟨rfl, aligned⟩

theorem rootRead_ok {s : Streams} (aligned : Aligned s.rootPos) :
    ∃ entry, s.rootRead s.rootPos = some entry :=
  dirRead_ok s.part.disk s.part.rootInode _ aligned

/-- A read through either handle moves `root_dir`. -/
theorem calls_root_read {s : Streams} (aligned : Aligned s.rootPos) {entry : Option DirEntry}
    (eq : s.rootRead s.rootPos = some entry) (who : Handle) (rest : List (Handle × Op)) :
    s.calls bothRoot ((who, .read) :: rest) =
      ((if entry.isSome then s.setPos .rootDir (s.rootPos + dirEntrySize) else s).calls bothRoot
        rest).map ((who, entry) :: ·) := by
  obtain ⟨entry', eq', read⟩ := sysReaddir_spec (open_rootDir aligned)
  obtain rfl : entry = entry' := Option.some.inj (eq.symm.trans eq')
  simp only [calls, show bothRoot who = .rootDir from rfl, read, Option.bind_eq_bind,
    Option.bind_some, Option.pure_def]
  rw [Option.map_eq_bind]
  rfl

/-- What the calls return when the root directory has no entry. -/
def silent (ops : List (Handle × Op)) : List (Handle × Option DirEntry) :=
  ops.filterMap fun call => if call.2 = .read then some (call.1, none) else none

theorem filter_silent (ops : List (Handle × Op)) (who : Handle) :
    (silent ops).filter (·.1 = who) = silent (ops.filter (·.1 = who)) := by
  induction ops with
  | nil => rfl
  | cons call rest inductionHypothesis =>
      obtain ⟨caller, op⟩ := call
      unfold silent at *
      by_cases own : caller = who <;> cases op <;> simp [own, inductionHypothesis]

theorem calls_silent (ops : List (Handle × Op)) :
    ∀ {s : Streams}, Aligned s.rootPos → s.rootRead 0 = some none →
      s.calls bothRoot ops = some (silent ops) := by
  induction ops with
  | nil => exact fun _ _ => rfl
  | cons call rest inductionHypothesis =>
      intro s aligned bare
      obtain ⟨caller, op⟩ := call
      cases op with
      | read =>
          rw [calls_root_read aligned (dirRead_empty bare s.rootPos), if_neg (by simp),
            inductionHypothesis aligned bare]
          rfl
      | rewind =>
          have after : (s.setPos .rootDir 0).calls bothRoot rest = some (silent rest) :=
            @inductionHypothesis (s.setPos .rootDir 0) (Nat.zero_mod _) bare
          simp only [calls, show bothRoot caller = .rootDir from rfl, sysRewinddir_spec (open_rootDir aligned), Option.bind_eq_bind,
            Option.bind_some]
          exact after

theorem independent_of_empty {s : Streams} (aligned : Aligned s.rootPos)
    (bare : s.rootRead 0 = some none) : s.Independent bothRoot := by
  intro ops who
  exact ⟨_, _, calls_silent ops aligned bare, calls_silent _ aligned bare, filter_silent ops who⟩

/-- Reads through the second handle reach the end of the directory. -/
theorem calls_drain (n : Nat) :
    ∀ {s : Streams}, Aligned s.rootPos →
      ∃ (s' : Streams) (outputs : List (Handle × Option DirEntry)),
        (∀ output ∈ outputs, output.1 = Handle.second) ∧ Aligned s'.rootPos ∧
        s'.rootRead = s.rootRead ∧
        (s.rootRead s.rootPos = some none → s'.rootRead s'.rootPos = some none) ∧
        (s'.rootRead s'.rootPos = some none ∨ s'.rootPos = s.rootPos + n * dirEntrySize) ∧
        ∀ rest, s.calls bothRoot (List.replicate n (.second, .read) ++ rest) =
          (s'.calls bothRoot rest).map (outputs ++ ·) := by
  induction n with
  | zero =>
      intro s aligned
      refine ⟨s, [], by simp, aligned, rfl, id, .inr (by simp), ?_⟩
      intro rest
      simp
  | succ n inductionHypothesis =>
      intro s aligned
      obtain ⟨entry, eq⟩ := rootRead_ok aligned
      obtain ⟨next, nextEq⟩ :
        ∃ next, next = if entry.isSome then s.setPos .rootDir (s.rootPos + dirEntrySize) else s :=
          ⟨_, rfl⟩
      have nextAligned : Aligned next.rootPos := by
        rw [nextEq]
        split
        · exact aligned.next
        · exact aligned
      have nextRead : next.rootRead = s.rootRead := by
        rw [nextEq]
        split <;> rfl
      obtain ⟨s', outputs, all, aligned', same, stays, reached, eqCalls⟩ :=
        inductionHypothesis nextAligned
      have atEnd : s.rootRead s.rootPos = some none → s'.rootRead s'.rootPos = some none := by
        intro done
        obtain rfl : entry = none := Option.some.inj (eq.symm.trans done)
        rw [if_neg (by simp)] at nextEq
        subst nextEq
        exact stays done
      refine ⟨s', (.second, entry) :: outputs, ?_, aligned', same.trans nextRead, atEnd, ?_, ?_⟩
      · intro output mem
        rcases List.mem_cons.mp mem with rfl | old
        · rfl
        · exact all output old
      · cases entry with
        | none => exact .inl (atEnd eq)
        | some e =>
            rcases reached with stuck | moved
            · exact .inl stuck
            · right
              rw [moved, nextEq]
              simp only [Option.isSome_some, if_true, setPos]
              ring
      · intro rest
        rw [List.replicate_succ, List.cons_append, calls_root_read aligned eq, ← nextEq, eqCalls,
          Option.map_map]
        rfl

/-- With an entry in the root directory, some calls through one handle are seen
through the other. -/
theorem not_independent_root {s : Streams} (aligned : Aligned s.rootPos)
    (entries : s.rootRead 0 ≠ some none) : ¬s.Independent bothRoot := by
  intro independent
  obtain ⟨entry, eq⟩ := rootRead_ok aligned
  have alone : s.calls bothRoot [(.first, .read)] = some [(.first, entry)] :=
    calls_root_read aligned eq .first []
  cases entry with
  | none =>
      -- at the end: a rewind through the second handle brings the first entry back
      obtain ⟨first, firstEq⟩ := @rootRead_ok (s.setPos .rootDir 0) (Nat.zero_mod _)
      have read := @calls_root_read (s.setPos .rootDir 0) (Nat.zero_mod _) _ firstEq .first []
      obtain ⟨together, alone', eqTogether, eqAlone, filtered⟩ :=
        independent [(.second, .rewind), (.first, .read)] .first
      have rewound : s.calls bothRoot [(.second, .rewind), (.first, .read)] =
          (s.setPos .rootDir 0).calls bothRoot [(.first, .read)] := by
        simp only [calls, show bothRoot .second = .rootDir from rfl,
          sysRewinddir_spec (open_rootDir aligned), Option.bind_eq_bind, Option.bind_some]
      have seen : s.calls bothRoot [(.second, .rewind), (.first, .read)] = some [(.first, first)] :=
        rewound.trans read
      obtain rfl : [(Handle.first, first)] = together := Option.some.inj (seen.symm.trans eqTogether)
      obtain rfl : [(Handle.first, none)] = alone' := Option.some.inj (alone.symm.trans eqAlone)
      simp only [decide_true, List.filter_cons_of_pos, List.filter_nil, List.cons.injEq,
        Prod.mk.injEq, true_and, and_true] at filtered
      exact entries (filtered ▸ firstEq)
  | some e =>
      -- not at the end: the second handle reads the rest
      obtain ⟨s', outputs, all, aligned', same, _, reached, eqCalls⟩ :=
        @calls_drain (s.iSize s.part.rootInode.iNo) s aligned
      have done : s'.rootRead s'.rootPos = some none := by
        rcases reached with stuck | moved
        · exact stuck
        · rw [same]
          apply dirRead_end
          rw [moved]
          simp only [dirEntrySize]
          omega
      have seen := (eqCalls [(.first, .read)]).trans
        (congrArg _ (calls_root_read aligned' done .first []))
      obtain ⟨together, alone', eqTogether, eqAlone, filtered⟩ :=
        independent (List.replicate (s.iSize s.part.rootInode.iNo) (.second, .read) ++ [(.first, .read)])
          .first
      have others : (List.replicate (s.iSize s.part.rootInode.iNo) (Handle.second, Op.read) ++
          [(Handle.first, Op.read)]).filter (·.1 = .first) = [(Handle.first, Op.read)] := by
        simp [List.filter_append]
      rw [others] at eqAlone
      obtain rfl : outputs ++ [(Handle.first, none)] = together :=
        Option.some.inj (seen.symm.trans eqTogether)
      obtain rfl : [(Handle.first, some e)] = alone' := Option.some.inj (alone.symm.trans eqAlone)
      have none : outputs.filter (·.1 = .first) = [] := by
        rw [List.filter_eq_nil_iff]
        intro output mem
        simp [all output mem]
      rw [List.filter_append, none] at filtered
      simp at filtered

/-! ### Opening -/

theorem root_path_iff (name : List UInt8) :
    (name.head? = some slash ∧ (name.tail = [] ∨ name.head? = some dot)) ↔ name = [slash] := by
  cases name with
  | nil => simp
  | cons first rest =>
      simp only [List.head?_cons, Option.some.injEq, List.tail_cons, List.cons.injEq]
      constructor
      · rintro ⟨rfl, empty | eq⟩
        · exact ⟨rfl, empty⟩
        · exact absurd eq (by decide)
      · rintro ⟨rfl, empty⟩
        exact ⟨rfl, .inl empty⟩

/-- The sectors and the root inode. -/
def fixed (part : Partition) : Disk × DirInode := (part.disk, part.rootInode)

theorem fixed_dirClose (part : Partition) (dir : Dir) : fixed (part.dirClose dir) = fixed part := by
  unfold Partition.dirClose
  split <;> rfl

theorem fixed_dirOpen {part part' : Partition} {iNo : Nat} {dir : Dir}
    (eq : part.dirOpen iNo = some (part', dir)) : fixed part' = fixed part := by
  unfold Partition.dirOpen Partition.inodeOpen at eq
  split at eq
  · simp only [Option.bind_eq_bind, Option.bind_some, Option.pure_def, Option.some.injEq,
      Prod.mk.injEq] at eq
    rw [← eq.1]
    rfl
  · simp only [Option.bind_eq_bind, Option.pure_def, Option.bind_eq_some_iff, Option.some.injEq,
      Prod.mk.injEq] at eq
    obtain ⟨_, ⟨inode, _, rfl⟩, rfl, _⟩ := eq
    rfl

/-- A search opens and closes inodes and changes nothing else. -/
theorem fixed_searchLoop (fuel : Nat) :
    ∀ {part part' : Partition} {parentDir : Dir} {parentInodeNo : Nat} {name : List UInt8}
      {subPath : Option (List UInt8)} {searchedPath : List UInt8} {dirE : DirEntry}
      {record : SearchResult},
      searchLoop fuel part parentDir parentInodeNo name subPath searchedPath dirE =
        some (part', record) → fixed part' = fixed part := by
  induction fuel with
  | zero => exact fun eq => nomatch eq
  | succ fuel inductionHypothesis =>
      intro part part' parentDir parentInodeNo name subPath searchedPath dirE record eq
      unfold searchLoop at eq
      split at eq
      · simp only [Option.bind_eq_bind, Option.pure_def, Option.bind_eq_some_iff, Option.some.injEq,
          Prod.mk.injEq] at eq
        obtain ⟨⟨opened, dir⟩, openEq, rfl, _⟩ := eq
        rw [fixed_dirOpen openEq, fixed_dirClose]
      · split at eq
        · split at eq
          · simp only [Option.some.injEq, Prod.mk.injEq] at eq
            rw [← eq.1]
          · simp only at eq
            split at eq
            · simp only [Option.bind_eq_bind, Option.bind_eq_some_iff] at eq
              obtain ⟨⟨opened, dir⟩, openEq, loop⟩ := eq
              rw [inductionHypothesis loop, fixed_dirOpen openEq, fixed_dirClose]
            · simp only [Option.some.injEq, Prod.mk.injEq] at eq
              rw [← eq.1]
            · exact inductionHypothesis eq
        · cases eq

theorem fixed_searchFile {part part' : Partition} {dirE : DirEntry} {pathname : List UInt8}
    {record : SearchResult} (eq : searchFile part dirE pathname = some (part', record)) :
    fixed part' = fixed part := by
  unfold searchFile at eq
  split at eq
  · simp only [Option.some.injEq, Prod.mk.injEq] at eq
    rw [← eq.1]
  · split at eq
    · exact fixed_searchLoop _ eq
    · cases eq

/-- `sys_opendir` returns `&root_dir` for the path `/`, and a new stream or `NULL`
for the others. -/
theorem sysOpendir_spec {s s' : Streams} {dirE : DirEntry} {name : List UInt8}
    {ret : Option DirPtr} (eq : s.sysOpendir dirE name = some (s', ret)) :
    (name = [slash] ∧ s' = s ∧ ret = some .rootDir) ∨
      (name ≠ [slash] ∧ fixed s'.part = fixed s.part ∧ s'.iSize = s.iSize ∧ s'.rootPos = s.rootPos ∧
        ((s'.dirs = s.dirs ∧ ret = none) ∨
          ∃ inode, s'.dirs = s.dirs ++ [some ⟨inode, 0⟩] ∧ ret = some (.heap s.dirs.length))) := by
  unfold sysOpendir at eq
  split at eq
  · simp only [root_path_iff] at eq
    by_cases root : name = [slash]
    · rw [if_pos root] at eq
      simp only [Option.some.injEq, Prod.mk.injEq] at eq
      exact .inl ⟨root, eq.1.symm, eq.2.symm⟩
    · rw [if_neg root] at eq
      simp only [Option.bind_eq_bind, Option.bind_eq_some_iff] at eq
      obtain ⟨⟨part, record⟩, search, eq⟩ := eq
      have same := fixed_searchFile search
      refine .inr ⟨root, ?_⟩
      split at eq
      · simp only [Option.bind_eq_some_iff, Option.pure_def, Option.some.injEq, Prod.mk.injEq] at eq
        obtain ⟨⟨part', dir⟩, openEq, rfl, rfl⟩ := eq
        refine ⟨?_, rfl, rfl, .inr ⟨dir.inode, rfl, rfl⟩⟩
        rw [fixed_dirClose, fixed_dirOpen openEq, same]
      · simp only [Option.pure_def, Option.some.injEq, Prod.mk.injEq] at eq
        obtain ⟨rfl, rfl⟩ := eq
        refine ⟨?_, rfl, rfl, .inl ⟨rfl, rfl⟩⟩
        rw [fixed_dirClose, same]
  · cases eq

/-! ### Runs -/

/-- What every call keeps. -/
structure Sound (part : Partition) (iSize : Nat → Nat) (s : Streams) : Prop where
  fixed : fixed s.part = fixed part
  iSize : s.iSize = iSize
  aligned : ∀ dir stream, s.deref dir = some stream → Aligned stream.dirPos

variable {part : Partition} {iSize : Nat → Nat}

theorem Sound.opened {s : Streams} (sound : s.Sound part iSize) {dir : DirPtr} {stream : Stream}
    (found : s.deref dir = some stream) : s.Open dir stream := ⟨found, sound.aligned dir stream found⟩

theorem Sound.setPos {s : Streams} (sound : s.Sound part iSize) {dir : DirPtr} {stream : Stream}
    (found : s.deref dir = some stream) {dirPos : Nat} (aligned : Aligned dirPos) :
    (s.setPos dir dirPos).Sound part iSize := by
  refine ⟨by rw [setPos_part, sound.fixed], by rw [setPos_iSize, sound.iSize], ?_⟩
  intro other stream' found'
  by_cases same : dir = other
  · subst same
    rw [deref_setPos_same found] at found'
    obtain rfl := Option.some.inj found'
    exact aligned
  · rw [deref_setPos_other s same] at found'
    exact sound.aligned other stream' found'

/-- The streams of `dirs` are those of `dirs'`, and maybe fewer. -/
theorem Sound.of_dirs {s s' : Streams} (sound : s.Sound part iSize)
    (same : Streams.fixed s'.part = Streams.fixed s.part) (size : s'.iSize = s.iSize)
    (pos : s'.rootPos = s.rootPos)
    (dirs : ∀ idx stream, s'.deref (.heap idx) = some stream →
      s.deref (.heap idx) = some stream ∨ stream.dirPos = 0) : s'.Sound part iSize := by
  refine ⟨same.trans sound.fixed, size.trans sound.iSize, ?_⟩
  intro dir stream found
  cases dir with
  | rootDir =>
      cases found
      rw [pos]
      exact sound.aligned .rootDir ⟨s.part.rootInode, s.rootPos⟩ rfl
  | heap idx =>
      rcases dirs idx stream found with old | zero
      · exact sound.aligned _ stream old
      · rw [zero]
        exact Nat.zero_mod _

theorem Sound.opendir {s s' : Streams} (sound : s.Sound part iSize) {dirE : DirEntry}
    {name : List UInt8} {ret : Option DirPtr} (eq : s.sysOpendir dirE name = some (s', ret)) :
    s'.Sound part iSize ∧ s.dirs.length ≤ s'.dirs.length := by
  rcases sysOpendir_spec eq with ⟨_, rfl, _⟩ | ⟨_, same, size, pos, ⟨dirs, _⟩ | ⟨inode, dirs, _⟩⟩
  · exact ⟨sound, le_refl _⟩
  · refine ⟨sound.of_dirs same size pos ?_, by rw [dirs]⟩
    intro idx stream found
    left
    simpa only [deref, dirs] using found
  · refine ⟨sound.of_dirs same size pos ?_, by rw [dirs]; simp⟩
    intro idx stream found
    simp only [deref, dirs] at found ⊢
    by_cases old : idx < s.dirs.length
    · left
      rwa [List.getElem?_append_left old] at found
    · right
      rw [List.getElem?_append_right (by omega)] at found
      cases at_ : idx - s.dirs.length with
      | zero =>
          rw [at_] at found
          cases found
          rfl
      | succ k => simp [at_] at found

theorem Sound.readdir {s s' : Streams} (sound : s.Sound part iSize) {dir : DirPtr}
    {ret : Option DirEntry} (eq : s.sysReaddir dir = some (s', ret)) :
    s'.Sound part iSize ∧ s.dirs.length ≤ s'.dirs.length := by
  cases found : s.deref dir with
  | none => simp [sysReaddir, found] at eq
  | some stream =>
      obtain ⟨entry, _, read⟩ := sysReaddir_spec (sound.opened found)
      rw [read] at eq
      simp only [Option.some.injEq, Prod.mk.injEq] at eq
      rw [← eq.1]
      split
      · exact ⟨sound.setPos found (sound.aligned dir stream found).next, by rw [setPos_length]⟩
      · exact ⟨sound, le_refl _⟩

theorem Sound.rewinddir {s s' : Streams} (sound : s.Sound part iSize) {dir : DirPtr}
    (eq : s.sysRewinddir dir = some s') :
    s'.Sound part iSize ∧ s.dirs.length ≤ s'.dirs.length := by
  cases found : s.deref dir with
  | none => simp [sysRewinddir, found] at eq
  | some stream =>
      rw [sysRewinddir_spec (sound.opened found)] at eq
      obtain rfl := Option.some.inj eq
      exact ⟨sound.setPos found (Nat.zero_mod _), by rw [setPos_length]⟩

theorem Sound.closedir {s s' : Streams} (sound : s.Sound part iSize) {dir : DirPtr}
    (eq : s.sysClosedir dir = some s') :
    s'.Sound part iSize ∧ s.dirs.length ≤ s'.dirs.length := by
  cases dir with
  | rootDir =>
      obtain rfl := Option.some.inj eq
      exact ⟨sound, le_refl _⟩
  | heap idx =>
      simp only [sysClosedir, Option.bind_eq_bind, Option.bind_eq_some_iff, Option.pure_def,
        Option.some.injEq] at eq
      obtain ⟨stream, _, rfl⟩ := eq
      refine ⟨sound.of_dirs (fixed_dirClose _ _) rfl rfl ?_, by simp⟩
      intro other stream' found
      left
      simp only [deref, List.getElem?_set, Option.join_eq_some_iff] at found ⊢
      split at found
      · split at found <;> simp at found
      · exact found

theorem Run.sound {s s' : Streams} (run : Run s s') (sound : s.Sound part iSize) :
    s'.Sound part iSize ∧ s.dirs.length ≤ s'.dirs.length := by
  induction run with
  | refl => exact ⟨sound, le_refl _⟩
  | opendir _ eq inductionHypothesis =>
      obtain ⟨before, le⟩ := inductionHypothesis
      exact ⟨(before.opendir eq).1, le.trans (before.opendir eq).2⟩
  | readdir _ eq inductionHypothesis =>
      obtain ⟨before, le⟩ := inductionHypothesis
      exact ⟨(before.readdir eq).1, le.trans (before.readdir eq).2⟩
  | rewinddir _ eq inductionHypothesis =>
      obtain ⟨before, le⟩ := inductionHypothesis
      exact ⟨(before.rewinddir eq).1, le.trans (before.rewinddir eq).2⟩
  | closedir _ eq inductionHypothesis =>
      obtain ⟨before, le⟩ := inductionHypothesis
      exact ⟨(before.closedir eq).1, le.trans (before.closedir eq).2⟩

theorem sound_openRootDir (part : Partition) (iSize : Nat → Nat) :
    (openRootDir part iSize).Sound part iSize := by
  refine ⟨rfl, rfl, ?_⟩
  intro dir stream found
  cases dir with
  | rootDir =>
      cases found
      exact Nat.zero_mod _
  | heap idx => simp [deref, openRootDir] at found

/-! ### The two handles of a run -/

/-- Two handles. -/
def pair (first second : DirPtr) : Handle → DirPtr
  | .first => first
  | .second => second

/-- Two streams that are open are independent exactly when not both were opened
by the path `/`, or the root directory has no entry. -/
theorem streams_independent_iff (part : Partition) (iSize : Nat → Nat)
    {s s₁ s₂ s₃ s₄ : Streams} {dirE₁ dirE₂ : DirEntry} {name₁ name₂ : List UInt8} {dir₁ dir₂ : DirPtr}
    (before : Run (openRootDir part iSize) s)
    (open₁ : s.sysOpendir dirE₁ name₁ = some (s₁, some dir₁)) (between : Run s₁ s₂)
    (open₂ : s₂.sysOpendir dirE₂ name₂ = some (s₃, some dir₂)) (after : Run s₃ s₄)
    (live₁ : (s₄.deref dir₁).isSome) (live₂ : (s₄.deref dir₂).isSome) :
    s₄.Independent (pair dir₁ dir₂) ↔
      ¬(name₁ = [slash] ∧ name₂ = [slash]) ∨
        dirRead part.disk part.rootInode (iSize part.rootInode.iNo) 0 = some none := by
  have sound := (before.sound (sound_openRootDir part iSize)).1
  have sound₁ := sound.opendir open₁
  have sound₂ := between.sound sound₁.1
  have sound₃ := sound₂.1.opendir open₂
  have sound₄ := (after.sound sound₃.1).1
  have both : s₄.BothOpen (pair dir₁ dir₂) := by
    intro who
    obtain ⟨stream₁, found₁⟩ := Option.isSome_iff_exists.mp live₁
    obtain ⟨stream₂, found₂⟩ := Option.isSome_iff_exists.mp live₂
    cases who with
    | first => exact ⟨stream₁, sound₄.opened found₁⟩
    | second => exact ⟨stream₂, sound₄.opened found₂⟩
  have rootRead : s₄.rootRead 0 = dirRead part.disk part.rootInode (iSize part.rootInode.iNo) 0 := by
    have same := sound₄.fixed
    simp only [Streams.fixed, Prod.mk.injEq] at same
    rw [Streams.rootRead, same.1, same.2, sound₄.iSize]
  have rootAligned : Aligned s₄.rootPos := sound₄.aligned .rootDir _ rfl
  rw [← rootRead]
  rcases sysOpendir_spec open₁ with ⟨root₁, _, eq₁⟩ | ⟨notRoot₁, _, _, _, ⟨_, eq₁⟩ | ⟨_, dirs₁, eq₁⟩⟩
  · rcases sysOpendir_spec open₂ with ⟨root₂, _, eq₂⟩ | ⟨notRoot₂, _, _, _, ⟨_, eq₂⟩ | ⟨_, _, eq₂⟩⟩
    · cases eq₁
      cases eq₂
      have roots : pair .rootDir .rootDir = bothRoot := by
        funext who
        cases who <;> rfl
      rw [roots]
      constructor
      · intro independent
        right
        by_contra entries
        exact not_independent_root rootAligned entries independent
      · rintro (notBoth | bare)
        · exact absurd ⟨root₁, root₂⟩ notBoth
        · exact independent_of_empty rootAligned bare
    · cases eq₂
    · cases eq₁
      cases eq₂
      exact ⟨fun _ => .inl fun roots => notRoot₂ roots.2,
        fun _ => independent_of_ne both (fun eq => nomatch eq)⟩
  · cases eq₁
  · refine ⟨fun _ => .inl fun roots => notRoot₁ roots.1, fun _ => independent_of_ne both ?_⟩
    cases eq₁
    rcases sysOpendir_spec open₂ with ⟨_, _, eq₂⟩ | ⟨_, _, _, _, ⟨_, eq₂⟩ | ⟨_, _, eq₂⟩⟩
    · cases eq₂
      exact fun eq => nomatch eq
    · cases eq₂
    · cases eq₂
      have len : s.dirs.length < s₁.dirs.length := by rw [dirs₁]; simp
      intro eq
      simp only [pair, DirPtr.heap.injEq] at eq
      have := sound₂.2
      omega

/-- The empty file system, with the root inode open. -/
def emptyPart : Partition :=
  ⟨emptyDisk, 1, [⟨0, 1, [9, 0, 0, 0, 0, 0, 0, 0, 0, 0, 0, 0, 0]⟩],
    ⟨0, 1, [9, 0, 0, 0, 0, 0, 0, 0, 0, 0, 0, 0, 0]⟩⟩

theorem emptyPart_read :
    dirRead emptyPart.disk emptyPart.rootInode 48 0 =
      some (some ⟨[dot, 0, 0, 0, 0, 0, 0, 0, 0, 0, 0, 0, 0, 0, 0, 0], 0, .directory⟩) := by
  decide +kernel

/-- The paths `/` and `/.` name one directory, but give two streams. -/
theorem streams_independent_dot :
    ∃ (s : Streams) (dir : DirPtr),
      (openRootDir emptyPart fun _ => 48).sysOpendir ⟨[], 0, .unknown⟩ [slash, dot] = some (s, some dir) ∧
        s.Independent (pair .rootDir dir) := by
  have root : (openRootDir emptyPart fun _ => 48).sysOpendir ⟨[], 0, .unknown⟩ [slash] =
      some (openRootDir emptyPart fun _ => 48, some .rootDir) := rfl
  obtain ⟨s, dir, opened, rootLive, live⟩ : ∃ (s : Streams) (dir : DirPtr),
      (openRootDir emptyPart fun _ => 48).sysOpendir ⟨[], 0, .unknown⟩ [slash, dot] =
        some (s, some dir) ∧ (s.deref .rootDir).isSome ∧ (s.deref dir).isSome :=
    ⟨_, _, rfl, rfl, rfl⟩
  refine ⟨s, dir, opened, ?_⟩
  apply (streams_independent_iff emptyPart (fun _ => 48) (.refl _) root (.refl _) opened (.refl _)
    rootLive live).mpr
  left
  decide

/-- Two streams of `/` are one. -/
theorem streams_of_root :
    (openRootDir emptyPart fun _ => 48).sysOpendir ⟨[], 0, .unknown⟩ [slash] =
        some (openRootDir emptyPart fun _ => 48, some .rootDir) ∧
      ¬(openRootDir emptyPart fun _ => 48).Independent (pair .rootDir .rootDir) := by
  refine ⟨rfl, ?_⟩
  have roots : pair .rootDir .rootDir = bothRoot := by
    funext who
    cases who <;> rfl
  rw [roots]
  have aligned : Aligned (openRootDir emptyPart fun _ => 48).rootPos := Nat.zero_mod _
  apply not_independent_root aligned
  intro bare
  have read := emptyPart_read.symm.trans bare
  cases read

end Streams

end ZyOs.Fs.DirStreams
