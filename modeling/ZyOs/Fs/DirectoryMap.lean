import ZyOs.Fs.DirectoryDelete

/-!
Contract: a directory as a map from names to entries, over every sequence of
insertions and deletions.

Owns:
- the directory that `sys_mkdir` makes, with the entries `.` and `..`;
- `DirRun`, the sequences of `sync_dir_entry` with new names and new inode
  numbers and of `delete_dir_entry` with the number of a live entry;
- `IsMap`: what a search finds, what an insertion adds and what a deletion takes.

The map is kept while the table of blocks is not needed a second time and while
no entry that is reached through it is deleted. Past the 252 entries of the
direct blocks, `sync_dir_entry` makes a table although there is one.
-/

namespace ZyOs.Fs

open ZyOs.Kernel
open InodeTable (Inode)

variable {part part' : Volume} {inode inode' : Inode} {entry : DirEntry} {name : List UInt8}
  {inodeNo : Nat} {fileType : FileTypes}

/-! ### New entries -/

/-- A name, a number and a type for which there is no entry yet. -/
structure IsNew (part : Volume) (inode : Inode) (name : List UInt8) (inodeNo : Nat)
    (fileType : FileTypes) : Prop where
  notEmpty : 1 ≤ name.length
  short : name.length ≤ 15
  isString : (0 : UInt8) ∉ name
  isLive : fileType ≠ .unknown
  small : inodeNo < 2 ^ 32
  name : ∀ other ∈ liveEntries part.disk inode, other.name ≠ name
  number : ∀ other ∈ liveEntries part.disk inode, other.iNo ≠ inodeNo

/-- A live entry other than `.` and `..` has this number. -/
def HasNumber (part : Volume) (inode : Inode) (inodeNo : Nat) : Prop :=
  ∃ entry ∈ liveEntries part.disk inode, entry.isProper = true ∧ entry.iNo = inodeNo

/-- What `create_dir_entry` makes of a name that fits. -/
def namedEntry (name : List UInt8) (inodeNo : Nat) (fileType : FileTypes) : DirEntry :=
  ⟨name ++ List.replicate (maxFileNameLen - name.length) 0, inodeNo, fileType⟩

theorem createDirEntry_short (short : name.length ≤ 15) :
    createDirEntry name inodeNo fileType = some (namedEntry name inodeNo fileType) :=
  if_pos (short.trans (by decide))

theorem namedEntry_name (isString : (0 : UInt8) ∉ name) (short : name.length ≤ 15) :
    (namedEntry name inodeNo fileType).name = name := by
  have padding : maxFileNameLen - name.length = (15 - name.length) + 1 := by
    simp only [maxFileNameLen]
    omega
  unfold DirEntry.name namedEntry
  rw [padding, List.replicate_succ, List.append_assoc, List.takeWhile_append_of_pos]
  · exact List.append_nil name
  intro char mem
  have ne : char ≠ 0 := fun isZero => isString (isZero ▸ mem)
  simpa using ne

theorem namedEntry_isWritten (short : name.length ≤ 15) (small : inodeNo < 2 ^ 32) :
    (namedEntry name inodeNo fileType).IsWritten where
  length := by
    simp only [namedEntry, List.length_append, List.length_replicate, maxFileNameLen]
    omega
  iNo := small

/-- The names `.` and `..` are taken from the start. -/
theorem IsNew.isFresh (isNew : IsNew part inode name inodeNo fileType)
    (isDir : IsDirectory part inode) :
    IsFresh part inode (namedEntry name inodeNo fileType) := by
  have inFirst : ∀ other ∈ liveAt (ideRead part.disk (sectorOf inode 0) 1),
      other ∈ liveEntries part.disk inode := fun other mem =>
    List.mem_flatMap.mpr ⟨_, sectorOf_mem_dirBlocks (by decide) isDir.first, mem⟩
  obtain ⟨self, selfMem, selfName⟩ := isDir.self
  obtain ⟨up, upMem, upName⟩ := isDir.up
  have notSelf := isNew.name self (inFirst self selfMem)
  have notUp := isNew.name up (inFirst up upMem)
  rw [selfName] at notSelf
  rw [upName] at notUp
  refine ⟨namedEntry_isWritten isNew.short isNew.small, isNew.isLive, ?_, ?_, isNew.number⟩
  · rw [DirEntry.isProper, namedEntry_name isNew.isString isNew.short]
    exact decide_eq_true ⟨notSelf.symm, notUp.symm⟩
  · rw [namedEntry_name isNew.isString isNew.short]
    exact isNew.name

/-! ### The directory that `sys_mkdir` makes -/

/-- The sector with the entries `.` and `..`. -/
def dotsSector (inodeNo parentNo : Nat) : Buf :=
  memcpy (memcpy (fun _ => 0) 0 (namedEntry [dot] inodeNo .directory).bytes dirEntrySize) dirEntrySize
    (namedEntry [dot, dot] parentNo .directory).bytes dirEntrySize

theorem dotsSector_eq (inodeNo parentNo : Nat) :
    dotsSector inodeNo parentNo =
      memcpy (newSector (namedEntry [dot] inodeNo .directory)) (1 * dirEntrySize)
        (namedEntry [dot, dot] parentNo .directory).bytes dirEntrySize := by
  rw [Nat.one_mul]
  rfl

theorem cleared_newSector (isWritten : entry.IsWritten) (isLive : entry.fType ≠ .unknown) :
    Cleared (newSector entry) := by
  rw [newSector_eq]
  exact cleared_copy cleared_zero isWritten isLive

theorem directory_ne_unknown : FileTypes.directory ≠ .unknown := by decide

section Made

variable {parentNo : Nat} (small : inodeNo < 2 ^ 32) (parentSmall : parentNo < 2 ^ 32)

include small parentSmall

theorem liveAt_dotsSector :
    (liveAt (dotsSector inodeNo parentNo)).Perm
      [namedEntry [dot, dot] parentNo .directory, namedEntry [dot] inodeNo .directory] := by
  have self : (namedEntry [dot] inodeNo .directory).IsWritten :=
    namedEntry_isWritten (by decide) small
  have up : (namedEntry [dot, dot] parentNo .directory).IsWritten :=
    namedEntry_isWritten (by decide) parentSmall
  have isFree : fTypeAt (newSector (namedEntry [dot] inodeNo .directory)) 1 = 0 := by
    have same := @sameSlot_memcpy (fun _ => 0) (namedEntry [dot] inodeNo .directory).bytes 0 1 (by decide)
    rw [newSector_eq, same.fTypeAt]
    rfl
  rw [dotsSector_eq]
  exact (liveAt_copy up directory_ne_unknown (by decide) isFree).trans
    ((liveAt_newSector self directory_ne_unknown).cons _)

theorem cleared_dotsSector : Cleared (dotsSector inodeNo parentNo) := by
  rw [dotsSector_eq]
  apply cleared_copy _ (namedEntry_isWritten (by decide) parentSmall) directory_ne_unknown
  exact cleared_newSector (namedEntry_isWritten (by decide) small) directory_ne_unknown

/-- What is made of a block that was just allocated. -/
def dotsInode (inodeNo lba : Nat) : Inode :=
  { setSector (inodeInit inodeNo) 0 lba with iSize := UInt32.ofNat (2 * dirEntrySize) }

omit small parentSmall in
theorem makeDirectory_eq_some (wellFormed : part.WellFormed)
    (isMade : makeDirectory part inodeNo parentNo = some (part', inode')) :
    ∃ part₁ lba, part.Allocated part₁ lba ∧
      part' = part₁.ideWrite lba (dotsSector inodeNo parentNo) ∧ inode' = dotsInode inodeNo lba := by
  unfold makeDirectory initDirectory at isMade
  rw [Volume.blockBitmapAlloc_eq] at isMade
  cases isBit : firstClear part.blockBitmap with
  | none =>
      rw [isBit] at isMade
      cases isMade
  | some bit =>
      have allocated := Volume.allocated_of_firstClear wellFormed isBit
      rw [isBit] at isMade
      simp only [Option.map_some, Option.bind_eq_bind, Option.bind_some, allocated_bit,
        createDirEntry_short (show [dot].length ≤ 15 by decide),
        createDirEntry_short (show [dot, dot].length ≤ 15 by decide)] at isMade
      by_cases notFirst : bit ≠ 0
      · simp only [notFirst, guard_true, ne_eq, not_false_eq_true] at isMade
        cases isMade
        exact ⟨_, _, allocated, rfl, rfl⟩
      · simp only [notFirst, guard_false] at isMade
        cases isMade

omit small parentSmall in
theorem dirBlocks_dotsInode {lba : Nat} (lbaSmall : lba < 2 ^ 32) (ne : lba ≠ 0) (disk : Disk) :
    sectorOf (dotsInode inodeNo lba) 0 = lba ∧ sectorOf (dotsInode inodeNo lba) 12 = 0 ∧
      dirBlocks disk (dotsInode inodeNo lba) = [lba] := by
  have isFirst : sectorOf (dotsInode inodeNo lba) 0 = lba :=
    sectorOf_setSector (inodeInit inodeNo) (by decide) (by decide) lbaSmall
  have noTable : sectorOf (dotsInode inodeNo lba) 12 = 0 :=
    sectorOf_setSector (inodeInit inodeNo) (by decide) (by decide) lbaSmall
  have isDirect : directBlocks (dotsInode inodeNo lba) = lba :: List.replicate 11 0 :=
    directBlocks_setSector (inodeInit inodeNo) (by decide) lbaSmall
  refine ⟨isFirst, noTable, ?_⟩
  rw [dirBlocks_direct noTable, isDirect, List.filter_cons_of_pos (by simpa using ne),
    List.filter_replicate]
  rfl

/-- What `sys_mkdir` makes is a directory. -/
theorem makeDirectory_spec (wellFormed : part.WellFormed)
    (isMade : makeDirectory part inodeNo parentNo = some (part', inode')) :
    part'.WellFormed ∧ IsDirectory part' inode' ∧ sectorOf inode' 12 = 0 ∧
      (liveEntries part'.disk inode').Perm
        [namedEntry [dot, dot] parentNo .directory, namedEntry [dot] inodeNo .directory] := by
  obtain ⟨part₁, lba, allocated, rfl, rfl⟩ := makeDirectory_eq_some wellFormed isMade
  have wellFormed₁ := allocated.writes.wellFormed wellFormed
  obtain ⟨isFirst, noTable, blocks⟩ := @dirBlocks_dotsInode inodeNo lba (allocated.inUse.lt wellFormed₁)
    (allocated.inUse.pos wellFormed₁) (part₁.ideWrite lba (dotsSector inodeNo parentNo)).disk
  have writes := Volume.writes_ideWrite part₁ lba (dotsSector inodeNo parentNo)
  have own : ownBlocks (part₁.ideWrite lba (dotsSector inodeNo parentNo)).disk (dotsInode inodeNo lba) =
      [lba] := by
    rw [ownBlocks, tableBlock, noTable, blocks]
    rfl
  have isLive : liveAt (ideRead (part₁.ideWrite lba (dotsSector inodeNo parentNo)).disk lba 1) =
      liveAt (dotsSector inodeNo parentNo) :=
    liveAt_ideWrite part₁.disk lba (dotsSector inodeNo parentNo)
  have dots := liveAt_dotsSector small parentSmall
  have live : liveEntries (part₁.ideWrite lba (dotsSector inodeNo parentNo)).disk
      (dotsInode inodeNo lba) = liveAt (dotsSector inodeNo parentNo) := by
    rw [liveEntries, blocks, List.flatMap_singleton, isLive]
  refine ⟨writes.wellFormed wellFormed₁, ⟨?_, ?_, ?_, ?_, ?_, ?_, ?_, ?_, ?_, ?_⟩, noTable, ?_⟩
  · rw [own]
    exact List.nodup_singleton lba
  · intro block mem
    rw [own, List.mem_singleton] at mem
    rw [mem]
    exact allocated.inUse.of_sameBitmap writes rfl
  · intro block mem
    rw [blocks, List.mem_singleton] at mem
    rw [mem]
    exact cleared_ideWrite (cleared_dotsSector small parentSmall) _ _
  · rw [live, (dots.map DirEntry.name).nodup_iff]
    show [[dot, dot], [dot]].Nodup
    decide
  · rw [live, ((dots.filter DirEntry.isProper).map DirEntry.iNo).nodup_iff]
    exact List.nodup_nil
  · rw [live, dots.length_eq]
    rfl
  · rw [isFirst]
    exact allocated.inUse.pos wellFormed₁
  · rw [isFirst, isLive]
    exact ⟨_, dots.mem_iff.mpr (List.mem_cons_of_mem _ (List.mem_singleton_self _)), rfl⟩
  · rw [isFirst, isLive]
    exact ⟨_, dots.mem_iff.mpr List.mem_cons_self, rfl⟩
  · intro block mem ne
    rw [blocks, List.mem_singleton] at mem
    exact absurd (mem.trans isFirst.symm) ne
  · rw [live]
    exact dots

end Made

/-! ### Sequences of insertions and deletions -/

section Runs

variable (mayInsert : Volume → Inode → Prop) (mayDelete : Volume → Inode → Nat → Prop)

/-- The states after insertions and deletions that each were allowed. -/
inductive DirRun (part₀ : Volume) (inode₀ : Inode) : Volume → Inode → Prop where
  | nil : DirRun part₀ inode₀ part₀ inode₀
  | insert {part part' : Volume} {inode inode' : Inode} {name : List UInt8} {inodeNo : Nat}
      {fileType : FileTypes} {entry : DirEntry} (run : DirRun part₀ inode₀ part inode)
      (isNew : IsNew part inode name inodeNo fileType) (may : mayInsert part inode)
      (isEntry : createDirEntry name inodeNo fileType = some entry)
      (isInserted : syncDirEntry part inode entry = some (part', inode', true)) :
      DirRun part₀ inode₀ part' inode'
  | delete {part part' : Volume} {inode inode' : Inode} {inodeNo fuel : Nat}
      (run : DirRun part₀ inode₀ part inode) (present : HasNumber part inode inodeNo)
      (may : mayDelete part inode inodeNo)
      (isDeleted : deleteDirEntry fuel part inode inodeNo = some (part', inode', true)) :
      DirRun part₀ inode₀ part' inode'

/-- What the calls do to the map from the live names to their entries. -/
structure IsMap (part : Volume) (inode : Inode) : Prop where
  names : ((liveEntries part.disk inode).map DirEntry.name).Nodup
  search : ∀ (isRoot : Bool) (name : List UInt8), name ≠ [] → ∀ entry,
    searchDirEntry part.disk ⟨isRoot, searchInode inode⟩ name = some entry ↔
      entry ∈ liveEntries part.disk inode ∧ entry.name = name
  size : inode.iSize.toNat = dirEntrySize * (liveEntries part.disk inode).length
  insert : ∀ (name : List UInt8) (inodeNo : Nat) (fileType : FileTypes),
    IsNew part inode name inodeNo fileType → mayInsert part inode →
      ∃ entry, createDirEntry name inodeNo fileType = some entry ∧ entry.name = name ∧
        entry.iNo = inodeNo ∧ entry.fType = fileType ∧
        (part.HasTwoClear → (syncDirEntry part inode entry).isSome) ∧
        ∀ part' inode' done, syncDirEntry part inode entry = some (part', inode', done) →
          done = true ∧ (liveEntries part'.disk inode').Perm (entry :: liveEntries part.disk inode)
  delete : ∀ inodeNo, HasNumber part inode inodeNo → mayDelete part inode inodeNo →
    ∃ enough, ∀ fuel ≥ enough, ∃ part' inode' entry,
      deleteDirEntry fuel part inode inodeNo = some (part', inode', true) ∧
        entry.isProper = true ∧ entry.iNo = inodeNo ∧
        (liveEntries part.disk inode).Perm (entry :: liveEntries part'.disk inode')

end Runs

/-- An insertion with room. -/
theorem IsNew.syncDirEntry (isNew : IsNew part inode name inodeNo fileType)
    (isDir : IsDirectory part inode) (wellFormed : part.WellFormed) (room : HasRoom part inode)
    {done : Bool}
    (isInserted : Fs.syncDirEntry part inode (namedEntry name inodeNo fileType) =
      some (part', inode', done)) :
    done = true ∧ part'.WellFormed ∧ IsDirectory part' inode' ∧
      (liveEntries part'.disk inode').Perm
        (namedEntry name inodeNo fileType :: liveEntries part.disk inode) := by
  rcases syncDirEntry_inserts isDir.aligned wellFormed (namedEntry name inodeNo fileType) with
    ⟨isNone, _⟩ | ⟨part₁, inode₁, isSome, inserted⟩
  · rw [isNone] at isInserted
    cases isInserted
  · rw [isSome] at isInserted
    cases isInserted
    exact ⟨rfl, inserted.wellFormed wellFormed,
      inserted.spec isDir wellFormed (isNew.isFresh isDir) room⟩

/-- Every state of a run is a directory. -/
theorem DirRun.isDirectory {part₀ : Volume} {inode₀ : Inode}
    (run : DirRun HasRoom InDirect part₀ inode₀ part inode) (isDir : IsDirectory part₀ inode₀)
    (wellFormed : part₀.WellFormed) : IsDirectory part inode ∧ part.WellFormed := by
  induction run with
  | nil => exact ⟨isDir, wellFormed⟩
  | insert _ isNew may isEntry isInserted inductionHypothesis =>
      rw [createDirEntry_short isNew.short] at isEntry
      cases isEntry
      obtain ⟨_, wellFormed', isDir', _⟩ :=
        isNew.syncDirEntry inductionHypothesis.1 inductionHypothesis.2 may isInserted
      exact ⟨isDir', wellFormed'⟩
  | delete _ _ may isDeleted inductionHypothesis =>
      obtain ⟨part₁, inode₁, _, isSome, _, _, wellFormed', isDir', _⟩ :=
        deleteDirEntry_spec inductionHypothesis.1 inductionHypothesis.2 may _
      rw [isSome] at isDeleted
      cases isDeleted
      exact ⟨isDir', wellFormed'⟩

/-- A directory is a map. -/
theorem IsDirectory.isMap (isDir : IsDirectory part inode) (wellFormed : part.WellFormed) :
    IsMap HasRoom InDirect part inode where
  names := isDir.names
  search isRoot _ ne entry := searchDirEntry_iff isDir.cleared isDir.names isRoot ne entry
  size := isDir.size
  insert name inodeNo fileType isNew room := by
    refine ⟨_, createDirEntry_short isNew.short, namedEntry_name isNew.isString isNew.short, rfl, rfl,
      fun twoClear => ?_, fun part' inode' done isInserted => ?_⟩
    · rcases syncDirEntry_inserts isDir.aligned wellFormed (namedEntry name inodeNo fileType) with
        ⟨_, notTwo⟩ | ⟨part', inode', isSome, _⟩
      · exact absurd twoClear notTwo
      · rw [isSome]
        rfl
    · obtain ⟨isDone, _, _, gains⟩ := isNew.syncDirEntry isDir wellFormed room isInserted
      exact ⟨isDone, gains⟩
  delete inodeNo _ inDirect := by
    refine ⟨0, fun fuel _ => ?_⟩
    obtain ⟨part', inode', entry, isDeleted, proper, isNumber, _, _, loses⟩ :=
      deleteDirEntry_spec isDir wellFormed inDirect fuel
    exact ⟨part', inode', entry, isDeleted, proper, isNumber, loses⟩

/-- A directory that `sys_mkdir` made is a map after every sequence of insertions
that found room and of deletions from a direct block. -/
theorem directory_map {part₀ part₁ : Volume} {inode₁ : Inode} {ownNo parentNo : Nat}
    (wellFormed : part₀.WellFormed) (ownSmall : ownNo < 2 ^ 32) (parentSmall : parentNo < 2 ^ 32)
    (isMade : makeDirectory part₀ ownNo parentNo = some (part₁, inode₁))
    (run : DirRun HasRoom InDirect part₁ inode₁ part inode) : IsMap HasRoom InDirect part inode := by
  obtain ⟨wellFormed₁, isDir₁, _, _⟩ := makeDirectory_spec ownSmall parentSmall wellFormed isMade
  obtain ⟨isDir, wellFormed'⟩ := run.isDirectory isDir₁ wellFormed₁
  exact isDir.isMap wellFormed'

/-! ### Filling a directory -/

theorem DirRun.mono {mayInsert mayInsert' : Volume → Inode → Prop}
    {mayDelete mayDelete' : Volume → Inode → Nat → Prop} {part₀ : Volume} {inode₀ : Inode}
    (inserts : ∀ part inode, mayInsert part inode → mayInsert' part inode)
    (deletes : ∀ part inode inodeNo, mayDelete part inode inodeNo → mayDelete' part inode inodeNo)
    (run : DirRun mayInsert mayDelete part₀ inode₀ part inode) :
    DirRun mayInsert' mayDelete' part₀ inode₀ part inode := by
  induction run with
  | nil => exact .nil
  | insert _ isNew may isEntry isInserted inductionHypothesis =>
      exact .insert inductionHypothesis isNew (inserts _ _ may) isEntry isInserted
  | delete _ present may isDeleted inductionHypothesis =>
      exact .delete inductionHypothesis present (deletes _ _ _ may) isDeleted

theorem isFull_iff {disk : Disk} {lba : Nat} :
    IsFull disk lba ↔ lba ≠ 0 ∧ (liveAt (ideRead disk lba 1)).length = dirEntrysPerSec := by
  have allLive : (liveAt (ideRead disk lba 1)).length = dirEntrysPerSec ↔
      ∀ idx < dirEntrysPerSec, fTypeAt (ideRead disk lba 1) idx ≠ 0 := by
    have isLength := @List.length_filter_eq_length_iff _
      (fun idx => decide (fTypeAt (ideRead disk lba 1) idx ≠ 0)) (List.range dirEntrysPerSec)
    rw [liveAt, List.length_map, liveIdxs]
    rw [List.length_range] at isLength
    rw [isLength]
    simp
  rw [allLive]
  rfl

/-- As many entries as fit are in the blocks only when each of them is full. -/
theorem length_live_blocks (disk : Disk) (blocks : List Nat) :
    ((blocks.filter (· ≠ 0)).flatMap fun lba => liveAt (ideRead disk lba 1)).length ≤
        dirEntrysPerSec * blocks.length ∧
      (((blocks.filter (· ≠ 0)).flatMap fun lba => liveAt (ideRead disk lba 1)).length =
          dirEntrysPerSec * blocks.length ↔ ∀ lba ∈ blocks, IsFull disk lba) := by
  have perSec : dirEntrysPerSec = 21 := by decide
  induction blocks with
  | nil => simp
  | cons lba blocks inductionHypothesis =>
      obtain ⟨atMost, isMost⟩ := inductionHypothesis
      have single := length_liveAt_le (ideRead disk lba 1)
      rw [List.forall_mem_cons, ← isMost, isFull_iff, List.length_cons]
      by_cases isZero : lba = 0
      · rw [List.filter_cons_of_neg (by simpa using isZero)]
        rw [perSec] at *
        refine ⟨by omega, ?_⟩
        constructor
        · intro isLength
          omega
        · intro isFull
          exact absurd isZero isFull.1.1
      · rw [List.filter_cons_of_pos (by simpa using isZero), List.flatMap_cons, List.length_append]
        rw [perSec] at *
        refine ⟨by omega, ?_⟩
        constructor
        · intro isLength
          exact ⟨⟨isZero, by omega⟩, by omega⟩
        · intro isFull
          have := isFull.1.2
          have := isFull.2
          omega

/-- The name of the entry that is added as number `k`. -/
def fillName (k : Nat) : List UInt8 := [97, UInt8.ofNat (k / 100 + 1), UInt8.ofNat (k % 100 + 1)]

def fillEntry (k : Nat) : DirEntry := namedEntry (fillName k) (k + 2) .regular

def dots : List DirEntry := [namedEntry [dot, dot] 0 .directory, namedEntry [dot] 1 .directory]

theorem zero_notMem_fillName {k : Nat} (small : k < 300) : (0 : UInt8) ∉ fillName k := by
  have ne : ∀ n, 0 < n → n < 256 → (0 : UInt8) ≠ UInt8.ofNat n := by
    intro n pos bound isZero
    have vals := congrArg UInt8.toNat isZero
    rw [UInt8.toNat_ofNat', Nat.mod_eq_of_lt bound] at vals
    exact absurd vals.symm (Nat.pos_iff_ne_zero.mp pos)
  have first := ne (k / 100 + 1) (Nat.succ_pos _) (by omega)
  have second := ne (k % 100 + 1) (Nat.succ_pos _) (by omega)
  unfold fillName
  rw [List.mem_cons, List.mem_cons, List.mem_singleton]
  rintro (isA | isFirst | isSecond)
  · cases isA
  · exact first isFirst
  · exact second isSecond

theorem fillName_injective {k j : Nat} (small : k < 300) (otherSmall : j < 300)
    (same : fillName k = fillName j) : k = j := by
  unfold fillName at same
  have first := congrArg UInt8.toNat (List.cons.inj (List.cons.inj same).2).1
  have second := congrArg UInt8.toNat (List.cons.inj (List.cons.inj (List.cons.inj same).2).2).1
  rw [UInt8.toNat_ofNat', UInt8.toNat_ofNat'] at first second
  omega

/-- A directory after so many insertions, none of which needed the table. -/
structure Filled (count : Nat) (part : Volume) (inode : Inode) : Prop where
  isDir : IsDirectory part inode
  wellFormed : part.WellFormed
  noTable : sectorOf inode 12 = 0
  live : (liveEntries part.disk inode).Perm ((List.range count).map fillEntry ++ dots)
  bytesLen : part.blockBitmap.btmpBytesLen = 512
  clear : part.ClearFrom (count + 2)

variable {count : Nat}

theorem hasTwoClear_of_clearFrom {start : Nat} (bytesLen : part.blockBitmap.btmpBytesLen = 512)
    (clear : part.ClearFrom start) (small : start < 4000) : part.HasTwoClear := by
  refine ⟨4000, 4001, by decide, ?_, ?_, clear 4000 (by omega) ?_, clear 4001 (by omega) ?_⟩ <;>
    rw [bytesLen] <;> decide

/-- The next name is new in a list of entries. -/
theorem fillEntry_isNew (small : count < 300)
    (live : ∀ other ∈ liveEntries part.disk inode,
      other ∈ dots ∨ ∃ k < count, other = fillEntry k) :
    IsNew part inode (fillName count) (count + 2) .regular where
  notEmpty := show 1 ≤ 3 by decide
  short := show 3 ≤ 15 by decide
  isString := zero_notMem_fillName small
  isLive := by decide
  small := by omega
  name other mem := by
    rcases live other mem with isDot | ⟨k, below, rfl⟩
    · have isName : other.name = [dot, dot] ∨ other.name = [dot] := by
        rcases List.mem_cons.mp isDot with rfl | isSelf
        · exact .inl rfl
        · rw [List.mem_singleton.mp isSelf]
          exact .inr rfl
      rcases isName with isName | isName <;> rw [isName] <;> simp [fillName]
    · rw [fillEntry, namedEntry_name (zero_notMem_fillName (by omega)) (show 3 ≤ 15 by decide)]
      intro same
      have := fillName_injective (by omega) small same
      omega
  number other mem := by
    rcases live other mem with isDot | ⟨k, below, rfl⟩
    · rcases List.mem_cons.mp isDot with rfl | isSelf
      · exact (Nat.succ_ne_zero _).symm
      · rw [List.mem_singleton.mp isSelf]
        show 1 ≠ count + 2
        omega
    · show k + 2 ≠ count + 2
      omega

theorem Filled.isNew (filled : Filled count part inode) (small : count < 300) :
    IsNew part inode (fillName count) (count + 2) .regular := by
  apply fillEntry_isNew small
  intro other mem
  rcases List.mem_append.mp (filled.live.mem_iff.mp mem) with isFill | isDot
  · obtain ⟨k, below, isEntry⟩ := List.mem_map.mp isFill
    exact .inr ⟨k, List.mem_range.mp below, isEntry.symm⟩
  · exact .inl isDot

theorem liveEntries_direct (noTable : sectorOf inode 12 = 0) (disk : Disk) :
    liveEntries disk inode =
      ((directBlocks inode).filter (· ≠ 0)).flatMap fun lba => liveAt (ideRead disk lba 1) := by
  rw [liveEntries, dirBlocks_direct noTable]

theorem length_directBlocks (inode : Inode) : (directBlocks inode).length = 12 := by
  simp [directBlocks]

theorem length_filled (count : Nat) : ((List.range count).map fillEntry ++ dots).length = count + 2 := by
  rw [List.length_append, List.length_map, List.length_range]
  rfl

/-- The direct blocks are full exactly when 250 names were inserted. -/
theorem Filled.full_iff (filled : Filled count part inode) :
    (∀ lba ∈ directBlocks inode, IsFull part.disk lba) ↔ count = 250 := by
  have length := filled.live.length_eq
  have perSec : dirEntrysPerSec = 21 := by decide
  rw [← (length_live_blocks part.disk (directBlocks inode)).2, ← liveEntries_direct filled.noTable,
    length, length_filled, length_directBlocks, perSec]
  omega

theorem sectorOf_mem_directBlocks (inode : Inode) {blockIdx : Nat} (direct : blockIdx < 12) :
    sectorOf inode blockIdx ∈ directBlocks inode :=
  List.mem_map.mpr ⟨blockIdx, List.mem_range.mpr direct, rfl⟩

theorem forall_directBlocks {inode : Inode} {property : Nat → Prop} :
    (∀ lba ∈ directBlocks inode, property lba) ↔ ∀ blockIdx < 12, property (sectorOf inode blockIdx) := by
  constructor
  · intro all blockIdx direct
    exact all _ (sectorOf_mem_directBlocks inode direct)
  · intro all lba mem
    obtain ⟨blockIdx, direct, rfl⟩ := List.mem_map.mp mem
    exact all blockIdx (List.mem_range.mp direct)

theorem range_perm (count : Nat) :
    (fillEntry count :: ((List.range count).map fillEntry ++ dots)).Perm
      ((List.range (count + 1)).map fillEntry ++ dots) := by
  rw [List.range_succ, List.map_append, List.append_assoc]
  exact List.perm_middle.symm

/-- Below 250 names, the next one goes into a direct block. -/
theorem Filled.next (filled : Filled count part inode) (below : count < 250) :
    ∃ part' inode', syncDirEntry part inode (fillEntry count) = some (part', inode', true) ∧
      Filled (count + 1) part' inode' := by
  have isNew := filled.isNew (by omega)
  have twoClear := hasTwoClear_of_clearFrom filled.bytesLen filled.clear (by omega)
  rcases syncDirEntry_inserts filled.isDir.aligned filled.wellFormed (fillEntry count) with
    ⟨_, notTwo⟩ | ⟨part', inode', isSome, inserted⟩
  · exact absurd twoClear notTwo
  refine ⟨part', inode', isSome, ?_⟩
  obtain ⟨_, wellFormed', isDir', gains⟩ := isNew.syncDirEntry filled.isDir filled.wellFormed
    (.inr filled.noTable) isSome
  have live' := (gains.trans (filled.live.cons _)).trans (range_perm count)
  cases inserted with
  | slot _ _ _ _ isPart isInode =>
      refine ⟨isDir', wellFormed', ?_, live', ?_, ?_⟩
      · rw [isInode]
        exact filled.noTable
      · rw [isPart]
        exact filled.bytesLen
      · rw [isPart]
        intro bit above inside
        exact filled.clear bit (by omega) inside
  | direct direct _ allocated isPart isInode =>
      refine ⟨isDir', wellFormed', ?_, live', ?_, ?_⟩
      · have small := allocated.inUse.lt (allocated.writes.wellFormed filled.wellFormed)
        rw [isInode]
        show sectorOf (setSector inode _ _) 12 = 0
        rw [sectorOf_setSector inode (by omega) (by decide) small, if_neg (by omega)]
        exact filled.noTable
      · rw [isPart]
        exact allocated.writes.bytesLen.trans filled.bytesLen
      · rw [isPart]
        exact allocated.clearFrom _ filled.clear
  | table full _ _ _ _ =>
      have isMost := filled.full_iff.mp (forall_directBlocks.mpr full)
      omega

/-- A table with one block, behind direct blocks that are full. -/
structure Overflowed (part : Volume) (inode : Inode) : Prop where
  isDir : IsDirectory part inode
  wellFormed : part.WellFormed
  full : ∀ blockIdx < 12, IsFull part.disk (sectorOf inode blockIdx)
  live : (liveEntries part.disk inode).Perm ((List.range 251).map fillEntry ++ dots)
  twoClear : part.HasTwoClear

/-- What is live after a table was made: the direct blocks and one block more. -/
theorem liveEntries_putTable {tableLba lba : Nat} {part₁ part₂ : Volume}
    (wellFormed : part.WellFormed) (allocated₁ : part.Allocated part₁ tableLba)
    (allocated₂ : part₁.Allocated part₂ lba) (isWritten : entry.IsWritten)
    (isLive : entry.fType ≠ .unknown) :
    ∃ last, last.Perm [entry] ∧
      liveEntries (part₂.putTable tableLba lba (directBlocks inode) entry).disk
          (addEntrySize (setSector inode 12 tableLba)) =
        (((directBlocks inode).filter (· ≠ 0)).flatMap fun block => liveAt
          (ideRead (part₂.putTable tableLba lba (directBlocks inode) entry).disk block 1)) ++ last := by
  have wellFormed₁ := allocated₁.writes.wellFormed wellFormed
  have wellFormed₂ := allocated₂.writes.wellFormed wellFormed₁
  have apart : tableLba ≠ lba := by
    intro same
    apply allocated₂.wasFree
    rw [← same]
    exact allocated₁.inUse
  have last : liveAt (ideRead (part₂.putTable tableLba lba (directBlocks inode) entry).disk lba 1) =
      liveAt (newSector entry) :=
    liveAt_ideWrite _ lba (newSector entry)
  refine ⟨_, liveAt_newSector isWritten isLive, ?_⟩
  rw [liveEntries, dirBlocks_putTable (allocated₁.inUse.lt wellFormed₁)
    (allocated₁.inUse.pos wellFormed₁) (allocated₂.inUse.lt wellFormed₂)
    (allocated₂.inUse.pos wellFormed₂) apart, List.flatMap_append, List.flatMap_singleton, last]

/-- The next name needs the table. -/
theorem Filled.overflows (filled : Filled 250 part inode) :
    ∃ part' inode', syncDirEntry part inode (fillEntry 250) = some (part', inode', true) ∧
      Overflowed part' inode' := by
  have isNew := filled.isNew (by decide)
  have full := forall_directBlocks.mp (filled.full_iff.mpr rfl)
  have twoClear := hasTwoClear_of_clearFrom filled.bytesLen filled.clear (by decide)
  rcases syncDirEntry_inserts filled.isDir.aligned filled.wellFormed (fillEntry 250) with
    ⟨_, notTwo⟩ | ⟨part', inode', isSome, inserted⟩
  · exact absurd twoClear notTwo
  refine ⟨part', inode', isSome, ?_⟩
  obtain ⟨_, wellFormed', isDir', gains⟩ := isNew.syncDirEntry filled.isDir filled.wellFormed
    (.inr filled.noTable) isSome
  have live' := (gains.trans (filled.live.cons _)).trans (range_perm 250)
  cases inserted with
  | slot direct _ inside isFree _ _ => exact absurd isFree ((full _ direct).2 _ inside)
  | direct direct notBlock _ _ _ => exact absurd notBlock (full _ direct).1
  | @table tableLba lba part₁ part₂ _ allocated₁ allocated₂ isPart isInode =>
      have wellFormed₁ := allocated₁.writes.wellFormed filled.wellFormed
      have fresh := isNew.isFresh filled.isDir
      obtain ⟨last, isLast, isLive⟩ := @liveEntries_putTable part inode (fillEntry 250) tableLba lba
        part₁ part₂ filled.wellFormed allocated₁ allocated₂ fresh.isWritten fresh.isLive
      have sameDirect : directBlocks inode' = directBlocks inode := by
        rw [isInode]
        exact directBlocks_setTable inode (allocated₁.inUse.lt wellFormed₁)
      refine ⟨isDir', wellFormed', ?_, live', ?_⟩
      · -- all but one of the 253 entries are in the direct blocks
        have count := live'.length_eq
        rw [isPart, isInode, isLive, List.length_append, isLast.length_eq, length_filled] at count
        apply (@forall_directBlocks inode' (IsFull part'.disk)).mp
        rw [sameDirect, ← (length_live_blocks _ _).2, isPart, length_directBlocks]
        exact Nat.succ.inj count
      · apply hasTwoClear_of_clearFrom _ _ (show 254 < 4000 by decide)
        · rw [isPart]
          exact (allocated₂.writes.bytesLen.trans allocated₁.writes.bytesLen).trans filled.bytesLen
        · rw [isPart]
          exact allocated₂.clearFrom _ (allocated₁.clearFrom _ filled.clear)

/-- A second table replaces the first: the entry behind that is lost. -/
theorem Overflowed.not_isMap (overflowed : Overflowed part inode)
    (mayDelete : Volume → Inode → Nat → Prop) : ¬ IsMap (fun _ _ => True) mayDelete part inode := by
  intro isMap
  have isNew : IsNew part inode (fillName 251) (251 + 2) .regular := by
    apply fillEntry_isNew (by decide)
    intro other mem
    rcases List.mem_append.mp (overflowed.live.mem_iff.mp mem) with isFill | isDot
    · obtain ⟨k, below, isEntry⟩ := List.mem_map.mp isFill
      exact .inr ⟨k, List.mem_range.mp below, isEntry.symm⟩
    · exact .inl isDot
  obtain ⟨entry, isEntry, _, _, _, _, adds⟩ := isMap.insert _ _ _ isNew trivial
  rw [createDirEntry_short isNew.short] at isEntry
  cases isEntry
  rcases syncDirEntry_inserts overflowed.isDir.aligned overflowed.wellFormed (fillEntry 251) with
    ⟨_, notTwo⟩ | ⟨part', inode', isSome, inserted⟩
  · exact notTwo overflowed.twoClear
  have count := (adds part' inode' true isSome).2.length_eq
  rw [List.length_cons, overflowed.live.length_eq, length_filled] at count
  cases inserted with
  | slot direct _ inside isFree _ _ => exact (overflowed.full _ direct).2 _ inside isFree
  | direct direct notBlock _ _ _ => exact (overflowed.full _ direct).1 notBlock
  | @table tableLba lba part₁ part₂ _ allocated₁ allocated₂ isPart isInode =>
      have fresh := isNew.isFresh overflowed.isDir
      obtain ⟨last, isLast, isLive⟩ := @liveEntries_putTable part inode (fillEntry 251) tableLba lba
        part₁ part₂ overflowed.wellFormed allocated₁ allocated₂ fresh.isWritten fresh.isLive
      have atMost := (length_live_blocks part'.disk (directBlocks inode)).1
      rw [length_directBlocks] at atMost
      rw [isPart, isInode, isLive, ← isPart, List.length_append, isLast.length_eq] at count
      have tooMany : 254 ≤ dirEntrysPerSec * 12 + 1 := count.symm.trans_le (Nat.succ_le_succ atMost)
      exact absurd tooMany (by decide)

theorem blankVolume_clear : blankVolume.ClearFrom 1 := by
  intro bit above _
  rw [bitmapScanTest_eq]
  show (if bit / 8 = 0 then 1#8 else 0).getLsbD (bit % 8) = false
  by_cases isFirst : bit / 8 = 0
  · have other : ∀ odd < 8, 1 ≤ odd → (1#8).getLsbD odd = false := by decide
    rw [if_pos isFirst]
    exact other _ (Nat.mod_lt _ (by decide)) (by omega)
  · rw [if_neg isFirst]
    exact BitVec.getLsbD_zero

/-- The first directory of the volume. -/
theorem exists_made : ∃ part₁ inode₁, makeDirectory blankVolume 1 0 = some (part₁, inode₁) ∧
    Filled 0 part₁ inode₁ := by
  have made : (makeDirectory blankVolume 1 0).isSome = true := by decide +kernel
  obtain ⟨⟨part₁, inode₁⟩, isMade⟩ := Option.isSome_iff_exists.mp made
  obtain ⟨wellFormed₁, isDir₁, noTable, live⟩ :=
    makeDirectory_spec (by decide) (by decide) blankVolume_wellFormed isMade
  obtain ⟨part', lba, allocated, isPart, _⟩ := makeDirectory_eq_some blankVolume_wellFormed isMade
  refine ⟨part₁, inode₁, isMade, isDir₁, wellFormed₁, noTable, live, ?_, ?_⟩
  · rw [isPart]
    exact allocated.writes.bytesLen
  · rw [isPart]
    exact allocated.clearFrom _ blankVolume_clear

/-- The names up to 250 are inserted one after the other. -/
theorem Filled.run {part₁ : Volume} {inode₁ : Inode} (made : Filled 0 part₁ inode₁)
    (atMost : count ≤ 250) : ∃ part inode, DirRun HasRoom InDirect part₁ inode₁ part inode ∧
      Filled count part inode := by
  induction count with
  | zero => exact ⟨part₁, inode₁, .nil, made⟩
  | succ count inductionHypothesis =>
      obtain ⟨part, inode, run, filled⟩ := inductionHypothesis (by omega)
      obtain ⟨part', inode', isInserted, filled'⟩ := filled.next (by omega)
      have isNew := filled.isNew (by omega)
      exact ⟨part', inode', .insert run isNew (.inr filled.noTable) (createDirEntry_short isNew.short)
        isInserted, filled'⟩

/-- A directory with a hundred entries. -/
theorem directory_map_hundred : ∃ part inode,
    (liveEntries part.disk inode).length = 102 ∧ IsMap HasRoom InDirect part inode := by
  obtain ⟨part₁, inode₁, isMade, made⟩ := exists_made
  obtain ⟨part, inode, run, filled⟩ := @Filled.run 100 part₁ inode₁ made (by decide)
  refine ⟨part, inode, ?_, directory_map blankVolume_wellFormed (by decide) (by decide) isMade run⟩
  rw [filled.live.length_eq, length_filled]

/-- After 251 insertions the next one does not keep the entries that there are. -/
theorem directory_not_map : ∃ part₁ inode₁ part inode,
    makeDirectory blankVolume 1 0 = some (part₁, inode₁) ∧
      DirRun (fun _ _ => True) (fun _ _ _ => True) part₁ inode₁ part inode ∧
      ¬ IsMap (fun _ _ => True) (fun _ _ _ => True) part inode := by
  obtain ⟨part₁, inode₁, isMade, made⟩ := exists_made
  obtain ⟨part, inode, run, filled⟩ := @Filled.run 250 part₁ inode₁ made (by decide)
  obtain ⟨part', inode', isInserted, overflowed⟩ := filled.overflows
  have isNew := filled.isNew (by decide)
  refine ⟨part₁, inode₁, part', inode', isMade, ?_, overflowed.not_isMap _⟩
  exact .insert (run.mono (fun _ _ _ => trivial) fun _ _ _ _ => trivial) isNew trivial
    (createDirEntry_short isNew.short) isInserted

end ZyOs.Fs
