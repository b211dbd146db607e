import ZyOs.Fs.EntryCounts
import ZyOs.Fs.DirectoryMap
import ZyOs.Fs.PathResolution

/-!
Contract: the names of directory entries, as `strcmp` sees them in a sector.

`create_dir_entry` accepts a name that fills `filename`. Such a name is not terminated,
and the string goes on with the bytes of `i_no` behind it. So the entry is found under
another name, unless the first byte of `i_no` is zero.

Owns: what a search answers after `create_dir_entry` and `sync_dir_entry`.

Does not own: names of more than `MAX_FILE_NAME_LEN` characters, which fail an `ASSERT`.
-/

namespace ZyOs.Fs

open ZyOs.Kernel ZyOs.Lib
open InodeTable (Inode)

/-! ### Strings in a sector -/

/-- A `char` has a sign. -/
def charValue (char : UInt8) : Int :=
  if char.toNat < 128 then char.toNat else (char.toNat : Int) - 256

/-- `strcmp`, of the string in a buffer and another one. -/
def strcmp (a : Buf) : (off : Nat) → (b : List UInt8) → Int
  | off, [] => if charValue (a off) < 0 then -1 else if charValue (a off) > 0 then 1 else 0
  | off, char :: rest =>
      if a off ≠ 0 ∧ a off = char then
        strcmp a (off + 1) rest
      else if charValue (a off) < charValue char then -1
      else if charValue (a off) > charValue char then 1
      else 0

/-- The loop of `search_dir_entry` over the entries of a sector. -/
def searchSector (buf : Buf) (name : List UInt8) : Option DirEntry :=
  (List.range dirEntrysPerSec).findSome? fun idx =>
    if strcmp buf (idx * dirEntrySize) name = 0 then some (dirEntryAt buf idx) else none

theorem charValue_inj {c d : UInt8} : charValue c = charValue d ↔ c = d := by
  constructor
  · intro same
    have cSmall := c.toNat_lt
    have dSmall := d.toNat_lt
    apply UInt8.toNat_inj.mp
    unfold charValue at same
    split at same <;> split at same <;> omega
  · rintro rfl
    rfl

/-- The strings are the same, with the zero. -/
theorem strcmp_eq_zero_iff {a : Buf} {b : List UInt8} (noZero : (0 : UInt8) ∉ b) : ∀ {off},
    strcmp a off b = 0 ↔ ∀ i ≤ b.length, a (off + i) = b.getD i 0 := by
  induction b with
  | nil =>
      intro off
      have isZero : charValue (a off) = 0 ↔ a off = 0 := charValue_inj (d := 0)
      unfold strcmp
      constructor
      · intro same i atMost
        obtain rfl : i = 0 := Nat.le_zero.mp atMost
        apply isZero.mp
        split at same
        · cases same
        · split at same
          · cases same
          · omega
      · intro same
        have ends := isZero.mpr (same 0 (Nat.le_refl 0))
        rw [if_neg (by omega), if_neg (by omega)]
  | cons char rest inductionHypothesis =>
      intro off
      rw [List.mem_cons, not_or] at noZero
      unfold strcmp
      by_cases isChar : a off ≠ 0 ∧ a off = char
      · rw [if_pos isChar, inductionHypothesis noZero.2]
        constructor
        · intro same i atMost
          cases i with
          | zero => exact isChar.2
          | succ i =>
              have isNext := same i (Nat.le_of_succ_le_succ atMost)
              rw [Nat.add_assoc, Nat.add_comm 1] at isNext
              exact isNext
        · intro same i atMost
          have isNext := same (i + 1) (Nat.succ_le_succ atMost)
          rw [Nat.add_assoc, Nat.add_comm 1]
          exact isNext
      · have differs : a off ≠ char := fun isSame => isChar ⟨fun isZero => noZero.1 (isZero ▸ isSame), isSame⟩
        have apart : charValue (a off) ≠ charValue char := fun same => differs (charValue_inj.mp same)
        rw [if_neg isChar]
        constructor
        · intro same
          split at same
          · cases same
          · split at same
            · cases same
            · omega
        · intro same
          exact absurd (same 0 (Nat.zero_le _)) differs

/-- The bytes up to the first zero. -/
theorem takeWhile_eq_iff {name : List UInt8} (noZero : (0 : UInt8) ∉ name) : ∀ {count : Nat} {bytes : Buf},
    (∃ i < count, bytes i = 0) →
      (((List.range count).map bytes).takeWhile (· ≠ 0) = name ↔ ∀ i ≤ name.length, bytes i = name.getD i 0) := by
  induction name with
  | nil =>
      rintro (_ | count) bytes ⟨i, inside, isZero⟩
      · exact absurd inside (Nat.not_lt_zero i)
      · rw [List.range_succ_eq_map, List.map_cons]
        by_cases ends : bytes 0 = 0
        · rw [List.takeWhile_cons_of_neg (by simpa using ends)]
          refine iff_of_true rfl fun j atMost => ?_
          rw [Nat.le_zero.mp atMost]
          exact ends
        · rw [List.takeWhile_cons_of_pos (by simpa using ends)]
          refine iff_of_false (List.cons_ne_nil _ _) fun same => ends (same 0 (Nat.le_refl 0))
  | cons char rest inductionHypothesis =>
      rw [List.mem_cons, not_or] at noZero
      rintro (_ | count) bytes ⟨i, inside, isZero⟩
      · exact absurd inside (Nat.not_lt_zero i)
      · rw [List.range_succ_eq_map, List.map_cons, List.map_map]
        by_cases ends : bytes 0 = 0
        · rw [List.takeWhile_cons_of_neg (by simpa using ends)]
          refine iff_of_false (List.cons_ne_nil _ _).symm fun same => noZero.1 ?_
          rw [← ends]
          exact same 0 (Nat.zero_le _)
        · have behind : ∃ j < count, (bytes ∘ Nat.succ) j = 0 := by
            cases i with
            | zero => exact absurd isZero ends
            | succ i => exact ⟨i, Nat.lt_of_succ_lt_succ inside, isZero⟩
          rw [List.takeWhile_cons_of_pos (by simpa using ends), List.cons_eq_cons,
            inductionHypothesis noZero.2 behind]
          constructor
          · rintro ⟨isChar, same⟩ j atMost
            cases j with
            | zero => exact isChar
            | succ j => exact same j (Nat.le_of_succ_le_succ atMost)
          · intro same
            exact ⟨same 0 (Nat.zero_le _), fun j atMost => same (j + 1) (Nat.succ_le_succ atMost)⟩

theorem wordBytes_word (buf : Buf) (off : Nat) :
    wordBytes (word buf off) = (List.range 4).map fun k => buf (off + k) := by
  have byte : ∀ k < 4, UInt8.ofNat (word buf off / 256 ^ k) = buf (off + k) := by
    intro k small
    have zero := (buf off).toNat_lt
    have one := (buf (off + 1)).toNat_lt
    have two := (buf (off + 2)).toNat_lt
    have three := (buf (off + 3)).toNat_lt
    apply UInt8.toNat_inj.mp
    rw [UInt8.toNat_ofNat']
    unfold word
    obtain rfl | rfl | rfl | rfl : k = 0 ∨ k = 1 ∨ k = 2 ∨ k = 3 := by omega
    · simp only [Nat.add_zero]
      omega
    · omega
    · omega
    · omega
  apply List.map_congr_left
  intro k mem
  exact byte k (List.mem_range.mp mem)

/-- The string of an entry is what lies in the sector up to the first zero. -/
theorem name_dirEntryAt {buf : Buf} {idx : Nat} (typed : fTypeAt buf idx ≤ 2) :
    (dirEntryAt buf idx).name =
      ((List.range dirEntrySize).map fun i => buf (idx * dirEntrySize + i)).takeWhile (· ≠ 0) := by
  have isValue : (fileTypeOf (word buf (idx * dirEntrySize + 20))).value = word buf (idx * dirEntrySize + 20) := by
    unfold fTypeAt at typed
    obtain isType | isType | isType : word buf (idx * dirEntrySize + 20) = 0 ∨
      word buf (idx * dirEntrySize + 20) = 1 ∨ word buf (idx * dirEntrySize + 20) = 2 := by omega
    · rw [isType]
      rfl
    · rw [isType]
      rfl
    · rw [isType]
      rfl
  unfold DirEntry.name dirEntryAt
  dsimp only
  rw [isValue, wordBytes_word, wordBytes_word,
    show dirEntrySize = maxFileNameLen + (4 + 4) from rfl, List.range_add, List.range_add, List.map_append,
    List.map_map, List.map_append, List.map_map]
  rfl

/-- A name of the model is one that `strcmp` finds. -/
theorem name_eq_iff {buf : Buf} {idx : Nat} {name : List UInt8} (typed : fTypeAt buf idx ≤ 2)
    (noZero : (0 : UInt8) ∉ name) :
    (dirEntryAt buf idx).name = name ↔ strcmp buf (idx * dirEntrySize) name = 0 := by
  have ends : ∃ i < dirEntrySize, buf (idx * dirEntrySize + i) = 0 := by
    refine ⟨21, by decide, ?_⟩
    unfold fTypeAt word at typed
    apply UInt8.toNat_inj.mp
    show (buf (idx * dirEntrySize + 20 + 1)).toNat = 0
    omega
  rw [name_dirEntryAt typed, strcmp_eq_zero_iff noZero]
  exact takeWhile_eq_iff noZero ends

theorem findSome?_congr {α β : Type} {f g : α → Option β} {xs : List α} (same : ∀ x ∈ xs, f x = g x) :
    xs.findSome? f = xs.findSome? g := by
  induction xs with
  | nil => rfl
  | cons x xs inductionHypothesis =>
      rw [List.findSome?_cons, List.findSome?_cons, same x List.mem_cons_self,
        inductionHypothesis fun other mem => same other (List.mem_cons_of_mem _ mem)]

/-- In a sector whose types are in order the search is that of the model. -/
theorem searchSector_eq {buf : Buf} {name : List UInt8} (typed : ∀ idx < dirEntrysPerSec, fTypeAt buf idx ≤ 2)
    (noZero : (0 : UInt8) ∉ name) :
    searchSector buf name = (sectorEntries buf).find? fun entry => entry.name = name := by
  unfold searchSector sectorEntries
  rw [List.find?_eq_findSome?_guard, List.findSome?_map]
  apply findSome?_congr
  intro idx mem
  have same := @name_eq_iff buf idx name (typed idx (List.mem_range.mp mem)) noZero
  show _ = if decide ((dirEntryAt buf idx).name = name) = true then some (dirEntryAt buf idx) else none
  simp only [decide_eq_true_iff, same]

/-- In a directory whose types are in order the search is that of the model. -/
theorem searchDirEntry_eq_strcmp {disk : Disk} {dir : Dir} {name : List UInt8}
    (typed : ∀ lba ∈ (allBlocks disk dir.inode).filter (· ≠ 0), ∀ idx < dirEntrysPerSec,
      fTypeAt (ideRead disk lba 1) idx ≤ 2) (noZero : (0 : UInt8) ∉ name) :
    searchDirEntry disk dir name = (allBlocks disk dir.inode).findSome? fun lba =>
      if lba = 0 then none else searchSector (ideRead disk lba 1) name := by
  rw [searchDirEntry, findSome?_blocks, findSome?_blocks]
  apply findSome?_congr
  intro lba mem
  exact (searchSector_eq (typed lba mem) noZero).symm

/-! ### Names that `create_dir_entry` makes -/

section Created

variable {name : List UInt8} {inodeNo : Nat} {fileType : FileTypes} {entry : DirEntry}
  (isEntry : createDirEntry name inodeNo fileType = some entry)

include isEntry

theorem createDirEntry_eq_some : name.length ≤ maxFileNameLen ∧ entry = namedEntry name inodeNo fileType := by
  unfold createDirEntry at isEntry
  by_cases short : name.length ≤ maxFileNameLen
  · rw [if_pos short] at isEntry
    exact ⟨short, (Option.some.inj isEntry).symm⟩
  · rw [if_neg short] at isEntry
    cases isEntry

theorem createDirEntry_fields : entry.iNo = inodeNo ∧ entry.fType = fileType := by
  obtain ⟨_, rfl⟩ := createDirEntry_eq_some isEntry
  exact ⟨rfl, rfl⟩

theorem createDirEntry_isWritten (small : inodeNo < 2 ^ 32) : entry.IsWritten := by
  obtain ⟨short, rfl⟩ := createDirEntry_eq_some isEntry
  refine ⟨?_, small⟩
  rw [namedEntry, List.length_append, List.length_replicate]
  exact Nat.add_sub_cancel' short

/-- The string is the name, and what follows it up to a zero. -/
theorem createDirEntry_name (noZero : (0 : UInt8) ∉ name) :
    entry.name = name ++ (List.replicate (maxFileNameLen - name.length) 0 ++
      (wordBytes inodeNo ++ wordBytes fileType.value)).takeWhile (· ≠ 0) := by
  obtain ⟨_, rfl⟩ := createDirEntry_eq_some isEntry
  unfold DirEntry.name namedEntry
  dsimp only
  rw [List.append_assoc, List.takeWhile_append_of_pos]
  intro char mem
  have ne : char ≠ 0 := fun isZero => noZero (isZero ▸ mem)
  simpa using ne

/-- A name that fills `filename` is read together with `i_no`. -/
theorem createDirEntry_name_iff (noZero : (0 : UInt8) ∉ name) :
    entry.name = name ↔ name.length ≤ 15 ∨ inodeNo % 256 = 0 := by
  rw [createDirEntry_name isEntry noZero, List.append_right_eq_self]
  obtain ⟨atMost, _⟩ := createDirEntry_eq_some isEntry
  by_cases short : name.length ≤ 15
  · have padding : maxFileNameLen - name.length = (15 - name.length) + 1 := by
      simp only [maxFileNameLen]
      omega
    rw [padding, List.replicate_succ]
    exact iff_of_true (List.takeWhile_cons_of_neg (by simp)) (.inl short)
  · have padding : maxFileNameLen - name.length = 0 := by
      simp only [maxFileNameLen]
      omega
    have bytes : wordBytes inodeNo = UInt8.ofNat (inodeNo / 256 ^ 0) ::
        (List.range' 1 3).map fun k => UInt8.ofNat (inodeNo / 256 ^ k) := rfl
    have isZero : UInt8.ofNat (inodeNo / 256 ^ 0) = 0 ↔ inodeNo % 256 = 0 := by
      rw [← UInt8.toNat_inj, UInt8.toNat_ofNat', Nat.pow_zero, Nat.div_one]
      exact Iff.rfl
    rw [padding, List.replicate_zero, List.nil_append, bytes, List.cons_append, or_iff_right short, ← isZero]
    by_cases ends : UInt8.ofNat (inodeNo / 256 ^ 0) = 0
    · exact iff_of_true (List.takeWhile_cons_of_neg (by simpa using ends)) ends
    · rw [List.takeWhile_cons_of_pos (by simpa using ends)]
      exact iff_of_false (List.cons_ne_nil _ _) ends

theorem createDirEntry_named (ne : name ≠ []) (noZero : (0 : UInt8) ∉ name) : entry.name ≠ [] := by
  rw [createDirEntry_name isEntry noZero]
  exact List.append_ne_nil_of_left_ne_nil ne _

end Created

/-! ### Entries with a name -/

variable {part part' : Volume} {inode inode' : Inode} {entry : DirEntry} {disk : Disk} {buf : Buf}

/-- The entries of a sector that have a name. -/
def namedAt (buf : Buf) : List DirEntry := (sectorEntries buf).filter (·.name ≠ [])

/-- The entries in some of the blocks. -/
def namedIn (disk : Disk) (blocks : List Nat) : List DirEntry :=
  blocks.flatMap fun lba => namedAt (ideRead disk lba 1)

theorem dirEntries_eq (disk : Disk) (inode : Inode) :
    dirEntries disk (searchInode inode) = namedIn disk (dirBlocks disk inode) := by
  rw [dirEntries, List.filter_flatMap]
  rfl

theorem namedAt_congr {buf' : Buf} (same : ∀ idx < dirEntrysPerSec, SameSlot buf buf' idx) :
    namedAt buf' = namedAt buf := by
  have sameEntries : sectorEntries buf' = sectorEntries buf := by
    apply List.map_congr_left
    intro idx mem
    exact (same idx (List.mem_range.mp mem)).dirEntryAt
  unfold namedAt
  rw [sameEntries]

theorem namedAt_ideWrite (disk : Disk) (lba : Nat) (buf : Buf) :
    namedAt (ideRead (ideWrite disk lba buf 1) lba 1) = namedAt buf :=
  namedAt_congr fun _ inside => sameSlot_ideWrite disk lba buf inside

/-- An entry of any type is put into a slot without a name. -/
theorem namedAt_put (isWritten : entry.IsWritten) (isNamed : entry.name ≠ []) {idx : Nat}
    (inside : idx < dirEntrysPerSec) (isFree : (dirEntryAt buf idx).name = []) :
    OneMore entry (namedAt buf) (namedAt (memcpy buf (idx * dirEntrySize) entry.bytes dirEntrySize)) := by
  have pieces : ∀ buf : Buf, namedAt buf = (List.range dirEntrysPerSec).flatMap fun idx =>
      [dirEntryAt buf idx].filter (·.name ≠ []) := by
    intro buf
    rw [namedAt, sectorEntries, List.map_eq_flatMap, List.filter_flatMap]
    rfl
  rw [pieces, pieces]
  apply flatMap_oneMore List.nodup_range (List.mem_range.mpr inside)
  · rw [dirEntryAt_copy isWritten, List.filter_cons_of_neg (by simpa using isFree),
      List.filter_cons_of_pos (by simpa using isNamed)]
    exact .single entry
  · intro other _ ne
    rw [(sameSlot_memcpy ne).dirEntryAt]

theorem namedAt_newSector (isWritten : entry.IsWritten) (isNamed : entry.name ≠ []) :
    namedAt (newSector entry) = [entry] := by
  have blank : namedAt (fun _ => 0) = [] := by decide +kernel
  have put := namedAt_put isWritten isNamed (show 0 < dirEntrysPerSec by decide)
    (cleared_zero 0 (by decide) rfl)
  rw [← newSector_eq, blank] at put
  exact List.perm_singleton.mp put.perm

theorem namedIn_congr {disk' : Disk} {blocks : List Nat} (same : ∀ lba ∈ blocks, disk' lba = disk lba) :
    namedIn disk' blocks = namedIn disk blocks := by
  apply List.flatMap_congr
  intro lba mem
  rw [ideRead_congr (same lba mem)]

/-- The entries in the direct blocks, and those in the blocks of the table. -/
theorem dirEntries_split (disk : Disk) (inode : Inode) :
    dirEntries disk (searchInode inode) =
      namedIn disk ((directBlocks inode).filter (· ≠ 0)) ++ namedIn disk (listedBlocks disk inode) := by
  rw [dirEntries_eq, dirBlocks_split]
  exact List.flatMap_append

/-! ### Insertions -/

section Inserting

variable (owns : OwnsBlocks part inode) (wellFormed : part.WellFormed)
  (cleared : ∀ lba ∈ dirBlocks part.disk inode, Cleared (ideRead part.disk lba 1))
  (isWritten : entry.IsWritten) (isNamed : entry.name ≠ [])

include owns wellFormed cleared isWritten isNamed

/-- There is one entry more. Without room the blocks of the old table are lost. -/
theorem Inserted.dirEntries (inserted : Inserted part inode entry part' inode') :
    (HasRoom part inode ∧ OneMore entry (Fs.dirEntries part.disk (searchInode inode))
        (Fs.dirEntries part'.disk (searchInode inode'))) ∨
      (¬ HasRoom part inode ∧ Fs.dirEntries part'.disk (searchInode inode') =
        namedIn part.disk ((directBlocks inode).filter (· ≠ 0)) ++ [entry]) := by
  cases inserted with
  | @slot blockIdx idx direct isBlock inside isFree isPart isInode =>
      refine .inl ⟨.inl ⟨blockIdx, direct, fun isFull => isFull.2 idx inside isFree⟩, ?_⟩
      have mem : sectorOf inode blockIdx ∈ dirBlocks part.disk inode := sectorOf_mem_dirBlocks direct isBlock
      obtain ⟨_, blocks, same⟩ := owns.putBlock mem (memcpy (ideRead part.disk (sectorOf inode blockIdx) 1)
        (idx * dirEntrySize) entry.bytes dirEntrySize) (rfl : (addEntrySize inode).iSectors = inode.iSectors)
      rw [isPart, isInode, dirEntries_eq, dirEntries_eq, Volume.putEntry, blocks]
      apply flatMap_oneMore owns.blocks_nodup mem
      · have isRead := namedAt_ideWrite part.disk (sectorOf inode blockIdx)
          (memcpy (ideRead part.disk (sectorOf inode blockIdx) 1) (idx * dirEntrySize) entry.bytes dirEntrySize)
        have put := namedAt_put isWritten isNamed inside (cleared _ mem idx inside isFree)
        rw [← isRead] at put
        exact put
      · intro other isOther ne
        rw [ideRead_congr (same other (List.mem_append_right _ isOther) ne)]
  | @direct blockIdx lba part₁ direct notBlock allocated isPart isInode =>
      refine .inl ⟨.inl ⟨blockIdx, direct, fun isFull => isFull.1 notBlock⟩, ?_⟩
      have notZero := allocated.inUse.pos (allocated.writes.wellFormed wellFormed)
      obtain ⟨_, isSet, _, same⟩ := owns.newDirect wellFormed allocated direct notBlock (newSector entry)
        (rfl : (addEntrySize (setSector inode blockIdx lba)).iSectors = (setSector inode blockIdx lba).iSectors)
      rw [isPart, isInode, dirEntries_eq, dirEntries_eq, dirBlocks, dirBlocks, isSet]
      apply flatMap_newPlace
      · exact set_filter_oneMore (allBlocks_getElem? direct) (by simp [notBlock]) (by simp [notZero])
      · have isRead := namedAt_ideWrite part₁.disk lba (newSector entry)
        rw [namedAt_newSector isWritten isNamed] at isRead
        exact isRead
      · intro other isOther
        rw [ideRead_congr (same other (List.mem_append_right _ isOther))]
  | @table tableLba lba part₁ part₂ full allocated₁ allocated₂ isPart isInode =>
      obtain ⟨_, blocks, same⟩ := @OwnsBlocks.newTable part inode entry lba owns wellFormed tableLba part₁ part₂
        allocated₁ allocated₂
      have isRead := namedAt_ideWrite (part₂.ideWrite tableLba (tableBuf ((directBlocks inode ++
        List.replicate 128 0).set 12 lba))).disk lba (newSector entry)
      rw [namedAt_newSector isWritten isNamed] at isRead
      have entries : Fs.dirEntries part'.disk (searchInode inode') =
          namedIn part.disk ((directBlocks inode).filter (· ≠ 0)) ++ [entry] := by
        rw [isPart, isInode, dirEntries_eq, blocks, namedIn, List.flatMap_append, List.flatMap_singleton]
        congr 1
        · apply namedIn_congr
          intro old mem
          exact same old (List.mem_append_right _ (by rw [dirBlocks_split]; exact List.mem_append_left _ mem))
      by_cases noTable : sectorOf inode 12 = 0
      · refine .inl ⟨.inr noTable, ?_⟩
        have noListed : listedBlocks part.disk inode = [] := by
          rw [listedBlocks, tableBlocks, if_neg (by simpa using noTable), List.filter_replicate]
          rfl
        rw [entries, dirEntries_split, noListed]
        exact (OneMore.single entry).append_left _
      · refine .inr ⟨?_, entries⟩
        rintro (⟨blockIdx, direct, notFull⟩ | isNone)
        · exact notFull (full blockIdx direct)
        · exact noTable isNone

end Inserting

/-! ### Searches after an insertion -/

section Searched

variable {name : List UInt8} {inodeNo : Nat} {fileType : FileTypes}

/-- The new entry is found, and every other name gets the answer that it got before. -/
structure InsertLaw (isRoot : Bool) (part : Volume) (inode : Inode) (part' : Volume) (inode' : Inode)
    (name : List UInt8) (inodeNo : Nat) (fileType : FileTypes) : Prop where
  found : ∃ entry, searchDirEntry part'.disk ⟨isRoot, searchInode inode'⟩ name = some entry ∧
    entry.iNo = inodeNo ∧ entry.fType = fileType
  others : ∀ other ≠ [], other ≠ name → searchDirEntry part'.disk ⟨isRoot, searchInode inode'⟩ other =
    searchDirEntry part.disk ⟨isRoot, searchInode inode⟩ other

/-- Each name in the blocks of the table is a name in the direct blocks too. -/
def ListedTwice (part : Volume) (inode : Inode) : Prop :=
  ∀ listed ∈ namedIn part.disk (listedBlocks part.disk inode),
    ∃ direct ∈ namedIn part.disk ((directBlocks inode).filter (· ≠ 0)), direct.name = listed.name

theorem find?_name_none {entries : List DirEntry} :
    (entries.find? fun entry => entry.name = name) = none ↔ ∀ entry ∈ entries, entry.name ≠ name := by
  rw [List.find?_eq_none]
  exact forall₂_congr fun entry _ => by rw [decide_eq_true_iff]

/-- With a name that is new, the names of the old table are lost or were there twice. -/
theorem find?_lost_iff {direct listed : List DirEntry} (isName : entry.name = name)
    (listedNamed : ∀ other ∈ listed, other.name ≠ []) (isNew : ∀ other ∈ listed, other.name ≠ name) :
    (∀ other ≠ [], other ≠ name → ((direct ++ [entry]).find? fun entry => entry.name = other) =
        (direct ++ listed).find? fun entry => entry.name = other) ↔
      ∀ lost ∈ listed, ∃ kept ∈ direct, kept.name = lost.name := by
  have notNew : ∀ other ≠ name, ([entry].find? fun entry => entry.name = other) = none := by
    intro other ne
    apply find?_name_none.mpr
    intro new isEntry
    rw [List.mem_singleton.mp isEntry, isName]
    exact ne.symm
  constructor
  · intro same lost isListed
    have isSame := same lost.name (listedNamed lost isListed) (isNew lost isListed)
    rw [List.find?_append, notNew _ (isNew lost isListed), Option.or_none, List.find?_append] at isSame
    cases isFound : direct.find? fun entry => entry.name = lost.name with
    | some kept => exact ⟨kept, List.mem_of_find?_eq_some isFound, by simpa using List.find?_some isFound⟩
    | none =>
        rw [isFound, Option.none_or] at isSame
        exact absurd rfl (find?_name_none.mp isSame.symm lost isListed)
  · intro twice other _ ne
    rw [List.find?_append, notNew other ne, Option.or_none, List.find?_append]
    cases isFound : direct.find? fun entry => entry.name = other with
    | some kept => rfl
    | none =>
        rw [Option.none_or]
        apply Eq.symm
        apply find?_name_none.mpr
        intro lost isListed isOther
        obtain ⟨kept, isKept, sameName⟩ := twice lost isListed
        exact find?_name_none.mp isFound kept isKept (sameName.trans isOther)

theorem searchDirEntry_inode (disk : Disk) (isRoot : Bool) (inode : Inode) (ne : name ≠ []) :
    searchDirEntry disk ⟨isRoot, searchInode inode⟩ name =
      (dirEntries disk (searchInode inode)).find? fun entry => entry.name = name :=
  searchDirEntry_eq_find disk ⟨isRoot, searchInode inode⟩ ne

variable {isRoot : Bool} (ne : name ≠ [])
  (isNew : searchDirEntry part.disk ⟨isRoot, searchInode inode⟩ name = none)
  (isNo : entry.iNo = inodeNo) (isType : entry.fType = fileType)

include ne isNew isNo isType

/-- With one entry more, the law is that the entry has the name. -/
theorem insertLaw_of_oneMore (oneMore : OneMore entry (dirEntries part.disk (searchInode inode))
    (dirEntries part'.disk (searchInode inode'))) :
    InsertLaw isRoot part inode part' inode' name inodeNo fileType ↔ entry.name = name := by
  rw [searchDirEntry_inode _ _ _ ne] at isNew
  constructor
  · rintro ⟨⟨found, isFound, _⟩, _⟩
    by_contra notName
    rw [searchDirEntry_inode _ _ _ ne, oneMore.find?_of_neg (by simpa using notName), isNew] at isFound
    cases isFound
  · intro isName
    constructor
    · refine ⟨entry, ?_, isNo, isType⟩
      rw [searchDirEntry_inode _ _ _ ne]
      exact oneMore.find?_of_pos (by simpa using isName) isNew
    · intro other otherNe notName
      rw [searchDirEntry_inode _ _ _ otherNe, searchDirEntry_inode _ _ _ otherNe]
      exact oneMore.find?_of_neg (by simpa [isName] using notName.symm)

/-- Without the old table, the law is also that its names were there twice. -/
theorem insertLaw_of_lost (isLost : dirEntries part'.disk (searchInode inode') =
    namedIn part.disk ((directBlocks inode).filter (· ≠ 0)) ++ [entry]) :
    InsertLaw isRoot part inode part' inode' name inodeNo fileType ↔
      entry.name = name ∧ ListedTwice part inode := by
  rw [searchDirEntry_inode _ _ _ ne, dirEntries_split, List.find?_append, Option.or_eq_none_iff] at isNew
  have listedNamed : ∀ other ∈ namedIn part.disk (listedBlocks part.disk inode), other.name ≠ [] := by
    intro other mem
    obtain ⟨lba, _, isAt⟩ := List.mem_flatMap.mp mem
    simpa using (List.mem_filter.mp isAt).2
  have others_iff : entry.name = name →
      ((∀ other ≠ [], other ≠ name → searchDirEntry part'.disk ⟨isRoot, searchInode inode'⟩ other =
        searchDirEntry part.disk ⟨isRoot, searchInode inode⟩ other) ↔ ListedTwice part inode) := by
    intro isName
    rw [ListedTwice, ← find?_lost_iff isName listedNamed (find?_name_none.mp isNew.2)]
    refine forall₃_congr fun other otherNe _ => ?_
    rw [searchDirEntry_inode _ _ _ otherNe, searchDirEntry_inode _ _ _ otherNe, isLost, dirEntries_split]
  constructor
  · rintro ⟨⟨found, isFound, _⟩, others⟩
    have isName : entry.name = name := by
      rw [searchDirEntry_inode _ _ _ ne, isLost, List.find?_append, isNew.1, Option.none_or] at isFound
      have isMem := List.mem_singleton.mp (List.mem_of_find?_eq_some isFound)
      rw [← isMem]
      simpa using List.find?_some isFound
    exact ⟨isName, (others_iff isName).mp others⟩
  · rintro ⟨isName, twice⟩
    refine ⟨⟨entry, ?_, isNo, isType⟩, (others_iff isName).mpr twice⟩
    rw [searchDirEntry_inode _ _ _ ne, isLost, List.find?_append, isNew.1, Option.none_or,
      List.find?_cons_of_pos (by simpa using isName)]

omit isNo isType in
/-- After `create_dir_entry` and `sync_dir_entry` the searches are right exactly when the
name ends before `i_no` or at a zero there, and no name is lost with an old table. -/
theorem insertLaw_iff (owns : OwnsBlocks part inode) (wellFormed : part.WellFormed)
    (cleared : ∀ lba ∈ dirBlocks part.disk inode, Cleared (ideRead part.disk lba 1))
    (noZero : (0 : UInt8) ∉ name) (small : inodeNo < 2 ^ 32)
    (isEntry : createDirEntry name inodeNo fileType = some entry)
    (isInserted : syncDirEntry part inode entry = some (part', inode', true)) :
    InsertLaw isRoot part inode part' inode' name inodeNo fileType ↔
      (name.length ≤ 15 ∨ inodeNo % 256 = 0) ∧ (HasRoom part inode ∨ ListedTwice part inode) := by
  have inserted := Inserted.of_syncDirEntry wellFormed isInserted
  obtain ⟨isNo, isType⟩ := createDirEntry_fields isEntry
  rw [← createDirEntry_name_iff isEntry noZero]
  rcases inserted.dirEntries owns wellFormed cleared (createDirEntry_isWritten isEntry small)
    (createDirEntry_named isEntry ne noZero) with ⟨room, oneMore⟩ | ⟨noRoom, isLost⟩
  · rw [insertLaw_of_oneMore ne isNew isNo isType oneMore]
    exact ⟨fun isName => ⟨isName, .inl room⟩, And.left⟩
  · rw [insertLaw_of_lost ne isNew isNo isType isLost, or_iff_right noRoom]

end Searched

/-- Sixteen times the character `a`. -/
def fullName : List UInt8 := List.replicate 16 97

/-- The first directory of a volume takes an entry of any name that is not too long. -/
theorem exists_inserted (name : List UInt8) (atMost : name.length ≤ maxFileNameLen) :
    ∃ part inode entry part' inode', makeDirectory blankVolume 1 0 = some (part, inode) ∧
      Filled 0 part inode ∧ createDirEntry name 2 .regular = some entry ∧
      syncDirEntry part inode entry = some (part', inode', true) := by
  obtain ⟨part, inode, isMade, filled⟩ := exists_made
  have twoClear := hasTwoClear_of_clearFrom filled.bytesLen filled.clear (by decide)
  rcases syncDirEntry_inserts filled.isDir.aligned filled.wellFormed (namedEntry name 2 .regular) with
    ⟨_, notTwo⟩ | ⟨part', inode', isSome, _⟩
  · exact absurd twoClear notTwo
  · exact ⟨part, inode, _, part', inode', isMade, filled, if_pos atMost, isSome⟩

/-- A directory that was just made finds no name but `.` and `..`. -/
theorem Filled.search_none (filled : Filled 0 part inode) (isRoot : Bool) {name : List UInt8} (ne : name ≠ [])
    (notSelf : name ≠ [dot]) (notUp : name ≠ [dot, dot]) :
    searchDirEntry part.disk ⟨isRoot, searchInode inode⟩ name = none := by
  apply Option.eq_none_iff_forall_ne_some.mpr
  intro entry isFound
  obtain ⟨mem, isName⟩ := (searchDirEntry_iff filled.isDir.cleared filled.isDir.names isRoot ne entry).mp isFound
  have isDot : entry ∈ dots := filled.live.mem_iff.mp mem
  rcases List.mem_cons.mp isDot with rfl | isSelf
  · exact notUp isName.symm
  · rw [List.mem_singleton.mp isSelf] at isName
    exact notSelf isName.symm

/-- A name of one character is found in the first directory of a volume. -/
theorem short_name_searched : ∃ part inode part' inode',
    InsertLaw false part inode part' inode' [97] 2 .regular := by
  obtain ⟨part, inode, entry, part', inode', _, filled, isEntry, isInserted⟩ := exists_inserted [97] (by decide)
  have isNew := filled.search_none false (show [97] ≠ [] by decide) (by decide) (by decide)
  exact ⟨part, inode, part', inode', (insertLaw_iff (by decide) isNew filled.isDir.ownsBlocks
    filled.wellFormed filled.isDir.cleared (by decide) (by decide) isEntry isInserted).mpr
      ⟨.inl (by decide), .inl (.inr filled.noTable)⟩⟩

/-- A name of sixteen characters is accepted, and is not found. -/
theorem full_name_missed : ∃ part inode entry part' inode',
    makeDirectory blankVolume 1 0 = some (part, inode) ∧
      createDirEntry fullName 2 .regular = some entry ∧
      syncDirEntry part inode entry = some (part', inode', true) ∧
      ¬ InsertLaw false part inode part' inode' fullName 2 .regular := by
  obtain ⟨part, inode, entry, part', inode', isMade, filled, isEntry, isInserted⟩ :=
    exists_inserted fullName (by decide)
  refine ⟨part, inode, entry, part', inode', isMade, isEntry, isInserted, fun law => ?_⟩
  have isNew := filled.search_none false (show fullName ≠ [] by decide) (by decide) (by decide)
  have noZero : (0 : UInt8) ∉ fullName := by decide
  obtain ⟨isNo, isType⟩ := createDirEntry_fields isEntry
  rcases (Inserted.of_syncDirEntry filled.wellFormed isInserted).dirEntries filled.isDir.ownsBlocks
    filled.wellFormed filled.isDir.cleared (createDirEntry_isWritten isEntry (by decide))
    (createDirEntry_named isEntry (by decide) noZero) with ⟨_, oneMore⟩ | ⟨noRoom, _⟩
  · have isName := (insertLaw_of_oneMore (by decide) isNew isNo isType oneMore).mp law
    have isShort := (createDirEntry_name_iff isEntry noZero).mp isName
    exact absurd isShort (by decide)
  · exact noRoom (.inr filled.noTable)

end ZyOs.Fs
