import ZyOs.Fs.Directory
import ZyOs.Fs.PathResolution
import ZyOs.Lib.OnePlace

/-!
Contract: the slots of a sector of entries, and the live entries of a directory.

Owns:
- what a write of 24 bytes does to the slots of a sector;
- `liveEntries`, the entries in the blocks of a directory whose type is set, and
  that a search finds the live entry of a name.

A slot that is not live has an empty name: it was never written, or it was
cleared.
-/

namespace ZyOs.Fs

open ZyOs.Kernel ZyOs.Lib
open InodeTable (Inode)

/-! ### Slots -/

/-- Two buffers with the same bytes in a slot. -/
def SameSlot (buf buf' : Buf) (idx : Nat) : Prop :=
  ∀ k < dirEntrySize, buf' (idx * dirEntrySize + k) = buf (idx * dirEntrySize + k)

theorem SameSlot.word {buf buf' : Buf} {idx off : Nat} (same : SameSlot buf buf' idx)
    (inside : off + 4 ≤ dirEntrySize) :
    word buf' (idx * dirEntrySize + off) = word buf (idx * dirEntrySize + off) := by
  apply InodeTable.word_congr
  intro k small
  rw [Nat.add_assoc]
  exact same (off + k) (by omega)

theorem SameSlot.fTypeAt {buf buf' : Buf} {idx : Nat} (same : SameSlot buf buf' idx) :
    fTypeAt buf' idx = fTypeAt buf idx :=
  same.word (by decide)

theorem SameSlot.dirEntryAt {buf buf' : Buf} {idx : Nat} (same : SameSlot buf buf' idx) :
    dirEntryAt buf' idx = dirEntryAt buf idx := by
  have names : (List.range maxFileNameLen).map (fun i => buf' (idx * dirEntrySize + i)) =
      (List.range maxFileNameLen).map fun i => buf (idx * dirEntrySize + i) := by
    apply List.map_congr_left
    intro i mem
    have small : i < 16 := List.mem_range.mp mem
    exact same i (Nat.lt_trans small (by decide))
  have number := same.word (show 16 + 4 ≤ dirEntrySize by decide)
  have type := same.word (show 20 + 4 ≤ dirEntrySize by decide)
  unfold Fs.dirEntryAt
  rw [names, number, type]

/-- Two slots do not overlap. -/
theorem sameSlot_memcpy {buf src : Buf} {idx other : Nat} (ne : other ≠ idx) :
    SameSlot buf (memcpy buf (idx * dirEntrySize) src dirEntrySize) other := by
  intro k small
  unfold memcpy
  apply if_neg
  simp only [dirEntrySize] at small ⊢
  omega

/-- The bytes of a slot are those that were copied. -/
theorem memcpy_slot {buf src : Buf} {idx k : Nat} (small : k < dirEntrySize) :
    memcpy buf (idx * dirEntrySize) src dirEntrySize (idx * dirEntrySize + k) = src k := by
  unfold memcpy
  rw [if_pos ⟨Nat.le_add_right _ _, by omega⟩, Nat.add_sub_cancel_left]

/-- A buffer whose slot has the bytes of another buffer. -/
theorem sameSlot_of_copy {buf src : Buf} {idx : Nat} :
    SameSlot (fun i => src (i - idx * dirEntrySize))
      (memcpy buf (idx * dirEntrySize) src dirEntrySize) idx := by
  intro k small
  rw [memcpy_slot small]
  simp

/-! ### Entries and their bytes -/

/-- An entry that the kernel writes. -/
structure DirEntry.IsWritten (entry : DirEntry) : Prop where
  length : entry.filename.length = maxFileNameLen
  iNo : entry.iNo < 2 ^ 32

theorem DirEntry.bytes_name {entry : DirEntry} {i : Nat} (small : i < maxFileNameLen) :
    entry.bytes i = entry.filename.getD i 0 := if_pos small

/-- The words of an entry behind its name. -/
theorem DirEntry.word_bytes {entry : DirEntry} (isWritten : entry.IsWritten) {idx : Nat}
    (behind : 4 ≤ idx) :
    word entry.bytes (4 * idx) = if idx = 4 then entry.iNo else entry.fType.value := by
  have small : (if idx = 4 then entry.iNo else entry.fType.value) < 2 ^ 32 := by
    have := isWritten.iNo
    split
    · exact this
    · cases entry.fType <;> simp [FileTypes.value]
  have isWord := @word_wordsBuf (fun idx => if idx = 4 then entry.iNo else entry.fType.value) idx small
  rw [← isWord]
  apply InodeTable.word_congr
  intro k _
  exact if_neg (by simp only [maxFileNameLen]; omega)

theorem fTypeAt_copy {entry : DirEntry} (isWritten : entry.IsWritten) (buf : Buf) (idx : Nat) :
    fTypeAt (memcpy buf (idx * dirEntrySize) entry.bytes dirEntrySize) idx = entry.fType.value := by
  have isWord := entry.word_bytes isWritten (show 4 ≤ 5 by decide)
  rw [if_neg (by decide)] at isWord
  rw [← isWord]
  apply InodeTable.word_congr
  intro k small
  rw [Nat.add_assoc]
  exact memcpy_slot (by simp only [dirEntrySize]; omega)

theorem fileTypeOf_value (fType : FileTypes) : fileTypeOf fType.value = fType := by
  cases fType <;> rfl

/-- The entry is read back. -/
theorem dirEntryAt_copy {entry : DirEntry} (isWritten : entry.IsWritten) (buf : Buf) (idx : Nat) :
    dirEntryAt (memcpy buf (idx * dirEntrySize) entry.bytes dirEntrySize) idx = entry := by
  have names : (List.range maxFileNameLen).map (fun i =>
      memcpy buf (idx * dirEntrySize) entry.bytes dirEntrySize (idx * dirEntrySize + i)) =
      entry.filename := by
    apply List.ext_getElem
    · rw [List.length_map, List.length_range, isWritten.length]
    · intro i small inside
      rw [List.length_map, List.length_range] at small
      rw [List.getElem_map, List.getElem_range,
        memcpy_slot (Nat.lt_trans small (by decide)), DirEntry.bytes_name small,
        List.getD_eq_getElem?_getD, List.getElem?_eq_getElem inside, Option.getD_some]
  have number : word (memcpy buf (idx * dirEntrySize) entry.bytes dirEntrySize)
      (idx * dirEntrySize + 16) = entry.iNo := by
    have isWord := entry.word_bytes isWritten (show 4 ≤ 4 by decide)
    rw [if_pos rfl] at isWord
    rw [← isWord]
    apply InodeTable.word_congr
    intro k small
    rw [Nat.add_assoc]
    exact memcpy_slot (by simp only [dirEntrySize]; omega)
  have type := fTypeAt_copy isWritten buf idx
  unfold fTypeAt at type
  unfold dirEntryAt
  rw [names, number, type, fileTypeOf_value]

theorem fTypeAt_clear (buf : Buf) (idx : Nat) :
    fTypeAt (memset buf (idx * dirEntrySize) 0 dirEntrySize) idx = 0 := by
  have same := @sameSlot_of_copy buf (fun _ => 0) idx
  unfold memset
  rw [same.fTypeAt]
  rfl

theorem name_clear (buf : Buf) (idx : Nat) :
    (dirEntryAt (memset buf (idx * dirEntrySize) 0 dirEntrySize) idx).name = [] := by
  have same := @sameSlot_of_copy buf (fun _ => 0) idx
  unfold memset
  rw [same.dirEntryAt]
  rfl

/-! ### Live entries -/

/-- The indices of the slots in use. -/
def liveIdxs (buf : Buf) : List Nat :=
  (List.range dirEntrysPerSec).filter fun idx => fTypeAt buf idx ≠ 0

/-- The entries in use, in the order of their slots. -/
def liveAt (buf : Buf) : List DirEntry := (liveIdxs buf).map (dirEntryAt buf)

theorem mem_liveIdxs {buf : Buf} {idx : Nat} :
    idx ∈ liveIdxs buf ↔ idx < dirEntrysPerSec ∧ fTypeAt buf idx ≠ 0 := by
  rw [liveIdxs, List.mem_filter, List.mem_range, decide_eq_true_iff]

theorem mem_liveAt {buf : Buf} {entry : DirEntry} :
    entry ∈ liveAt buf ↔ ∃ idx < dirEntrysPerSec, fTypeAt buf idx ≠ 0 ∧ dirEntryAt buf idx = entry := by
  rw [liveAt, List.mem_map]
  constructor
  · rintro ⟨idx, mem, isEntry⟩
    obtain ⟨inside, isLive⟩ := mem_liveIdxs.mp mem
    exact ⟨idx, inside, isLive, isEntry⟩
  · rintro ⟨idx, inside, isLive, isEntry⟩
    exact ⟨idx, mem_liveIdxs.mpr ⟨inside, isLive⟩, isEntry⟩

theorem length_liveAt_le (buf : Buf) : (liveAt buf).length ≤ dirEntrysPerSec := by
  rw [liveAt, List.length_map, liveIdxs]
  exact (List.length_filter_le _ _).trans (by rw [List.length_range])

theorem liveAt_congr {buf buf' : Buf} (same : ∀ idx < dirEntrysPerSec, SameSlot buf buf' idx) :
    liveAt buf' = liveAt buf := by
  have sameIdxs : liveIdxs buf' = liveIdxs buf := by
    apply List.filter_congr
    intro idx mem
    rw [(same idx (List.mem_range.mp mem)).fTypeAt]
  unfold liveAt
  rw [sameIdxs]
  apply List.map_congr_left
  intro idx mem
  exact (same idx (mem_liveIdxs.mp mem).1).dirEntryAt

/-- A slot starts to be in use. -/
theorem liveAt_gain {buf buf' : Buf} {idx : Nat} (inside : idx < dirEntrysPerSec)
    (old : fTypeAt buf idx = 0) (new : fTypeAt buf' idx ≠ 0)
    (same : ∀ other < dirEntrysPerSec, other ≠ idx → SameSlot buf buf' other) :
    (liveAt buf').Perm (dirEntryAt buf' idx :: liveAt buf) := by
  have gain : (liveIdxs buf').Perm (idx :: liveIdxs buf) := by
    apply filter_perm_cons List.nodup_range (List.mem_range.mpr inside)
    · simp [old]
    · simp [new]
    · intro other mem ne
      rw [(same other (List.mem_range.mp mem) ne).fTypeAt]
  have sameMap : (liveIdxs buf).map (dirEntryAt buf') = (liveIdxs buf).map (dirEntryAt buf) := by
    apply List.map_congr_left
    intro other mem
    obtain ⟨otherInside, isLive⟩ := mem_liveIdxs.mp mem
    exact (same other otherInside fun isIdx => isLive (by rw [isIdx]; exact old)).dirEntryAt
  have step := gain.map (dirEntryAt buf')
  rw [List.map_cons, sameMap] at step
  exact step

/-! ### Sectors after a write -/

theorem dirEntrys_fit {idx k : Nat} (inside : idx < dirEntrysPerSec) (small : k < dirEntrySize) :
    idx * dirEntrySize + k < sectorSize := by
  have perSec : dirEntrysPerSec = 21 := by decide
  rw [perSec] at inside
  simp only [dirEntrySize, sectorSize] at small ⊢
  omega

/-- The slots that are read are those that were written. -/
theorem sameSlot_ideWrite (disk : Disk) (lba : Nat) (buf : Buf) {idx : Nat}
    (inside : idx < dirEntrysPerSec) :
    SameSlot buf (ideRead (ideWrite disk lba buf 1) lba 1) idx := by
  intro k small
  have fits := dirEntrys_fit inside small
  rw [ideRead_apply _ _ fits, ideWrite_self _ _ _ fits]

theorem liveAt_ideWrite (disk : Disk) (lba : Nat) (buf : Buf) :
    liveAt (ideRead (ideWrite disk lba buf 1) lba 1) = liveAt buf :=
  liveAt_congr fun _ inside => sameSlot_ideWrite disk lba buf inside

/-! ### The blocks of a directory -/

/-- The blocks that the table lists. -/
def tableBlocks (disk : Disk) (inode : Inode) : List Nat :=
  if sectorOf inode 12 ≠ 0 then
    (List.range 128).map fun i => word (ideRead disk (sectorOf inode 12) 1) (4 * i)
  else
    List.replicate 128 0

theorem allBlocks_eq (disk : Disk) (inode : Inode) :
    allBlocks disk (searchInode inode) = directBlocks inode ++ tableBlocks disk inode := by
  have direct : (searchInode inode).iSectors.take 12 = directBlocks inode := by
    rw [searchInode, ← List.map_take, List.take_range]
    rfl
  have last : (searchInode inode).iSectors.getD 12 0 = sectorOf inode 12 := by
    simp [searchInode]
  rw [allBlocks, direct, last]
  rfl

/-- The blocks in use. -/
def dirBlocks (disk : Disk) (inode : Inode) : List Nat :=
  (allBlocks disk (searchInode inode)).filter (· ≠ 0)

/-- The entries in use. -/
def liveEntries (disk : Disk) (inode : Inode) : List DirEntry :=
  (dirBlocks disk inode).flatMap fun lba => liveAt (ideRead disk lba 1)

/-- A slot that is not in use has no name. -/
def Cleared (buf : Buf) : Prop :=
  ∀ idx < dirEntrysPerSec, fTypeAt buf idx = 0 → (dirEntryAt buf idx).name = []

theorem Cleared.mem_liveAt {buf : Buf} (cleared : Cleared buf) {entry : DirEntry}
    (mem : entry ∈ sectorEntries buf) (ne : entry.name ≠ []) : entry ∈ liveAt buf := by
  obtain ⟨idx, isIdx, rfl⟩ := List.mem_map.mp mem
  have inside : idx < dirEntrysPerSec := List.mem_range.mp isIdx
  exact Fs.mem_liveAt.mpr ⟨idx, inside, fun isFree => ne (cleared idx inside isFree), rfl⟩

theorem mem_sectorEntries_of_live {buf : Buf} {entry : DirEntry} (mem : entry ∈ liveAt buf) :
    entry ∈ sectorEntries buf := by
  obtain ⟨idx, inside, _, rfl⟩ := mem_liveAt.mp mem
  exact List.mem_map.mpr ⟨idx, List.mem_range.mpr inside, rfl⟩

/-- `search_dir_entry` finds the live entry of a name, and nothing else. -/
theorem searchDirEntry_iff {disk : Disk} {inode : Inode}
    (cleared : ∀ lba ∈ dirBlocks disk inode, Cleared (ideRead disk lba 1))
    (names : ((liveEntries disk inode).map DirEntry.name).Nodup) (isRoot : Bool) {name : List UInt8}
    (ne : name ≠ []) (entry : DirEntry) :
    searchDirEntry disk ⟨isRoot, searchInode inode⟩ name = some entry ↔
      entry ∈ liveEntries disk inode ∧ entry.name = name := by
  have isFind : searchDirEntry disk ⟨isRoot, searchInode inode⟩ name =
      ((dirBlocks disk inode).flatMap fun lba => sectorEntries (ideRead disk lba 1)).find?
        fun entry => entry.name = name := by
    rw [searchDirEntry, findSome?_blocks, List.find?_flatMap]
    rfl
  have live_of_find : ∀ found, searchDirEntry disk ⟨isRoot, searchInode inode⟩ name = some found →
      found ∈ liveEntries disk inode ∧ found.name = name := by
    intro found isFound
    rw [isFind] at isFound
    have isName : found.name = name := by simpa using List.find?_some isFound
    obtain ⟨lba, isBlock, mem⟩ := List.mem_flatMap.mp (List.mem_of_find?_eq_some isFound)
    have isLive := (cleared lba isBlock).mem_liveAt mem (by rw [isName]; exact ne)
    exact ⟨List.mem_flatMap.mpr ⟨lba, isBlock, isLive⟩, isName⟩
  constructor
  · exact live_of_find entry
  · rintro ⟨mem, isName⟩
    cases isFound : searchDirEntry disk ⟨isRoot, searchInode inode⟩ name with
    | none =>
        rw [isFind] at isFound
        obtain ⟨lba, isBlock, isLive⟩ := List.mem_flatMap.mp mem
        have isSlot : entry ∈ (dirBlocks disk inode).flatMap fun lba =>
            sectorEntries (ideRead disk lba 1) :=
          List.mem_flatMap.mpr ⟨lba, isBlock, mem_sectorEntries_of_live isLive⟩
        have differs := List.find?_eq_none.mp isFound entry isSlot
        simp [isName] at differs
    | some found =>
        obtain ⟨foundMem, foundName⟩ := live_of_find found isFound
        rw [List.inj_on_of_nodup_map names foundMem mem (foundName.trans isName.symm)]

/-! ### Changing the blocks -/

theorem sectorOf_setSector (inode : Inode) {idx other lba : Nat} (inside : idx < 13)
    (otherInside : other < 13) (small : lba < 2 ^ 32) :
    sectorOf (setSector inode idx lba) other = if other = idx then lba else sectorOf inode other := by
  unfold sectorOf setSector
  by_cases same : other = idx
  · rw [if_pos same, same]
    simp only [Function.update_self, UInt32.toNat_ofNat']
    exact Nat.mod_eq_of_lt small
  · have ne : sectorIdx other ≠ sectorIdx idx := by
      intro isSame
      apply same
      have vals := congrArg Fin.val isSame
      simp only [sectorIdx, Nat.mod_eq_of_lt inside, Nat.mod_eq_of_lt otherInside] at vals
      exact vals
    rw [if_neg same]
    simp only [Function.update_of_ne ne]

theorem directBlocks_setSector (inode : Inode) {idx lba : Nat} (inside : idx < 12)
    (small : lba < 2 ^ 32) :
    directBlocks (setSector inode idx lba) = (directBlocks inode).set idx lba := by
  apply List.ext_getElem
  · simp [directBlocks]
  · intro other otherInside _
    have isDirect : other < 12 := by simpa [directBlocks] using otherInside
    rw [List.getElem_set]
    simp only [directBlocks, List.getElem_map, List.getElem_range]
    rw [sectorOf_setSector inode (by omega) (by omega) small]
    simp only [eq_comm]

theorem directBlocks_setTable (inode : Inode) {lba : Nat} (small : lba < 2 ^ 32) :
    directBlocks (setSector inode 12 lba) = directBlocks inode := by
  apply List.map_congr_left
  intro idx mem
  have inside : idx < 12 := List.mem_range.mp mem
  rw [sectorOf_setSector inode (by omega) (by omega) small, if_neg (by omega)]

/-- The table is where it was, with the words that it had. -/
theorem tableBlocks_congr {disk disk' : Disk} {inode inode' : Inode}
    (sameSector : sectorOf inode' 12 = sectorOf inode 12)
    (sameTable : sectorOf inode 12 ≠ 0 → disk' (sectorOf inode 12) = disk (sectorOf inode 12)) :
    tableBlocks disk' inode' = tableBlocks disk inode := by
  unfold tableBlocks
  rw [sameSector]
  split
  · rename_i isTable
    rw [ideRead_congr (sameTable isTable)]
  · rfl

end ZyOs.Fs
