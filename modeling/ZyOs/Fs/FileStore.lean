import ZyOs.Fs.FileContents
import ZyOs.Fs.OpenFailures
import ZyOs.Lib.Simulation

/-!
Contract: the regular files of a volume as a store of byte strings.

Owns:
- `StoreCall`, what `file_create`, `file_write`, `file_read` and `inode_release` do to
  the volume and to the inodes in memory;
- `FilesStep`, what the calls are for: files that are made empty, grow at their end, are
  read from any place inside, and go;
- that every run of the calls, on any number of files, answers as the store of byte
  strings does;
- that the inode table alone leads to the same bytes, for inode numbers of one byte.

Does not own: the directories that name the files.
-/

namespace ZyOs.Fs

open ZyOs.Kernel ZyOs.Lib
open InodeTable (pureInode)

variable {part part' part'' : Volume} {inode inode' : InodeTable.Inode} {bs : List Nat} {data : List UInt8}
  {file file' : OpenFile} {blocks blocks' : List Nat} {buf : Buf} {count : UInt32} {done : Bool}

/-! ### The calls -/

/-- The volume, and the inodes in memory by their numbers. -/
structure FileStore where
  part : Volume
  inode : Nat → Option InodeTable.Inode

/-- The calls on regular files. -/
inductive StoreCall where
  | create
  | write (no : Nat) (buf : Buf) (count : UInt32)
  | read (no : Nat) (pos count : UInt32)
  | release (no : Nat)

/-- What a call answers: the number of a new file, what `file_write` returns, the bytes
that `file_read` gives; an inner `none` is -1. -/
inductive StoreAnswer where
  | created (no : Option Nat)
  | written (count : Option UInt32)
  | bytes (bytes : Option (List UInt8))
  | released
deriving DecidableEq

namespace FileStore

/-- `file_create`, without the entry in the directory. -/
def create (s : FileStore) : Option (StoreAnswer × FileStore) := do
  let (part, allocated) ← s.part.inodeBitmapAlloc
  match allocated with
  | none => return (.created none, { s with part := part })
  | some no => do
      let part ← part.inodeSync (inodeInit no)
      return (.created (some no),
        ⟨part.bitmapSync no .inode, Function.update s.inode no (some (inodeInit no))⟩)

/-- `file_write` to an open file. -/
def write (s : FileStore) (no : Nat) (buf : Buf) (count : UInt32) : Option (StoreAnswer × FileStore) := do
  let inode ← s.inode no
  let (part, file, written) ← fileWrite s.part ⟨0, inode⟩ buf count
  return (.written written, ⟨part, Function.update s.inode no (some file.inode)⟩)

/-- `file_read` of an open file, from `pos` on. -/
def read (s : FileStore) (no : Nat) (pos count : UInt32) : Option (StoreAnswer × FileStore) := do
  let inode ← s.inode no
  let (_, bytes) ← fileRead s.part ⟨pos, inode⟩ count
  return (.bytes bytes, s)

/-- `inode_release`. -/
def release (s : FileStore) (no : Nat) : Option (StoreAnswer × FileStore) := do
  let inode ← s.inode no
  let part ← Calls.releaseBlocks s.part (Calls.inodeBlocks s.part inode)
  let part ← ((part.setInodeBit no false).bitmapSync no .inode).inodeDelete no
  return (.released, ⟨part, Function.update s.inode no none⟩)

/-- A call; `none` when an `ASSERT` fails or there is no such file. -/
def exec (s : FileStore) : StoreCall → Option (StoreAnswer × FileStore)
  | .create => s.create
  | .write no buf count => s.write no buf count
  | .read no pos count => s.read no pos count
  | .release no => s.release no

/-- A read starts inside the file or at its end. -/
def Starts (s : FileStore) : StoreCall → Prop
  | .read no pos _ => ∀ inode, s.inode no = some inode → pos ≤ inode.iSize
  | _ => True

end FileStore

/-- The calls that return, one after the other, each with its answer. -/
def storeMachine : Machine FileStore (StoreCall × StoreAnswer) where
  Step s label s' := s.Starts label.1 ∧ s.exec label.1 = some (label.2, s')

/-! ### What the calls are for -/

/-- The files by their numbers, each with its bytes. -/
abbrev Files := Nat → Option (List UInt8)

/-- What a call does to the files, and answers. -/
inductive FilesStep (files : Files) : StoreCall × StoreAnswer → Files → Prop where
  | create {no : Nat} (isNew : files no = none) :
      FilesStep files (.create, .created (some no)) (Function.update files no (some []))
  | write {no : Nat} {data : List UInt8} {buf : Buf} {count : UInt32} (isFile : files no = some data)
      (fits : data.length + count.toNat < 71680) :
      FilesStep files (.write no buf count, .written (some count))
        (Function.update files no (some (data ++ bufBytes buf count.toNat)))
  | refuse {no : Nat} {data : List UInt8} {buf : Buf} {count : UInt32} (isFile : files no = some data)
      (tooLarge : 71680 < data.length + count.toNat) :
      FilesStep files (.write no buf count, .written none) files
  | read {no : Nat} {data : List UInt8} {pos count : UInt32} (isFile : files no = some data)
      (inFile : pos.toNat ≤ data.length) :
      FilesStep files (.read no pos count, .bytes (readAnswer data pos.toNat count.toNat)) files
  | release {no : Nat} {data : List UInt8} (isFile : files no = some data) :
      FilesStep files (.release no, .released) (Function.update files no none)

def filesMachine : Machine Files (StoreCall × StoreAnswer) := ⟨FilesStep⟩

/-! ### The inode bitmap

A write does not touch it. -/

theorem allocFirst_inodeBitmap (isRun : allocFirst part inode = some (part', inode', done)) :
    part'.inodeBitmap = part.inodeBitmap := by
  unfold allocFirst at isRun
  split at isRun
  · obtain ⟨⟨part₁, allocated⟩, isAlloc, isRest⟩ := Option.bind_eq_some_iff.mp isRun
    obtain ⟨bit, _, rfl, rfl⟩ := Volume.blockBitmapAlloc_eq_some isAlloc
    obtain ⟨_, _, isPair⟩ := Option.bind_eq_some_iff.mp isRest
    cases isPair
    rfl
  · cases isRun
    rfl

theorem allocBlocks_inodeBitmap {idxs : List Nat}
    (isRun : allocBlocks part inode blocks idxs = some (part', inode', blocks', done)) :
    part'.inodeBitmap = part.inodeBitmap := by
  induction idxs generalizing part inode blocks with
  | nil =>
      cases isRun
      rfl
  | cons blockIdx rest inductionHypothesis =>
      unfold allocBlocks at isRun
      obtain ⟨⟨part₁, allocated⟩, isAlloc, isRest⟩ := Option.bind_eq_some_iff.mp isRun
      obtain ⟨bit, _, rfl, rfl⟩ := Volume.blockBitmapAlloc_eq_some isAlloc
      dsimp only at isRest
      split at isRest
      · obtain ⟨_, _, isRest⟩ := Option.bind_eq_some_iff.mp isRest
        exact (inductionHypothesis isRest).trans rfl
      · exact (inductionHypothesis isRest).trans rfl

theorem writeBlocks_inodeBitmap {hasUsed willUse : Nat}
    (isRun : writeBlocks part inode hasUsed willUse = some (part', inode', blocks, done)) :
    part'.inodeBitmap = part.inodeBitmap := by
  unfold writeBlocks at isRun
  dsimp only at isRun
  split at isRun
  · split at isRun
    · cases isRun
      rfl
    · obtain ⟨_, _, isRest⟩ := Option.bind_eq_some_iff.mp isRun
      cases isRest
      rfl
  split at isRun
  · obtain ⟨_, _, isRest⟩ := Option.bind_eq_some_iff.mp isRun
    obtain ⟨_, _, isRest⟩ := Option.bind_eq_some_iff.mp isRest
    exact allocBlocks_inodeBitmap isRest
  split at isRun
  · obtain ⟨⟨part₁, allocated⟩, isAlloc, isRest⟩ := Option.bind_eq_some_iff.mp isRun
    obtain ⟨bit, _, rfl, rfl⟩ := Volume.blockBitmapAlloc_eq_some isAlloc
    obtain ⟨_, _, isRest⟩ := Option.bind_eq_some_iff.mp isRest
    obtain ⟨⟨part₂, inode₂, blocks₂, done₂⟩, isBlocks, isRest⟩ := Option.bind_eq_some_iff.mp isRest
    have same := allocBlocks_inodeBitmap isBlocks
    dsimp only at isRest
    split at isRest <;> cases isRest <;> exact same
  · obtain ⟨_, _, isRest⟩ := Option.bind_eq_some_iff.mp isRun
    obtain ⟨⟨part₂, inode₂, blocks₂, done₂⟩, isBlocks, isRest⟩ := Option.bind_eq_some_iff.mp isRest
    have same := allocBlocks_inodeBitmap isBlocks
    dsimp only at isRest
    split at isRest <;> cases isRest <;> exact same

theorem writeLoop_inodeBitmap {fuel sizeLeft : Nat} {isFirst : Bool} {src : Buf}
    (isRun : writeLoop fuel part file blocks isFirst src sizeLeft = some (part', file')) :
    part'.inodeBitmap = part.inodeBitmap := by
  induction fuel generalizing part file isFirst src sizeLeft with
  | zero =>
      unfold writeLoop at isRun
      split at isRun
      · cases isRun
        rfl
      · cases isRun
  | succ fuel inductionHypothesis =>
      unfold writeLoop at isRun
      split at isRun
      · cases isRun
        rfl
      · obtain ⟨_, _, isRest⟩ := Option.bind_eq_some_iff.mp isRun
        exact (inductionHypothesis isRest).trans rfl

theorem fileWrite_inodeBitmap {written : Option UInt32}
    (isRun : fileWrite part file buf count = some (part', file', written)) :
    part'.inodeBitmap = part.inodeBitmap := by
  unfold fileWrite at isRun
  split at isRun
  · cases isRun
    rfl
  unfold writeData at isRun
  obtain ⟨⟨part₁, inode₁, done₁⟩, isFirst, isRest⟩ := Option.bind_eq_some_iff.mp isRun
  obtain rfl := allocFirst_done isFirst
  simp only [Bool.true_eq_false, if_false] at isRest
  obtain ⟨_, _, isRest⟩ := Option.bind_eq_some_iff.mp isRest
  obtain ⟨⟨part₂, inode₂, blocks, done₂⟩, isBlocks, isRest⟩ := Option.bind_eq_some_iff.mp isRest
  obtain rfl := writeBlocks_done isBlocks
  simp only [Bool.true_eq_false, if_false] at isRest
  obtain ⟨⟨part₃, file₃⟩, isLoop, isRest⟩ := Option.bind_eq_some_iff.mp isRest
  obtain ⟨part₄, isSync, isPair⟩ := Option.bind_eq_some_iff.mp isRest
  have isPart : part₄ = part' := congrArg Prod.fst (Option.some.inj isPair)
  calc part'.inodeBitmap = part₄.inodeBitmap := by rw [isPart]
    _ = part₃.inodeBitmap := Volume.inodeSync_inodeBitmap isSync
    _ = part₂.inodeBitmap := writeLoop_inodeBitmap isLoop
    _ = part₁.inodeBitmap := writeBlocks_inodeBitmap isBlocks
    _ = part.inodeBitmap := allocFirst_inodeBitmap isFirst

/-- The blocks of a file, read off its inode. -/
theorem HoldsBlocks.ownBlocks_eq (holds : HoldsBlocks part inode bs) (wellFormed : part.WellFormed) :
    ownBlocks part.disk inode = fileBlocks inode bs := by
  have noneZero : bs.filter (· ≠ 0) = bs :=
    List.filter_eq_self.mpr fun lba mem => decide_eq_true (holds.notZero wellFormed mem)
  have allZero : (List.replicate (140 - bs.length) 0).filter (· ≠ 0) = [] := by
    simp
  rw [ownBlocks, dirBlocks, holds.allBlocks_eq_append, List.filter_append, noneZero, allZero, List.append_nil,
    fileBlocks]

/-- A read inside a file returns, but for its last sector. -/
theorem fileRead_returns {pos : UInt32} (has : HasBytes part inode bs data)
    (inFile : pos.toNat + count.toNat ≤ data.length) (small : pos.toNat + count.toNat < 71168) :
    ∃ file', fileRead part ⟨pos, inode⟩ count = some (file', some ((data.drop pos.toNat).take count.toNat)) := by
  have sum : (pos + count).toNat = pos.toNat + count.toNat :=
    toNat_add_of_fits (by unfold Fits; dsimp only; omega)
  have inside : pos.toNat / blockSize < 139 ∧ (pos.toNat + count.toNat) / blockSize < 139 := by
    unfold blockSize
    omega
  have isTable : 12 ≤ (pos.toNat + count.toNat) / blockSize → sectorOf inode 12 ≠ 0 := by
    intro indirect
    have inBlocks : (pos.toNat + count.toNat) / blockSize ≤ data.length / blockSize := Nat.div_le_div_right inFile
    rcases has.blocks with isLength | ⟨_, rfl⟩
    · exact has.holds.table.mpr (by omega)
    · rw [List.length_nil, Nat.zero_div] at inBlocks
      omega
  obtain ⟨blocks, isBlocks⟩ :=
    @readBlockTable_spec inode (pos.toNat / blockSize) ((pos.toNat + count.toNat) / blockSize) isTable part
  obtain ⟨file', bytes, isLoop⟩ :=
    @readLoop_spec ⟨pos, inode⟩ count.toNat count.toNat (Nat.le_refl _) (by dsimp only; omega) part blocks
  have isData : readData part ⟨pos, inode⟩ count = some (file', bytes) := by
    unfold readData
    dsimp only
    rw [sum]
    simp only [guard, if_pos inside, Option.pure_def, Option.bind_eq_bind, Option.bind_some, isBlocks, isLoop]
  refine ⟨file', ?_⟩
  rw [fileRead_inside (by rw [has.size]; exact inFile), isData, readData_bytes has inFile isData]
  rfl

/-! ### One file of the volume -/

/-- The inode is that of a file with a number in use. -/
structure FileAt (part : Volume) (inode : InodeTable.Inode) (no : Nat) (bs : List Nat) (data : List UInt8) :
    Prop where
  has : HasBytes part inode bs data
  iNo : inode.iNo.toNat = no
  inTable : no < 4096
  bit : bitmapScanTest part.inodeBitmap no = true

/-- What is done to other blocks leaves a file with its bytes. -/
theorem FileAt.frame {no : Nat} {slots written : List Nat} (isFile : FileAt part inode no bs data)
    (keeps : part.Keeps part' slots written) (kept : ∀ lba ∈ fileBlocks inode bs, part'.InUse lba)
    (notOwn : ∀ lba ∈ fileBlocks inode bs, lba ∉ written) (bit : bitmapScanTest part'.inodeBitmap no = true) :
    FileAt part' inode no bs data where
  has := by
    have has := isFile.has
    refine ⟨?_, has.size, has.small, has.blocks, has.bytes.congr fun i inside => ?_⟩
    · exact has.holds.frame keeps.writes (fun isTable => notOwn _ (table_mem_fileBlocks isTable)) kept rfl
    · have isBlock : i / blockSize < bs.length := by
        rcases has.blocks with isLength | ⟨_, rfl⟩
        · rw [isLength]
          exact Nat.lt_succ_of_le (Nat.div_le_div_right (Nat.le_of_lt inside))
        · exact absurd inside (Nat.not_lt_zero i)
      have mem : bs.getD (i / blockSize) 0 ∈ fileBlocks inode bs := by
        rw [List.getD_eq_getElem _ _ isBlock]
        exact List.mem_append_right _ (List.getElem_mem isBlock)
      exact keeps.writes.disk _ (has.holds.inUse _ mem).inData (notOwn _ mem)
  iNo := isFile.iNo
  inTable := isFile.inTable
  bit := bit

theorem sectorOf_inodeInit (no idx : Nat) : sectorOf (inodeInit no) idx = 0 := rfl

/-- A created file is empty. -/
theorem fileAt_inodeInit {no : Nat} (inTable : no < 4096) (bit : bitmapScanTest part.inodeBitmap no = true) :
    FileAt part (inodeInit no) no [] [] where
  has := by
    have noTable : tableBlock (inodeInit no) = [] := if_neg fun ne => ne rfl
    refine ⟨⟨fun idx inside => ?_, Nat.zero_le _, ?_, ?_, ?_⟩, rfl, by decide, .inr ⟨rfl, rfl⟩, ?_⟩
    · rw [List.getD_nil]
      by_cases isDirect : idx < 12
      · rw [allBlocks_getD isDirect, sectorOf_inodeInit]
      · rw [allBlocks_behind (Nat.le_of_not_lt isDirect), tableBlocks_none (sectorOf_inodeInit no 12)]
    · exact iff_of_false (fun ne => ne rfl) (Nat.not_lt_zero _)
    · rw [fileBlocks, noTable]
      exact List.nodup_nil
    · rw [fileBlocks, noTable]
      exact fun lba mem => absurd mem List.not_mem_nil
    · exact fun i inside => absurd inside (Nat.not_lt_zero i)
  iNo := by
    show (UInt32.ofNat no).toNat = no
    exact UInt32.toNat_ofNat_of_lt' (by unfold UInt32.size; omega)
  inTable := inTable
  bit := bit

/-! ### The files of the volume -/

/-- The inodes in memory are those of the files, and no two files share a block. -/
structure StoreInv (s : FileStore) (files : Files) (bs : Nat → List Nat) : Prop where
  layout : s.part.Layout
  bitmapLen : s.part.inodeBitmap.btmpBytesLen ≤ 512
  files : ∀ no, Option.Rel (fun inode data => FileAt s.part inode no (bs no) data) (s.inode no) (files no)
  apart : ∀ no other inode inode', no ≠ other → s.inode no = some inode → s.inode other = some inode' →
    ∀ lba ∈ fileBlocks inode (bs no), lba ∉ fileBlocks inode' (bs other)

/-- The records of the inode table are those of the files. -/
def Recorded (s : FileStore) : Prop :=
  ∀ no inode, s.inode no = some inode → no < 256 ∧ s.part.record no = pureInode inode

namespace StoreInv

variable {s s' : FileStore} {files : Files} {ofFile : Nat → List Nat} {no : Nat}

theorem fileAt (inv : StoreInv s files ofFile) (isInode : s.inode no = some inode) :
    ∃ data, files no = some data ∧ FileAt s.part inode no (ofFile no) data := by
  have related := inv.files no
  rw [isInode] at related
  cases isData : files no with
  | none =>
      rw [isData] at related
      cases related
  | some data =>
      rw [isData] at related
      cases related with
      | some isFile => exact ⟨data, rfl, isFile⟩

theorem noFile (inv : StoreInv s files ofFile) (noInode : s.inode no = none) : files no = none := by
  have related := inv.files no
  rw [noInode] at related
  cases isData : files no with
  | none => rfl
  | some data =>
      rw [isData] at related
      cases related

/-- One file is replaced, or comes or goes; the others keep their blocks. -/
theorem update {slots written : List Nat} {inode? : Option InodeTable.Inode} {data? : Option (List UInt8)}
    (inv : StoreInv s files ofFile) (keeps : s.part.Keeps part' slots written)
    (bitmapLen : part'.inodeBitmap.btmpBytesLen = s.part.inodeBitmap.btmpBytesLen)
    (isFile : Option.Rel (fun inode data => FileAt part' inode no bs data) inode? data?)
    (own : ∀ inode, inode? = some inode → ∀ other inode', other ≠ no → s.inode other = some inode' →
      ∀ lba ∈ fileBlocks inode bs, lba ∉ fileBlocks inode' (ofFile other))
    (kept : ∀ other inode', other ≠ no → s.inode other = some inode' →
      (∀ lba ∈ fileBlocks inode' (ofFile other), part'.InUse lba ∧ lba ∉ written) ∧
        bitmapScanTest part'.inodeBitmap other = true) :
    StoreInv ⟨part', Function.update s.inode no inode?⟩ (Function.update files no data?)
      (Function.update ofFile no bs) where
  layout := keeps.layout inv.layout
  bitmapLen := by
    show part'.inodeBitmap.btmpBytesLen ≤ 512
    rw [bitmapLen]
    exact inv.bitmapLen
  files other := by
    dsimp only
    by_cases isNo : other = no
    · subst isNo
      rw [Function.update_self, Function.update_self, Function.update_self]
      exact isFile
    · rw [Function.update_of_ne isNo, Function.update_of_ne isNo, Function.update_of_ne isNo]
      cases isInode : s.inode other with
      | none =>
          rw [inv.noFile isInode]
          exact .none
      | some inode' =>
          obtain ⟨data, isData, isFile'⟩ := inv.fileAt isInode
          obtain ⟨blocks, bit⟩ := kept other inode' isNo isInode
          rw [isData]
          exact .some (isFile'.frame keeps (fun lba mem => (blocks lba mem).1) (fun lba mem => (blocks lba mem).2) bit)
  apart first second inode₁ inode₂ ne isFirst isSecond := by
    dsimp only at isFirst isSecond
    by_cases firstIsNo : first = no
    · subst firstIsNo
      rw [Function.update_self] at isFirst
      rw [Function.update_of_ne ne.symm] at isSecond
      rw [Function.update_self, Function.update_of_ne ne.symm]
      exact own inode₁ isFirst second inode₂ ne.symm isSecond
    · rw [Function.update_of_ne firstIsNo] at isFirst
      rw [Function.update_of_ne firstIsNo]
      by_cases secondIsNo : second = no
      · subst secondIsNo
        rw [Function.update_self] at isSecond
        rw [Function.update_self]
        exact fun lba mem mem' => own inode₂ isSecond first inode₁ firstIsNo isFirst lba mem' mem
      · rw [Function.update_of_ne secondIsNo] at isSecond
        rw [Function.update_of_ne secondIsNo]
        exact inv.apart first second inode₁ inode₂ ne isFirst isSecond

/-! ### The calls -/

theorem create {answer : StoreAnswer} (inv : StoreInv s files ofFile) (isRun : s.create = some (answer, s')) :
    ∃ no files' ofFile', answer = .created (some no) ∧ FilesStep files (.create, answer) files' ∧
      StoreInv s' files' ofFile' ∧ (no < 256 → Recorded s → Recorded s') := by
  obtain ⟨⟨part₁, allocated⟩, isAlloc, isRest⟩ := Option.bind_eq_some_iff.mp isRun
  obtain ⟨no, found, rfl, rfl⟩ := Calls.inodeBitmapAlloc_eq_some isAlloc
  obtain ⟨inside, clear, _⟩ := firstClear_some found
  have bitmapLen := inv.bitmapLen
  have inTable : no < 4096 := by omega
  obtain ⟨part₂, isSync, isPair⟩ := Option.bind_eq_some_iff.mp isRest
  cases isPair
  have set := Volume.keeps_setInodeBit s.part no true
  have layout₁ := set.layout inv.layout
  have isNo : (inodeInit no).iNo.toNat = no := by
    show (UInt32.ofNat no).toNat = no
    exact UInt32.toNat_ofNat_of_lt' (by unfold UInt32.size; omega)
  obtain ⟨synced, record, blockBitmap, inodeBitmap⟩ := Volume.inodeSync_eq_some layout₁ isSync
  rw [isNo] at synced record
  have stored := Volume.keeps_syncInode ((set.trans synced).layout inv.layout) inTable
  have keeps := (set.trans synced).trans stored
  have bits : ∀ i, bitmapScanTest (part₂.bitmapSync no .inode).inodeBitmap i =
      if i = no then true else bitmapScanTest s.part.inodeBitmap i := by
    intro i
    show bitmapScanTest part₂.inodeBitmap i = _
    rw [inodeBitmap]
    exact bitmapScanTest_bitmapSet s.part.inodeBitmap no i true
  have noInode : s.inode no = none := by
    cases isInode : s.inode no with
    | none => rfl
    | some inode =>
        obtain ⟨_, _, isFile⟩ := inv.fileAt isInode
        have bit := isFile.bit
        rw [clear] at bit
        cases bit
  have others : ∀ other inode', other ≠ no → s.inode other = some inode' →
      (∀ lba ∈ fileBlocks inode' (ofFile other), (part₂.bitmapSync no .inode).InUse lba ∧ lba ∉ []) ∧
        bitmapScanTest (part₂.bitmapSync no .inode).inodeBitmap other = true := by
    intro other inode' ne isInode
    obtain ⟨_, _, isFile⟩ := inv.fileAt isInode
    refine ⟨fun lba mem => ⟨?_, List.not_mem_nil⟩, ?_⟩
    · exact (keeps.inUse_iff blockBitmap).mpr (isFile.has.holds.inUse lba mem)
    · rw [bits, if_neg ne]
      exact isFile.bit
  have isFile : FileAt (part₂.bitmapSync no .inode) (inodeInit no) no [] [] :=
    fileAt_inodeInit inTable (by rw [bits, if_pos rfl])
  have noBlocks : fileBlocks (inodeInit no) [] = [] := by
    rw [fileBlocks, List.append_nil]
    exact if_neg fun ne => ne rfl
  refine ⟨no, _, _, rfl, .create (inv.noFile noInode), inv.update keeps ?_ (.some isFile) ?_ others, ?_⟩
  · show part₂.inodeBitmap.btmpBytesLen = _
    rw [inodeBitmap]
    rfl
  · intro inode isInode other inode' _ _ lba mem
    cases isInode
    rw [noBlocks] at mem
    exact absurd mem List.not_mem_nil
  · intro small recorded other inode isInode
    by_cases isNo' : other = no
    · subst isNo'
      dsimp only at isInode
      rw [Function.update_self] at isInode
      cases isInode
      refine ⟨small, ?_⟩
      rw [Nat.mod_eq_of_lt small] at record
      rw [stored.record other inTable List.not_mem_nil, record]
    · dsimp only at isInode
      rw [Function.update_of_ne isNo'] at isInode
      obtain ⟨small', isRecord⟩ := recorded other inode isInode
      refine ⟨small', ?_⟩
      rw [keeps.record other (by omega) (by simpa [Nat.mod_eq_of_lt small] using isNo'), isRecord]

/-- A write that is refused changes nothing. -/
theorem fileWrite_refused (isRun : fileWrite part file buf count = some (part', file', none)) :
    part' = part ∧ file' = file ∧ 71680 < file.inode.iSize.toNat + count.toNat := by
  unfold fileWrite at isRun
  split at isRun
  · rename_i tooLarge
    cases isRun
    refine ⟨rfl, rfl, ?_⟩
    rw [gt_iff_lt, UInt32.lt_iff_toNat_lt, UInt32.toNat_add] at tooLarge
    have isMax : maxFileSize.toNat = 71680 := rfl
    have le := Nat.mod_le (file.inode.iSize.toNat + count.toNat) (2 ^ 32)
    omega
  · exact absurd (writeData_written isRun) (by simp)

theorem write {answer : StoreAnswer} (inv : StoreInv s files ofFile) (isRun : s.write no buf count = some (answer, s')) :
    ∃ files' ofFile', FilesStep files (.write no buf count, answer) files' ∧
      StoreInv s' files' ofFile' ∧ (Recorded s → Recorded s') := by
  obtain ⟨inode, isInode, isRest⟩ := Option.bind_eq_some_iff.mp isRun
  obtain ⟨⟨part', file', written⟩, isWrite, isPair⟩ := Option.bind_eq_some_iff.mp isRest
  cases isPair
  obtain ⟨data, isData, isFile⟩ := inv.fileAt isInode
  have size := isFile.has.size
  have small := isFile.has.small
  cases written with
  | none =>
      obtain ⟨rfl, rfl, tooLarge⟩ := fileWrite_refused isWrite
      dsimp only at tooLarge
      rw [size] at tooLarge
      have same : (⟨s.part, Function.update s.inode no (some inode)⟩ : FileStore) = s := by
        rw [← isInode, Function.update_eq_self]
      rw [same]
      exact ⟨files, ofFile, .refuse isData tooLarge, inv, fun recorded => recorded⟩
  | some written =>
      obtain ⟨rfl, bs', has', wrote⟩ := fileWrite_bytes inv.layout isFile.has isWrite
      have fits := (fileWrite_succeeded (by dsimp only; omega) isWrite).small
      dsimp only at fits
      rw [size] at fits
      have sameBits := fileWrite_inodeBitmap isWrite
      have isNo := isFile.iNo
      have isFile' : FileAt part' file'.inode no bs' (data ++ bufBytes buf written.toNat) := by
        refine ⟨has', ?_, isFile.inTable, ?_⟩
        · rw [wrote.iNo]
          exact isNo
        · rw [sameBits]
          exact isFile.bit
      have apart : ∀ other inode', other ≠ no → s.inode other = some inode' →
          ∀ lba ∈ fileBlocks file'.inode bs', lba ∉ fileBlocks inode' (ofFile other) := by
        intro other inode' ne isOther lba mem mem'
        obtain ⟨_, _, isFile₂⟩ := inv.fileAt isOther
        rcases wrote.own lba mem with old | wasFree
        · exact inv.apart no other inode inode' ne.symm isInode isOther lba old mem'
        · exact wasFree (isFile₂.has.holds.inUse lba mem')
      refine ⟨_, _, .write isData fits, inv.update wrote.keeps (by rw [sameBits]) (.some isFile') ?_ ?_, ?_⟩
      · intro inode' isInode' other inode₂ ne isOther
        cases isInode'
        exact apart other inode₂ ne isOther
      · intro other inode' ne isOther
        obtain ⟨_, _, isFile₂⟩ := inv.fileAt isOther
        refine ⟨fun lba mem => ⟨wrote.kept lba (isFile₂.has.holds.inUse lba mem), fun mem' => ?_⟩, ?_⟩
        · exact apart other inode' ne isOther lba mem' mem
        · rw [sameBits]
          exact isFile₂.bit
      · intro recorded other inode' isOther
        have smallNo := (recorded no inode isInode).1
        have isSlot : inode.iNo.toNat % 256 = no := by
          rw [isNo]
          exact Nat.mod_eq_of_lt smallNo
        by_cases isNo' : other = no
        · subst isNo'
          dsimp only at isOther
          rw [Function.update_self] at isOther
          cases isOther
          exact ⟨smallNo, by rw [← wrote.record, isSlot]⟩
        · dsimp only at isOther
          rw [Function.update_of_ne isNo'] at isOther
          obtain ⟨small', isRecord⟩ := recorded other inode' isOther
          refine ⟨small', ?_⟩
          rw [wrote.keeps.record other (by omega) (by rw [isSlot]; simpa using isNo'), isRecord]

theorem read {answer : StoreAnswer} {pos : UInt32} (inv : StoreInv s files ofFile)
    (starts : s.Starts (.read no pos count)) (isRun : s.read no pos count = some (answer, s')) :
    FilesStep files (.read no pos count, answer) files ∧ s' = s := by
  obtain ⟨inode, isInode, isRest⟩ := Option.bind_eq_some_iff.mp isRun
  obtain ⟨⟨file', bytes⟩, isRead, isPair⟩ := Option.bind_eq_some_iff.mp isRest
  cases isPair
  obtain ⟨data, isData, isFile⟩ := inv.fileAt isInode
  have inFile := starts inode isInode
  rw [UInt32.le_iff_toNat_le, isFile.has.size] at inFile
  rw [fileRead_bytes isFile.has inFile isRead]
  exact ⟨.read isData inFile, rfl⟩

theorem release {answer : StoreAnswer} (inv : StoreInv s files ofFile) (isRun : s.release no = some (answer, s')) :
    ∃ files' ofFile', FilesStep files (.release no, answer) files' ∧
      StoreInv s' files' ofFile' ∧ (Recorded s → Recorded s') := by
  obtain ⟨inode, isInode, isRest⟩ := Option.bind_eq_some_iff.mp isRun
  obtain ⟨part₁, isFreed, isRest⟩ := Option.bind_eq_some_iff.mp isRest
  obtain ⟨part₂, isDeleted, isPair⟩ := Option.bind_eq_some_iff.mp isRest
  cases isPair
  obtain ⟨data, isData, isFile⟩ := inv.fileAt isInode
  have wellFormed := inv.layout.toWellFormed
  have own := isFile.has.holds.ownBlocks_eq wellFormed
  have released := Volume.released inv.layout isFile.inTable
    (fun lba mem => isFile.has.holds.inUse lba (own ▸ mem)) isFreed isDeleted
  have bitmapLen : part₂.inodeBitmap.btmpBytesLen = s.part.inodeBitmap.btmpBytesLen := by
    obtain ⟨_, sameBits, _⟩ := releaseBlocks_eq_some inv.layout
      (fun lba mem ne => (isFile.has.holds.inUse lba (own ▸ (mem_inodeBlocks ne).mp mem)).inside) isFreed
    obtain ⟨deleted, isTable, isPart⟩ := Option.bind_eq_some_iff.mp isDeleted
    cases isPart
    show part₁.inodeBitmap.btmpBytesLen = _
    rw [sameBits]
  refine ⟨_, Function.update ofFile no [], .release isData, inv.update released.keeps bitmapLen .none ?_ ?_, ?_⟩
  · exact fun _ isNone => nomatch isNone
  · intro other inode' ne isOther
    obtain ⟨_, _, isFile'⟩ := inv.fileAt isOther
    refine ⟨fun lba mem => ⟨?_, List.not_mem_nil⟩, ?_⟩
    · refine (released.inUse lba).mpr ⟨isFile'.has.holds.inUse lba mem, fun mem' => ?_⟩
      rw [own] at mem'
      exact inv.apart other no inode' inode ne isOther isInode lba mem mem'
    · rw [released.inodeBit, if_neg ne]
      exact isFile'.bit
  · intro recorded other inode' isOther
    by_cases isNo : other = no
    · subst isNo
      dsimp only at isOther
      rw [Function.update_self] at isOther
      cases isOther
    · dsimp only at isOther
      rw [Function.update_of_ne isNo] at isOther
      obtain ⟨small, isRecord⟩ := recorded other inode' isOther
      refine ⟨small, ?_⟩
      rw [released.keeps.record other (by omega) (by simpa using isNo), isRecord]

end StoreInv

/-! ### Runs -/

/-- A store that has no file. -/
structure NoFiles (s : FileStore) : Prop where
  layout : s.part.Layout
  bitmapLen : s.part.inodeBitmap.btmpBytesLen ≤ 512
  noInode : ∀ no, s.inode no = none

theorem NoFiles.inv {s : FileStore} (noFiles : NoFiles s) : StoreInv s (fun _ => none) fun _ => [] where
  layout := noFiles.layout
  bitmapLen := noFiles.bitmapLen
  files no := by
    rw [noFiles.noInode]
    exact .none
  apart no other inode inode' _ isInode := by
    rw [noFiles.noInode] at isInode
    cases isInode

/-- A call does to the bytes of the files what it is for. -/
theorem store_step {s s' : FileStore} {files : Files} {ofFile : Nat → List Nat} {label : StoreCall × StoreAnswer}
    (inv : StoreInv s files ofFile) (step : storeMachine.Step s label s') :
    ∃ files' ofFile', FilesStep files label files' ∧ StoreInv s' files' ofFile' ∧
      ((∀ no, label = (.create, .created (some no)) → no < 256) → Recorded s → Recorded s') := by
  obtain ⟨call, answer⟩ := label
  obtain ⟨starts, isRun⟩ := step
  cases call with
  | create =>
      obtain ⟨no, files', ofFile', rfl, isStep, inv', recorded⟩ := inv.create isRun
      exact ⟨files', ofFile', isStep, inv', fun small => recorded (small no rfl)⟩
  | write no buf count =>
      obtain ⟨files', ofFile', isStep, inv', recorded⟩ := inv.write isRun
      exact ⟨files', ofFile', isStep, inv', fun _ => recorded⟩
  | read no pos count =>
      obtain ⟨isStep, rfl⟩ := inv.read starts isRun
      exact ⟨files, ofFile, isStep, inv, fun _ recorded => recorded⟩
  | release no =>
      obtain ⟨files', ofFile', isStep, inv', recorded⟩ := inv.release isRun
      exact ⟨files', ofFile', isStep, inv', fun _ => recorded⟩

/-- The store behind a call that returns. -/
def FileStore.after (s : FileStore) (call : StoreCall) : FileStore := ((s.exec call).map Prod.snd).getD s

theorem step_after {s : FileStore} {call : StoreCall} {answer : StoreAnswer} (starts : s.Starts call)
    (isAnswer : (s.exec call).map Prod.fst = some answer) : storeMachine.Step s (call, answer) (s.after call) := by
  obtain ⟨⟨_, s'⟩, isRun, rfl⟩ := Option.map_eq_some_iff.mp isAnswer
  refine ⟨starts, ?_⟩
  unfold FileStore.after
  rw [isRun]
  rfl

/-- A blank volume without files. -/
def blankStore : FileStore := ⟨blankVolume, fun _ => none⟩

theorem blankStore_noFiles : NoFiles blankStore where
  layout := by
    refine ⟨blankVolume_wellFormed, fun bit inside => ?_, by decide⟩
    have inside : bit < 8 * 512 := inside
    show 1 + bit / 4096 < 3
    omega
  bitmapLen := by decide
  noInode _ := rfl

def sampleWrite : StoreCall := .write 0 (fun _ => 97) 2

/-- A file with two bytes. -/
theorem blankStore_run : storeMachine.Run blankStore
    [(.create, .created (some 0)), (sampleWrite, .written (some 2)), (.read 0 0 5, .bytes (some [97, 97]))]
    (((blankStore.after .create).after sampleWrite).after (.read 0 0 5)) := by
  have created : storeMachine.Step blankStore (.create, .created (some 0)) _ :=
    step_after trivial (by decide +kernel)
  have written : storeMachine.Step (blankStore.after .create) (sampleWrite, .written (some 2)) _ :=
    step_after trivial (by decide +kernel)
  have read : storeMachine.Step ((blankStore.after .create).after sampleWrite)
      (.read 0 0 5, .bytes (some [97, 97])) _ :=
    step_after (fun inode _ => UInt32.zero_le) (by decide +kernel)
  exact .snoc (.snoc (.snoc .nil created) written) read

/-- The files of a volume are byte strings: whatever is created, written, read and
released, in whatever order, each call answers what the store of byte strings does. -/
theorem file_store_refines {start s : FileStore} {trace : List (StoreCall × StoreAnswer)}
    (noFiles : NoFiles start) (run : storeMachine.Run start trace s) :
    ∃ files, filesMachine.Run (fun _ => none) trace files := by
  have simulation : Simulation storeMachine filesMachine fun s files => ∃ ofFile, StoreInv s files ofFile :=
    ⟨fun ⟨_, inv⟩ step => by
      obtain ⟨files', ofFile', isStep, inv', _⟩ := store_step inv step
      exact ⟨files', isStep, ofFile', inv'⟩⟩
  obtain ⟨files, isRun, _⟩ := simulation.run ⟨_, noFiles.inv⟩ run
  exact ⟨files, isRun⟩

theorem file_store_refines_sample : ∃ files, filesMachine.Run (fun _ => none)
    [(.create, .created (some 0)), (sampleWrite, .written (some 2)), (.read 0 0 5, .bytes (some [97, 97]))] files :=
  file_store_refines blankStore_noFiles blankStore_run

/-- The inode table is enough: while the numbers fit in a byte, a file whose inode is read
from the disk has the bytes that were written to it. -/
theorem file_store_durable {start s : FileStore} {trace : List (StoreCall × StoreAnswer)}
    (noFiles : NoFiles start) (run : storeMachine.Run start trace s)
    (small : ∀ no, (.create, .created (some no)) ∈ trace → no < 256) :
    ∃ files, filesMachine.Run (fun _ => none) trace files ∧ ∀ no data, files no = some data →
      ∃ inode, s.part.readInode no = some inode ∧ ∀ pos count : UInt32, pos.toNat + count.toNat ≤ data.length →
        pos.toNat + count.toNat < 71168 → ∃ file',
          fileRead s.part ⟨pos, inode⟩ count = some (file', some ((data.drop pos.toNat).take count.toNat)) := by
  have runs : ∃ files ofFile, filesMachine.Run (fun _ => none) trace files ∧ StoreInv s files ofFile ∧ Recorded s := by
    induction run with
    | nil => exact ⟨_, _, .nil, noFiles.inv, fun no inode isInode => by
        rw [noFiles.noInode] at isInode
        cases isInode⟩
    | snoc _ step inductionHypothesis =>
        obtain ⟨files, ofFile, before, inv, recorded⟩ :=
          inductionHypothesis fun no mem => small no (List.mem_append_left _ mem)
        obtain ⟨files', ofFile', isStep, inv', recorded'⟩ := store_step inv step
        refine ⟨files', ofFile', .snoc before isStep, inv', recorded' (fun no isLabel => ?_) recorded⟩
        exact small no (List.mem_append_right _ (List.mem_singleton.mpr isLabel.symm))
  obtain ⟨files, ofFile, isRun, inv, recorded⟩ := runs
  refine ⟨files, isRun, fun no data isData => ?_⟩
  cases isInode : s.inode no with
  | none =>
      rw [inv.noFile isInode] at isData
      cases isData
  | some inode =>
      obtain ⟨data', isData', isFile⟩ := inv.fileAt isInode
      cases isData.symm.trans isData'
      refine ⟨s.part.record no, readInode_eq isFile.inTable, fun pos count inFile fits => ?_⟩
      have has := isFile.has
      have has' : HasBytes s.part (s.part.record no) (ofFile no) data := by
        rw [(recorded no inode isInode).2]
        exact ⟨has.holds.frame (Takes.refl s.part).keeps.writes (fun _ => List.not_mem_nil) has.holds.inUse rfl,
          has.size, has.small, has.blocks, has.bytes⟩
      exact fileRead_returns has' inFile fits

theorem file_store_durable_sample : ∃ files, filesMachine.Run (fun _ => none)
    [(.create, .created (some 0)), (sampleWrite, .written (some 2)), (.read 0 0 5, .bytes (some [97, 97]))] files ∧
      ∀ no data, files no = some data → ∃ inode,
        (((blankStore.after .create).after sampleWrite).after (.read 0 0 5)).part.readInode no = some inode ∧
        ∀ pos count : UInt32, pos.toNat + count.toNat ≤ data.length → pos.toNat + count.toNat < 71168 → ∃ file',
          fileRead (((blankStore.after .create).after sampleWrite).after (.read 0 0 5)).part ⟨pos, inode⟩ count =
            some (file', some ((data.drop pos.toNat).take count.toNat)) :=
  file_store_durable blankStore_noFiles blankStore_run fun no mem => by
    rcases List.mem_cons.mp mem with isLabel | mem
    · cases isLabel
      decide
    · simp [sampleWrite] at mem

end ZyOs.Fs
