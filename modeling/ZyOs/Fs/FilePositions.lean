import ZyOs.Fs.FileLimits
import ZyOs.Fs.SearchEffects

/-!
Contract: positions in open files.

Owns:
- how far reading, writing, seeking and the insertion of an entry move a position and
  the size of a file;
- `fd_pos <= i_size` in every slot of `file_table`, over the runs of `sys_open`,
  `sys_read`, `sys_write` and `sys_lseek`.

`file_write` sets the position to `i_size - 1` and adds what it writes. A write of no
bytes to an empty file leaves it at 2^32 - 1.
-/

namespace ZyOs.Fs

open ZyOs.Kernel

/-! ### Positions and sizes -/

section Sizes

variable {part part' : Volume} {inode inode' : InodeTable.Inode} {file file' : OpenFile} {buf : Buf}
  {count : UInt32} {blocks : List Nat} {done : Bool}

/-- A loop that returns stays within `all_blocks`. -/
theorem readLoop_fits {fuel sizeLeft : Nat} {bytes : List UInt8} (inFile : file.fdPos.toNat ≤ 71680)
    (isRun : readLoop fuel part file blocks sizeLeft = some (file', bytes)) :
    file.fdPos.toNat + sizeLeft ≤ 71680 := by
  induction fuel generalizing file sizeLeft bytes with
  | zero =>
      unfold readLoop at isRun
      split at isRun
      · omega
      · cases isRun
  | succ fuel inductionHypothesis =>
      unfold readLoop at isRun
      split at isRun
      · omega
      · rename_i notZero
        obtain ⟨_, isGuard, isRest⟩ := Option.bind_eq_some_iff.mp isRun
        obtain ⟨⟨file₁, bytes₁⟩, isLoop, isPair⟩ := Option.bind_eq_some_iff.mp isRest
        cases isPair
        have inBlocks : file.fdPos.toNat / blockSize < 140 := by
          by_contra outside
          simp [guard, outside] at isGuard
        have inSector : chunkSize file.fdPos.toNat sizeLeft ≤ blockSize - file.fdPos.toNat % blockSize := by
          unfold chunkSize
          split <;> omega
        have atMost := chunkSize_le file.fdPos.toNat sizeLeft
        have isChunk : (UInt32.ofNat (chunkSize file.fdPos.toNat sizeLeft)).toNat =
            chunkSize file.fdPos.toNat sizeLeft :=
          UInt32.toNat_ofNat_of_lt' (by unfold blockSize at inSector; unfold UInt32.size; omega)
        unfold blockSize at inBlocks inSector
        have moved : (file.fdPos + UInt32.ofNat (chunkSize file.fdPos.toNat sizeLeft)).toNat =
            file.fdPos.toNat + chunkSize file.fdPos.toNat sizeLeft := by
          rw [toNat_add_of_fits (by unfold Fits; dsimp only; omega), isChunk]
        have rest := @inductionHypothesis
          { file with fdPos := file.fdPos + UInt32.ofNat (chunkSize file.fdPos.toNat sizeLeft) } _ _
          (by dsimp only; omega) isLoop
        have sum : (file.fdPos + UInt32.ofNat (chunkSize file.fdPos.toNat sizeLeft)).toNat +
            (sizeLeft - chunkSize file.fdPos.toNat sizeLeft) ≤ 71680 := rest
        omega

/-- A read from within the file ends within the file. -/
theorem readData_within {bytes : List UInt8} (inFile : file.fdPos.toNat ≤ file.inode.iSize.toNat)
    (isRun : readData part file (readSize file count) = some (file', bytes)) :
    file'.inode = file.inode ∧ file'.fdPos.toNat ≤ file.inode.iSize.toNat := by
  unfold readData at isRun
  dsimp only at isRun
  obtain ⟨_, isGuard, isRest⟩ := Option.bind_eq_some_iff.mp isRun
  obtain ⟨blocks, _, isLoop⟩ := Option.bind_eq_some_iff.mp isRest
  have isStart : file.fdPos.toNat / blockSize < 139 := by
    by_contra outside
    simp [guard, outside] at isGuard
  unfold blockSize at isStart
  have fits := readLoop_fits (show file.fdPos.toNat ≤ 71680 by omega) isLoop
  obtain ⟨_, isPos, sameInode⟩ := readLoop_length (by omega) isLoop
  refine ⟨sameInode, ?_⟩
  rw [isPos]
  unfold readSize at fits ⊢
  split at fits
  · rename_i beyond
    rw [if_pos beyond, UInt32.toNat_sub_of_le _ _ (UInt32.le_iff_toNat_le.mpr inFile)]
    omega
  · rename_i within
    rw [if_neg within]
    rw [gt_iff_lt, UInt32.lt_iff_toNat_lt, toNat_add_of_fits (by unfold Fits; dsimp only; omega)] at within
    omega

theorem ofNat_chunks {a b : Nat} (le : a ≤ b) (x : UInt32) :
    x + UInt32.ofNat a + UInt32.ofNat (b - a) = x + UInt32.ofNat b := by
  rw [UInt32.add_assoc, ← UInt32.ofNat_add, Nat.add_sub_cancel' le]

/-- The loop moves the size and the position on by what it writes. -/
theorem writeLoop_moves {fuel sizeLeft : Nat} {isFirst : Bool} {src : Buf}
    (isRun : writeLoop fuel part file blocks isFirst src sizeLeft = some (part', file')) :
    file'.inode.iSize = file.inode.iSize + UInt32.ofNat sizeLeft ∧
      file'.fdPos = file.fdPos + UInt32.ofNat sizeLeft := by
  induction fuel generalizing part file isFirst src sizeLeft with
  | zero =>
      unfold writeLoop at isRun
      split at isRun
      · rename_i isZero
        cases isRun
        rw [isZero]
        exact ⟨(UInt32.add_zero _).symm, (UInt32.add_zero _).symm⟩
      · cases isRun
  | succ fuel inductionHypothesis =>
      unfold writeLoop at isRun
      split at isRun
      · rename_i isZero
        cases isRun
        rw [isZero]
        exact ⟨(UInt32.add_zero _).symm, (UInt32.add_zero _).symm⟩
      · obtain ⟨_, _, isRest⟩ := Option.bind_eq_some_iff.mp isRun
        obtain ⟨size, pos⟩ := inductionHypothesis isRest
        have atMost := chunkSize_le file.inode.iSize.toNat sizeLeft
        exact ⟨size.trans (ofNat_chunks atMost _), pos.trans (ofNat_chunks atMost _)⟩

/-- A loop that starts behind the largest file writes nothing. -/
theorem writeLoop_beyond {fuel sizeLeft : Nat} {isFirst : Bool} {src : Buf}
    (beyond : 71680 ≤ file.inode.iSize.toNat)
    (isRun : writeLoop fuel part file blocks isFirst src sizeLeft = some (part', file')) : sizeLeft = 0 := by
  cases fuel with
  | zero =>
      unfold writeLoop at isRun
      split at isRun
      · assumption
      · cases isRun
  | succ fuel =>
      unfold writeLoop at isRun
      split at isRun
      · assumption
      · obtain ⟨_, isGuard, _⟩ := Option.bind_eq_some_iff.mp isRun
        have outside : ¬ file.inode.iSize.toNat / blockSize < 140 := by
          unfold blockSize
          omega
        simp [guard, outside] at isGuard

/-- A write leaves the position within the file, unless it writes nothing to an empty
file. -/
theorem writeData_within {pos : UInt32} {written : Option UInt32}
    (notNothing : ¬ (count = 0 ∧ inode.iSize = 0))
    (isRun : writeData part ⟨pos, inode⟩ buf count = some (part', file', written)) :
    inode.iSize.toNat ≤ file'.inode.iSize.toNat ∧ file'.fdPos.toNat ≤ file'.inode.iSize.toNat := by
  unfold writeData at isRun
  obtain ⟨⟨part₁, inode₁, done₁⟩, isFirst, isRest⟩ := Option.bind_eq_some_iff.mp isRun
  rw [allocFirst_done isFirst] at isRest
  simp only [Bool.true_eq_false, if_false] at isRest
  obtain ⟨_, _, isRest⟩ := Option.bind_eq_some_iff.mp isRest
  obtain ⟨⟨part₂, inode₂, blocks, done₂⟩, isBlocks, isRest⟩ := Option.bind_eq_some_iff.mp isRest
  rw [writeBlocks_done isBlocks] at isRest
  simp only [Bool.true_eq_false, if_false] at isRest
  obtain ⟨⟨part₃, file₃⟩, isLoop, isRest⟩ := Option.bind_eq_some_iff.mp isRest
  obtain ⟨part₄, _, isRest⟩ := Option.bind_eq_some_iff.mp isRest
  cases isRest
  have isSize : inode₂.iSize = inode.iSize := (writeBlocks_room isBlocks).2.trans (allocFirst_size isFirst)
  obtain ⟨size, position⟩ := writeLoop_moves isLoop
  rw [UInt32.ofNat_toNat, isSize] at size position
  dsimp only at size position
  have isSmall := inode.iSize.toNat_lt
  -- the loop does not come to an end beyond the largest file
  have noWrap : inode.iSize.toNat + count.toNat < 2 ^ 32 := by
    by_cases inFile : inode.iSize.toNat ≤ 71680
    · have fits := writeLoop_fits (show inode₂.iSize.toNat ≤ 71680 by rwa [isSize]) isLoop
      dsimp only at fits
      rw [isSize] at fits
      omega
    · have nothing := writeLoop_beyond (show 71680 ≤ inode₂.iSize.toNat by rw [isSize]; omega) isLoop
      omega
  have isSum : (inode.iSize + count).toNat = inode.iSize.toNat + count.toNat := toNat_add_of_fits noWrap
  rw [size, position, isSum]
  refine ⟨Nat.le_add_right _ _, ?_⟩
  by_cases isEmpty : inode.iSize = 0
  · have positive : count ≠ 0 := fun isZero => notNothing ⟨isZero, isEmpty⟩
    rw [isEmpty] at *
    have isLast : (0 : UInt32) - 1 + count = count - 1 := by
      rw [UInt32.zero_sub, UInt32.add_comm, ← UInt32.sub_eq_add_neg]
    rw [isLast, toNat_sub_one positive]
    omega
  · rw [toNat_add_of_fits, toNat_sub_one isEmpty]
    · omega
    · unfold Fits
      dsimp only
      rw [toNat_sub_one isEmpty]
      omega

/-- A position that `sys_lseek` accepts is within the file. -/
theorem lseek_within {newPos : Int32} {iSize : UInt32} (notNegative : ¬ newPos < 0)
    (notBeyond : ¬ iSize.toInt32 - 1 < newPos) : newPos.toUInt32.toNat ≤ iSize.toNat := by
  rw [Int32.lt_iff_toInt_lt] at notNegative notBeyond
  rw [Int32.toInt_sub] at notBeyond
  have isZero : (0 : Int32).toInt = 0 := rfl
  have isOne : (1 : Int32).toInt = 1 := rfl
  have isSize : iSize.toInt32.toInt = (iSize.toNat : Int).bmod (2 ^ 32) := BitVec.toInt_eq_toNat_bmod _
  have isPos : newPos.toInt = (newPos.toUInt32.toNat : Int).bmod (2 ^ 32) := BitVec.toInt_eq_toNat_bmod _
  have sizeSmall := iSize.toNat_lt
  have posSmall := newPos.toUInt32.toNat_lt
  rw [isZero] at notNegative
  rw [isOne] at notBeyond
  simp only [Int.bmod_def] at notBeyond isSize isPos
  omega

theorem addBlock_size {blockIdx : Nat} {blockLba : Option Nat}
    (isRun : addBlock part inode blocks blockIdx = some (part', inode', blockLba)) :
    inode'.iSize = inode.iSize := by
  unfold addBlock at isRun
  obtain ⟨⟨part₁, first⟩, _, isRest⟩ := Option.bind_eq_some_iff.mp isRun
  cases first with
  | none =>
      cases isRest
      rfl
  | some lba =>
      dsimp only at isRest
      split at isRest
      · cases isRest
        rfl
      · split at isRest
        · obtain ⟨⟨part₂, second⟩, _, isRest⟩ := Option.bind_eq_some_iff.mp isRest
          cases second with
          | none =>
              cases isRest
              rfl
          | some lba' =>
              cases isRest
              rfl
        · cases isRest
          rfl

theorem syncLoop_size {pDe : DirEntry} {idxs : List Nat}
    (isRun : syncLoop part inode pDe blocks idxs = some (part', inode', done)) :
    inode'.iSize = inode.iSize ∨ inode'.iSize = inode.iSize + UInt32.ofNat dirEntrySize := by
  induction idxs with
  | nil =>
      cases isRun
      exact .inl rfl
  | cons blockIdx rest inductionHypothesis =>
      unfold syncLoop at isRun
      dsimp only at isRun
      split at isRun
      · obtain ⟨⟨part₁, inode₁, added⟩, isAdded, isRest⟩ := Option.bind_eq_some_iff.mp isRun
        have same := addBlock_size isAdded
        cases added with
        | none =>
            cases isRest
            exact .inl same
        | some blockLba =>
            cases isRest
            right
            dsimp only
            rw [same]
      · split at isRun
        · cases isRun
          exact .inr rfl
        · exact inductionHypothesis isRun

/-- `sync_dir_entry` leaves the size, or adds an entry to it. -/
theorem syncDirEntry_size {pDe : DirEntry} (isRun : syncDirEntry part inode pDe = some (part', inode', done)) :
    inode'.iSize = inode.iSize ∨ inode'.iSize = inode.iSize + UInt32.ofNat dirEntrySize := by
  unfold syncDirEntry at isRun
  split at isRun
  · exact syncLoop_size isRun
  · cases isRun

end Sizes

end ZyOs.Fs

namespace ZyOs.Fs.Calls

open ZyOs.Kernel ZyOs.Memory ZyOs.Lib

variable {s₀ s₁ s s' : State} {blocks refs refs' : List Ptr} {ptr : Ptr} {fdIdx : Nat}

/-! ### Slots -/

/-- `fd_pos <= fd_inode->i_size` in every open slot. -/
def PositionsOk (s : State) : Prop :=
  ∀ fdIdx < maxFileOpen, ∀ ptr, (s.fileTable fdIdx).fdInode = some ptr →
    (s.fileTable fdIdx).fdPos.toNat ≤ (s.inode ptr).node.iSize.toNat

/-- The size of a file that is open is a word with an entry of a directory added. -/
def Growable (s : State) : Prop :=
  ∀ fdIdx < maxFileOpen, ∀ ptr, (s.fileTable fdIdx).fdInode = some ptr →
    (s.inode ptr).node.iSize.toNat + dirEntrySize < 2 ^ 32

/-- The inode in an open slot is the same. -/
structure SameFiles (s s' : State) : Prop where
  fileTable : s'.fileTable = s.fileTable
  node : ∀ fdIdx < maxFileOpen, ∀ ptr, (s.fileTable fdIdx).fdInode = some ptr →
    (s'.inode ptr).node = (s.inode ptr).node

theorem SameFiles.positions (same : SameFiles s s') (ok : PositionsOk s) : PositionsOk s' := by
  intro fdIdx inTable ptr refers
  rw [same.fileTable] at refers ⊢
  rw [same.node fdIdx inTable ptr refers]
  exact ok fdIdx inTable ptr refers

theorem SameFiles.growable (same : SameFiles s s') (growable : Growable s) : Growable s' := by
  intro fdIdx inTable ptr refers
  rw [same.fileTable] at refers
  rw [same.node fdIdx inTable ptr refers]
  exact growable fdIdx inTable ptr refers

/-- A function that changes neither a slot nor what an inode says of its file. -/
def KeepsNodes {α : Type} (call : Call α) : Prop :=
  ∀ s a s', call s = some (a, s') → s'.fileTable = s.fileTable ∧ ∀ ptr, (s'.inode ptr).node = (s.inode ptr).node

theorem KeepsNodes.bind {α β : Type} {call : Call α} {next : α → Call β} (first : KeepsNodes call)
    (rest : ∀ a, KeepsNodes (next a)) : KeepsNodes (call >>= next) := by
  intro s b s' isRun
  obtain ⟨a, s₁, isFirst, isNext⟩ := bind_eq_some isRun
  obtain ⟨firstTable, firstNode⟩ := first s a s₁ isFirst
  obtain ⟨restTable, restNode⟩ := rest a s₁ b s' isNext
  exact ⟨restTable.trans firstTable, fun ptr => (restNode ptr).trans (firstNode ptr)⟩

theorem KeepsNodes.same {α : Type} {call : Call α} (keeps : KeepsNodes call) {a : α}
    (isRun : call s = some (a, s')) : SameFiles s s' :=
  ⟨(keeps s a s' isRun).1, fun _ _ ptr _ => (keeps s a s' isRun).2 ptr⟩

theorem keepsNodes_pure {α : Type} (a : α) : KeepsNodes (pure a) := by
  intro s b s' isRun
  cases isRun
  exact ⟨rfl, fun _ => rfl⟩

theorem keepsNodes_get : KeepsNodes (get : Call State) := by
  intro s a s' isRun
  cases isRun
  exact ⟨rfl, fun _ => rfl⟩

theorem keepsNodes_malloc : KeepsNodes malloc := by
  intro s a s' isRun
  obtain ⟨heap, isAfter, _⟩ := malloc_eq_some isRun
  rw [isAfter]
  exact ⟨rfl, fun _ => rfl⟩

theorem keepsNodes_free (ptr : Ptr) : KeepsNodes (free ptr) := by
  intro s a s' isRun
  rw [free_eq_some isRun]
  exact ⟨rfl, fun _ => rfl⟩

theorem keepsNodes_onPart {α : Type} (step : Volume → Option (Volume × α)) : KeepsNodes (onPart step) := by
  intro s a s' isRun
  obtain ⟨part, _, isAfter⟩ := onPart_eq_some isRun
  rw [isAfter]
  exact ⟨rfl, fun _ => rfl⟩

theorem keepsNodes_getFreeSlotInGlobal : KeepsNodes getFreeSlotInGlobal :=
  keepsNodes_get.bind fun _ => keepsNodes_pure _

theorem keepsNodes_setWriteDeny (ptr : Ptr) (value : Bool) : KeepsNodes (setWriteDeny ptr value) := by
  intro s a s' isRun
  obtain ⟨read, s₁, isRead, isSet⟩ := bind_eq_some isRun
  cases isRead
  cases isSet
  refine ⟨rfl, fun other => ?_⟩
  dsimp only
  by_cases same : other = ptr
  · rw [same, Function.update_self]
  · rw [Function.update_of_ne same]

theorem keepsNodes_pcbFdInstall (globalFdIdx : Nat) : KeepsNodes (pcbFdInstall globalFdIdx) := by
  apply keepsNodes_get.bind
  intro read
  cases (List.range' 3 (maxFilesOpenPerProc - 3)).find? fun fd => read.fdTable read.cur fd = none with
  | none => exact keepsNodes_pure none
  | some fd =>
      apply KeepsNodes.bind
      · intro s a s' isRun
        cases isRun
        exact ⟨rfl, fun _ => rfl⟩
      · exact fun _ => keepsNodes_pure _

theorem keepsNodes_inodeClose (ptr : Ptr) : KeepsNodes (inodeClose ptr) := by
  intro s a s' isRun
  obtain ⟨heap, isAfter⟩ := inodeClose_eq_some isRun
  rw [isAfter]
  exact ⟨rfl, fun other => (countedDown_kept s ptr other).1⟩

theorem keepsNodes_dirClose (dir : Dir) : KeepsNodes (dirClose dir) := by
  obtain ⟨block, inode⟩ := dir
  cases block with
  | none => exact keepsNodes_pure ()
  | some block => exact (keepsNodes_inodeClose inode).bind fun _ => keepsNodes_free block

/-! ### References -/

theorem fileRefs_pos (inTable : fdIdx < maxFileOpen) (refers : (s.fileTable fdIdx).fdInode = some ptr) :
    0 < fileRefs s ptr := by
  apply List.countP_pos_iff.mpr
  exact ⟨fdIdx, List.mem_range.mpr inTable, by simpa using refers⟩

/-- The inode in an open slot is open. -/
theorem Ledger.opened (ledger : Ledger s₀ blocks refs s) (inTable : fdIdx < maxFileOpen)
    (refers : (s.fileTable fdIdx).fdInode = some ptr) : 0 < openings s ptr := by
  have counted := ledger.counted ptr
  have positive := fileRefs_pos inTable refers
  unfold references at counted
  omega

/-- No slot refers to a block that the call holds. -/
theorem Ledger.notReferred (ledger : Ledger s₀ (ptr :: blocks) refs s) :
    ∀ fdIdx < maxFileOpen, (s.fileTable fdIdx).fdInode ≠ some ptr := by
  intro fdIdx inTable refers
  have noReferences := (ledger.references_eq_zero ledger.notMem_openInodes).2
  have positive := fileRefs_pos inTable refers
  unfold references at noReferences
  omega

/-- A search leaves the files as they were. -/
theorem Searched.sameFiles (searched : Searched s₁ refs s) (ledger : Ledger s₀ blocks refs' s₁) :
    SameFiles s₁ s :=
  ⟨searched.fileTable, fun _ inTable ptr refers => searched.node ptr (ledger.opened inTable refers)⟩

/-! ### Opening -/

/-- A slot is set to the beginning of a file. -/
theorem PositionsOk.setFile (ok : PositionsOk s) (fdIdx flag : Nat) (fdInode : Option Ptr) :
    PositionsOk { s with fileTable := Function.update s.fileTable fdIdx ⟨0, flag, fdInode⟩ } := by
  intro idx inTable ptr refers
  dsimp only at refers ⊢
  by_cases isSlot : idx = fdIdx
  · rw [isSlot, Function.update_self]
    exact Nat.zero_le _
  · rw [Function.update_of_ne isSlot] at refers ⊢
    exact ok idx inTable ptr refers

theorem fileOpen_positions {inodeNo flag : Nat} {fd : Option Nat} (ledger : Ledger s₀ blocks refs s)
    (ok : PositionsOk s) (isRun : fileOpen inodeNo flag s = some (fd, s')) : PositionsOk s' := by
  unfold fileOpen at isRun
  obtain ⟨found, s₁, isSlot, isRest⟩ := bind_eq_some isRun
  have isSame : s₁ = s := by
    cases isSlot
    rfl
  rw [isSame] at isRest
  cases found with
  | none =>
      cases isRest
      exact ok
  | some fdIdx =>
      obtain ⟨ptr, s₂, isOpen, isRest⟩ := bind_eq_some isRest
      have opened := (Searched.refl s).opened ledger.openLive (inodeOpen_opened isOpen)
      have ok₂ := (opened.sameFiles ledger).positions ok
      obtain ⟨_, s₃, isSet, isRest⟩ := bind_eq_some isRest
      have ok₃ : PositionsOk s₃ := by
        cases isSet
        exact ok₂.setFile fdIdx flag (some ptr)
      split at isRest
      · obtain ⟨read, s₄, isRead, isRest⟩ := bind_eq_some isRest
        cases isRead
        split at isRest
        · cases isRest
          exact ok₃
        · have keeps := (keepsNodes_setWriteDeny ptr true).bind fun _ => keepsNodes_pcbFdInstall fdIdx
          exact (keeps.same isRest).positions ok₃
      · exact ((keepsNodes_pcbFdInstall fdIdx).same isRest).positions ok₃

/-- While a file is created: its slot is at the beginning, and no other one refers to
the inode that is not on the list yet. Sizes may still grow by `room`. -/
def Creating (ptr : Ptr) (room : Nat) (s : State) : Prop :=
  ∀ fdIdx < maxFileOpen, ∀ other, (s.fileTable fdIdx).fdInode = some other →
    (s.fileTable fdIdx).fdPos = 0 ∨ (other ≠ ptr ∧
      (s.fileTable fdIdx).fdPos.toNat ≤ (s.inode other).node.iSize.toNat ∧
      (s.inode other).node.iSize.toNat + room < 2 ^ 32)

/-- The slot of the new file is set. -/
theorem creating_setFile {blocks : List Ptr} (ledger : Ledger s₀ (ptr :: blocks) refs s) (ok : PositionsOk s)
    (growable : Growable s) (fdIdx flag : Nat) :
    Creating ptr dirEntrySize
      { s with fileTable := Function.update s.fileTable fdIdx ⟨0, flag, some ptr⟩ } := by
  intro idx inTable other refers
  dsimp only at refers ⊢
  by_cases isSlot : idx = fdIdx
  · rw [isSlot, Function.update_self]
    exact .inl rfl
  · rw [Function.update_of_ne isSlot] at refers ⊢
    refine .inr ⟨fun same => ?_, ok idx inTable other refers, growable idx inTable other refers⟩
    rw [same] at refers
    exact ledger.notReferred idx inTable refers

theorem Creating.onPart {room : Nat} {α : Type} {step : Volume → Option (Volume × α)} {a : α}
    (creating : Creating ptr room s) (isRun : onPart step s = some (a, s')) : Creating ptr room s' := by
  obtain ⟨part, _, isAfter⟩ := onPart_eq_some isRun
  rw [isAfter]
  exact creating

/-- The directory of the entry grows. -/
theorem Creating.synced {parentDir : Dir} {pDe : DirEntry} {done : Bool}
    (creating : Creating ptr dirEntrySize s) (isRun : syncDirEntry parentDir pDe s = some (done, s')) :
    Creating ptr 0 s' := by
  obtain ⟨read, s₁, isRead, isRest⟩ := bind_eq_some isRun
  cases isRead
  obtain ⟨⟨node, synced⟩, s₁, isSync, isRest⟩ := bind_eq_some isRest
  obtain ⟨part, isStep, isAfter⟩ := onPart_eq_some isSync
  obtain ⟨⟨part₁, node₁, done₁⟩, isEntry, isPair⟩ := Option.map_eq_some_iff.mp isStep
  have sizes := syncDirEntry_size isEntry
  cases isPair
  rw [isAfter] at isRest
  cases isRest
  intro idx inTable other refers
  refine (creating idx inTable other refers).imp_right fun ⟨ne, within, fits⟩ => ⟨ne, ?_⟩
  dsimp only
  by_cases same : other = parentDir.inode
  · rw [same] at within fits
    rw [same, Function.update_self]
    dsimp only
    rcases sizes with isSame | grown
    · rw [isSame]
      exact ⟨within, by omega⟩
    · have isEntrySize : (UInt32.ofNat dirEntrySize).toNat = dirEntrySize := rfl
      have isSum : node₁.iSize.toNat = (s.inode parentDir.inode).node.iSize.toNat + dirEntrySize := by
        rw [grown, toNat_add_of_fits (by unfold Fits; dsimp only; rw [isEntrySize]; exact fits), isEntrySize]
      rw [isSum]
      exact ⟨within.trans (Nat.le_add_right _ _), fits⟩
  · rw [Function.update_of_ne same]
    exact ⟨within, by omega⟩

theorem createEntry_positions {parentDir : Dir} {filename : List UInt8} {inodeNo : Nat} {done : Bool}
    (creating : Creating ptr dirEntrySize s)
    (isRun : createEntry parentDir filename inodeNo fdIdx ptr s = some (done, s')) : PositionsOk s' := by
  unfold createEntry at isRun
  obtain ⟨newDirEntry, s₁, isEntry, isRest⟩ := bind_eq_some isRun
  obtain ⟨synced, s₂, isSync, isRest⟩ := bind_eq_some isRest
  have creating₂ := (creating.onPart isEntry).synced isSync
  cases synced with
  | true =>
      obtain ⟨read, s₃, isRead, isRest⟩ := bind_eq_some isRest
      cases isRead
      obtain ⟨_, s₄, isPart, isRest⟩ := bind_eq_some isRest
      have creating₄ := creating₂.onPart isPart
      cases isRest
      intro idx inTable other refers
      dsimp only at refers ⊢
      rcases creating₄ idx inTable other refers with atStart | ⟨ne, within, _⟩
      · rw [atStart]
        exact Nat.zero_le _
      · rw [Function.update_of_ne ne]
        exact within
  | false =>
      cases isRest
      have ok : PositionsOk s₂ := by
        intro idx inTable other refers
        rcases creating₂ idx inTable other refers with atStart | ⟨_, within, _⟩
        · rw [atStart]
          exact Nat.zero_le _
        · exact within
      exact ok.setFile fdIdx 0 none

/-- What a function says about the ledger, with the positions and sizes that it leaves
alone. -/
theorem KeepsNodes.ensures {α : Type} {call : Call α} (keeps : KeepsNodes call) {pre : State → Prop}
    {post : α → State → Prop} (ensures : Ensures pre call post) :
    Ensures (fun s => pre s ∧ PositionsOk s ∧ Growable s) call fun a s =>
      post a s ∧ PositionsOk s ∧ Growable s :=
  ⟨fun ⟨holds, ok, growable⟩ isRun => ⟨ensures.returns holds isRun, (keeps.same isRun).positions ok,
    (keeps.same isRun).growable growable⟩⟩

theorem KeepsNodes.positions {α : Type} {call : Call α} (keeps : KeepsNodes call) :
    Ensures PositionsOk call fun _ => PositionsOk :=
  ⟨fun ok isRun => (keeps.same isRun).positions ok⟩

theorem fileCreate_positions (parentDir : Dir) (filename : List UInt8) (flag : Nat) :
    Ensures (fun s => Ledger s₀ blocks refs s ∧ PositionsOk s ∧ Growable s)
      (fileCreate parentDir filename flag) fun _ => PositionsOk := by
  unfold fileCreate
  apply Ensures.bind (keepsNodes_malloc.ensures malloc_ensures)
  intro answer
  cases answer with
  | none => exact Ensures.pure fun s holds => holds.2.1
  | some ioBuf =>
      apply Ensures.bind ((keepsNodes_onPart _).ensures (quiet_onPart _).ensures)
      intro allocated
      cases allocated with
      | none => exact Ensures.pure fun s holds => holds.2.1
      | some inodeNo =>
          apply Ensures.bind (keepsNodes_malloc.ensures malloc_ensures)
          intro answer
          have unset := keepsNodes_onPart fun part => some (part.setInodeBit inodeNo false, ())
          have back : KeepsNodes (free ioBuf >>= fun _ => pure (none : Option Nat)) :=
            (keepsNodes_free ioBuf).bind fun _ => keepsNodes_pure none
          cases answer with
          | none =>
              exact (unset.bind fun _ => back).positions.strengthen fun s holds => holds.2.1
          | some newFileInode =>
              apply Ensures.bind (keepsNodes_getFreeSlotInGlobal.ensures
                ((quiet_get.bind fun _ => quiet_pure _).ensures))
              intro found
              cases found with
              | none =>
                  have keeps := (keepsNodes_free newFileInode).bind fun _ => unset.bind fun _ => back
                  exact keeps.positions.strengthen fun s holds => holds.2.1
              | some fdIdx =>
                  have set : Ensures (fun s => Ledger s₀ (newFileInode :: ioBuf :: blocks) refs s ∧
                      PositionsOk s ∧ Growable s) (setFile fdIdx ⟨0, flag, some newFileInode⟩) fun _ =>
                        Creating newFileInode dirEntrySize := by
                    constructor
                    rintro s _ s' ⟨ledger, ok, growable⟩ isRun
                    cases isRun
                    exact creating_setFile ledger ok growable fdIdx flag
                  apply Ensures.bind set
                  intro _
                  have created : Ensures (Creating newFileInode dirEntrySize)
                      (createEntry parentDir filename inodeNo fdIdx newFileInode) fun _ => PositionsOk :=
                    ⟨fun creating isRun => createEntry_positions creating isRun⟩
                  apply Ensures.bind created
                  intro done
                  cases done with
                  | true => exact ((keepsNodes_free ioBuf).bind fun _ => keepsNodes_pcbFdInstall fdIdx).positions
                  | false =>
                      have keeps := (keepsNodes_free newFileInode).bind fun _ => unset.bind fun _ => back
                      exact keeps.positions


/-! ### The calls -/

theorem sysOpen_positions {junk : Junk} {pathname : List UInt8} {flags : Nat} {fd : Option Nat}
    (ledger : Ledger s₀ [] [] s) (ok : PositionsOk s) (growable : hasCreat flags = true → Growable s)
    (isRun : sysOpen junk pathname flags s = some (fd, s')) : PositionsOk s' := by
  unfold sysOpen at isRun
  obtain ⟨lastChar, s₁, isLast, isRest⟩ := bind_eq_some isRun
  rw [(deref_eq_some isLast).2] at isRest
  split at isRest
  · cases isRest
    exact ok
  · obtain ⟨_, s₁, isChecked, isRest⟩ := bind_eq_some isRest
    rw [(check_eq_some isChecked).2] at isRest
    obtain ⟨pathnameDepth, s₂, isDepth, isRest⟩ := bind_eq_some isRest
    rw [pathDepthCnt_state isDepth] at isRest
    obtain ⟨record, s₃, isSearch, isRest⟩ := bind_eq_some isRest
    obtain ⟨held, searched⟩ :=
      ((searching_accounts s₀ s).searchFile junk pathname).returns ⟨ledger, Searched.refl s⟩ isSearch
    have same := searched.sameFiles ledger
    have ok₃ := same.positions ok
    have back : ∀ {a : Option Nat} {result : Option Nat},
        (dirClose record.parentDir >>= fun _ => pure a) s₃ = some (result, s') → PositionsOk s' :=
      fun isClose =>
        (((keepsNodes_dirClose record.parentDir).bind fun _ => keepsNodes_pure _).same isClose).positions ok₃
    split at isRest
    · exact back isRest
    · obtain ⟨searchedDepth, s₄, isSearched, isRest⟩ := bind_eq_some isRest
      rw [pathDepthCnt_state isSearched] at isRest
      split at isRest
      · exact back isRest
      · cases isFound : record.inodeNo with
        | none =>
            simp only [isFound] at isRest
            split at isRest
            · rename_i isCreat
              obtain ⟨created, s₅, isCreated, isRest⟩ := bind_eq_some isRest
              have ok₅ := (fileCreate_positions _ _ _).returns
                ⟨held, ok₃, same.growable (growable isCreat)⟩ isCreated
              have keeps := (keepsNodes_dirClose record.parentDir).bind fun _ => keepsNodes_pure created
              exact (keeps.same isRest).positions ok₅
            · exact back isRest
        | some inodeNo =>
            simp only [isFound] at isRest
            split at isRest
            · exact back isRest
            · exact fileOpen_positions held ok₃ isRest

/-- The slot is moved, and the inode takes the new size. -/
theorem PositionsOk.setOpenFile {file : OpenFile} {a : Unit} (ok : PositionsOk s)
    (within : file.fdPos.toNat ≤ file.inode.iSize.toNat)
    (grows : (s.inode ptr).node.iSize.toNat ≤ file.inode.iSize.toNat)
    (refers : (s.fileTable fdIdx).fdInode = some ptr)
    (isRun : setOpenFile fdIdx ptr file s = some (a, s')) : PositionsOk s' := by
  cases isRun
  intro idx inTable other isOther
  dsimp only at isOther ⊢
  by_cases isSlot : idx = fdIdx
  · rw [isSlot, Function.update_self] at isOther ⊢
    have isPtr := Option.some.inj (isOther.symm.trans refers)
    rw [isPtr, Function.update_self]
    exact within
  · rw [Function.update_of_ne isSlot] at isOther ⊢
    have old := ok idx inTable other isOther
    by_cases isPtr : other = ptr
    · rw [isPtr] at old
      rw [isPtr, Function.update_self]
      exact old.trans grows
    · rw [Function.update_of_ne isPtr]
      exact old

theorem fileWrite_positions {buf : Buf} {count : UInt32} {written : Option UInt32} (ok : PositionsOk s)
    (notNothing : ∀ ptr, (s.fileTable fdIdx).fdInode = some ptr →
      ¬ (count = 0 ∧ (s.inode ptr).node.iSize = 0))
    (isRun : fileWrite fdIdx buf count s = some (written, s')) : PositionsOk s' := by
  unfold fileWrite at isRun
  obtain ⟨read, s₁, isRead, isRest⟩ := bind_eq_some isRun
  cases isRead
  obtain ⟨ptr, s₁, isPtr, isRest⟩ := bind_eq_some isRest
  obtain ⟨refers, isSame⟩ := deref_eq_some isPtr
  rw [isSame] at isRest
  dsimp only at isRest
  split at isRest
  · cases isRest
    exact ok
  · obtain ⟨first, s₁, isFirst, isRest⟩ := bind_eq_some isRest
    have same₁ := keepsNodes_malloc s _ s₁ isFirst
    cases first with
    | none =>
        cases isRest
        exact (keepsNodes_malloc.same isFirst).positions ok
    | some ioBuf =>
        obtain ⟨second, s₂, isSecond, isRest⟩ := bind_eq_some isRest
        have ok₂ := (keepsNodes_malloc.same isSecond).positions ((keepsNodes_malloc.same isFirst).positions ok)
        have same₂ := keepsNodes_malloc s₁ _ s₂ isSecond
        cases second with
        | none =>
            cases isRest
            exact ok₂
        | some allBlocks =>
            obtain ⟨⟨file, done⟩, s₃, isWrite, isRest⟩ := bind_eq_some isRest
            obtain ⟨part, isStep, isAfter⟩ := onPart_eq_some isWrite
            obtain ⟨⟨part₁, file₁, done₁⟩, isData, isPair⟩ := Option.map_eq_some_iff.mp isStep
            cases isPair
            obtain ⟨grows, within⟩ := writeData_within (notNothing ptr refers) isData
            obtain ⟨_, s₄, isSet, isRest⟩ := bind_eq_some isRest
            have ok₃ := ((keepsNodes_onPart _).same isWrite).positions ok₂
            have sameNode : (s₃.inode ptr).node = (s.inode ptr).node := by
              rw [isAfter]
              exact (same₂.2 ptr).trans (same₁.2 ptr)
            have sameSlot : (s₃.fileTable fdIdx).fdInode = some ptr := by
              rw [isAfter, ← refers]
              show (s₂.fileTable fdIdx).fdInode = _
              rw [same₂.1, same₁.1]
            have ok₄ := ok₃.setOpenFile within (by rw [sameNode]; exact grows) sameSlot isSet
            cases done₁ with
            | none =>
                cases isRest
                exact ok₄
            | some bytesWritten =>
                have keeps := (keepsNodes_free allBlocks).bind fun _ => (keepsNodes_free ioBuf).bind fun _ =>
                  keepsNodes_pure (some bytesWritten)
                exact (keeps.same isRest).positions ok₄

theorem fileRead_positions {count : UInt32} {bytes : Option (List UInt8)} (ok : PositionsOk s)
    (inTable : fdIdx < maxFileOpen) (isRun : fileRead fdIdx count s = some (bytes, s')) : PositionsOk s' := by
  unfold fileRead at isRun
  obtain ⟨read, s₁, isRead, isRest⟩ := bind_eq_some isRun
  cases isRead
  obtain ⟨ptr, s₁, isPtr, isRest⟩ := bind_eq_some isRest
  obtain ⟨refers, isSame⟩ := deref_eq_some isPtr
  rw [isSame] at isRest
  dsimp only at isRest
  split at isRest
  · cases isRest
    exact ok
  · obtain ⟨first, s₁, isFirst, isRest⟩ := bind_eq_some isRest
    obtain ⟨second, s₂, isSecond, isRest⟩ := bind_eq_some isRest
    have same₁ := keepsNodes_malloc s _ s₁ isFirst
    have same₂ := keepsNodes_malloc s₁ _ s₂ isSecond
    have ok₂ := (keepsNodes_malloc.same isSecond).positions ((keepsNodes_malloc.same isFirst).positions ok)
    cases second with
    | none =>
        cases isRest
        exact ok₂
    | some allBlocks =>
        obtain ⟨ioBuf, s₃, isBuf, isRest⟩ := bind_eq_some isRest
        rw [(deref_eq_some isBuf).2] at isRest
        obtain ⟨⟨file, data⟩, s₄, isLoad, isRest⟩ := bind_eq_some isRest
        obtain ⟨part, isStep, isAfter⟩ := onPart_eq_some isLoad
        obtain ⟨⟨file₁, data₁⟩, isData, isPair⟩ := Option.map_eq_some_iff.mp isStep
        cases isPair
        obtain ⟨sameInode, within⟩ := readData_within (ok fdIdx inTable ptr refers) isData
        obtain ⟨_, s₅, isSet, isRest⟩ := bind_eq_some isRest
        have ok₄ := ((keepsNodes_onPart _).same isLoad).positions ok₂
        have sameNode : (s₄.inode ptr).node = (s.inode ptr).node := by
          rw [isAfter]
          exact (same₂.2 ptr).trans (same₁.2 ptr)
        have sameSlot : (s₄.fileTable fdIdx).fdInode = some ptr := by
          rw [isAfter, ← refers]
          show (s₂.fileTable fdIdx).fdInode = _
          rw [same₂.1, same₁.1]
        have ok₅ := ok₄.setOpenFile (by rw [sameInode]; exact within)
          (by rw [sameNode, sameInode]) sameSlot isSet
        have keeps := (keepsNodes_free allBlocks).bind fun _ => (keepsNodes_free ioBuf).bind fun _ =>
          keepsNodes_pure (some data₁)
        exact (keeps.same isRest).positions ok₅


theorem sysRead_positions {fd : Int} {count : UInt32} {bytes : Option (List UInt8)}
    (ledger : Ledger s₀ [] [] s) (ok : PositionsOk s) (isRun : sysRead fd count s = some (bytes, s')) :
    PositionsOk s' := by
  unfold sysRead at isRun
  split at isRun
  · cases isRun
    exact ok
  · split at isRun
    · obtain ⟨keys, s₁, isKeys, isRest⟩ := bind_eq_some isRun
      unfold readKeys at isKeys
      split at isKeys
      · cases isKeys
        cases isRest
        exact ok
      · cases isKeys
    · obtain ⟨globalFd, s₁, isSlot, isRest⟩ := bind_eq_some isRun
      have inTable := ((fdLocal2global_ensures fd.toNat).returns ledger isSlot).2
      rw [(fdLocal2global_eq_some isSlot).2] at isRest
      exact fileRead_positions ok inTable isRest

/-- A write of no bytes to an empty file that is open for writing. -/
def WritesNothing (fd : Int) (count : UInt32) (s : State) : Prop :=
  (0 ≤ fd ∧ fd ≠ 1) ∧ count = 0 ∧ ∃ globalFd ptr, IsOpen fd globalFd ptr s ∧
    opensForWriting (s.fileTable globalFd).fdFlag ∧ (s.inode ptr).node.iSize = 0

theorem sysWrite_positions {fd : Int} {buf : Buf} {count : UInt32} {written : Option UInt32}
    (ok : PositionsOk s) (notNothing : ¬ WritesNothing fd count s)
    (isRun : sysWrite fd buf count s = some (written, s')) : PositionsOk s' := by
  unfold sysWrite at isRun
  split at isRun
  · cases isRun
    exact ok
  · rename_i notNegative
    split at isRun
    · obtain ⟨_, s₁, isChecked, isRest⟩ := bind_eq_some isRun
      rw [(check_eq_some isChecked).2] at isRest
      cases isRest
      exact ok
    · rename_i notScreen
      obtain ⟨globalFd, s₁, isSlot, isRest⟩ := bind_eq_some isRun
      obtain ⟨slot, isSame⟩ := fdLocal2global_eq_some isSlot
      rw [isSame] at isRest
      obtain ⟨read, s₂, isRead, isRest⟩ := bind_eq_some isRest
      cases isRead
      split at isRest
      · rename_i isWriting
        refine fileWrite_positions ok (fun ptr refers isNothing => ?_) isRest
        exact notNothing ⟨⟨by omega, notScreen⟩, isNothing.1, globalFd, ptr, ⟨slot, refers⟩, isWriting,
          isNothing.2⟩
      · cases isRest
        exact ok

theorem sysLseek_positions {fd : Int} {offset : Int32} {whence : Nat} {pos : Option UInt32}
    (ok : PositionsOk s) (isRun : sysLseek fd offset whence s = some (pos, s')) : PositionsOk s' := by
  unfold sysLseek at isRun
  split at isRun
  · cases isRun
    exact ok
  · obtain ⟨_, s₁, isChecked, isRest⟩ := bind_eq_some isRun
    rw [(check_eq_some isChecked).2] at isRest
    obtain ⟨globalFd, s₂, isSlot, isRest⟩ := bind_eq_some isRest
    rw [(fdLocal2global_eq_some isSlot).2] at isRest
    obtain ⟨read, s₃, isRead, isRest⟩ := bind_eq_some isRest
    cases isRead
    obtain ⟨ptr, s₄, isPtr, isRest⟩ := bind_eq_some isRest
    obtain ⟨refers, isSame⟩ := deref_eq_some isPtr
    rw [isSame] at isRest
    dsimp only at isRest
    split at isRest
    · cases isRest
      exact ok
    · rename_i accepted
      obtain ⟨notNegative, notBeyond⟩ := not_or.mp accepted
      have within := lseek_within notNegative notBeyond
      cases isRest
      intro idx inTable other isOther
      dsimp only at isOther ⊢
      by_cases isSlot : idx = globalFd
      · rw [isSlot, Function.update_self] at isOther ⊢
        dsimp only at isOther ⊢
        rw [Option.some.inj (isOther.symm.trans refers)]
        exact within
      · rw [Function.update_of_ne isSlot] at isOther ⊢
        exact ok idx inTable other isOther

/-! ### The runs -/

/-- The steps with which tasks open, read, write and seek. -/
def Action.usesFiles : Action → Bool
  | .call (.sysOpen _ _ _) => true
  | .call (.sysRead _ _) => true
  | .call (.sysWrite _ _ _) => true
  | .sysLseek _ _ _ => true
  | .schedule _ => true
  | .keyboard _ => true
  | _ => false

/-- What is asked of a step: a write writes something, or its file is not empty; and
when a file is created, no open file is so large that an entry added to it wraps its
size, since on a damaged disk it may be the directory. -/
def StaysWithin (s : State) : Action → Prop
  | .call (.sysOpen _ _ flags) => hasCreat flags = true → Growable s
  | .call (.sysWrite fd _ count) => ¬ WritesNothing fd count s
  | _ => True

/-- The states of the runs whose steps open, read, write and seek, and meet this
condition. -/
inductive UsesFiles (meets : State → Action → Prop) : State → Prop where
  | boot {s : State} (booted : Booted s) : UsesFiles meets s
  | step {s s' : State} (run : UsesFiles meets s) (action : Action) (uses : action.usesFiles = true)
      (met : meets s action) (isRun : action.run s = some s') : UsesFiles meets s'

theorem UsesFiles.reachable {meets : State → Action → Prop} (run : UsesFiles meets s) : Reachable s := by
  induction run with
  | boot booted => exact .boot booted
  | step _ action _ _ isRun inductionHypothesis => exact inductionHypothesis.step action isRun

/-- A step keeps every position within its file. -/
theorem Action.run_positions {action : Action} (ledger : Ledger s [] [] s) (ok : PositionsOk s)
    (uses : action.usesFiles = true) (stays : StaysWithin s action) (isRun : action.run s = some s') :
    PositionsOk s' := by
  cases action with
  | call fsCall =>
      cases fsCall with
      | sysOpen junk pathname flags =>
          obtain ⟨_, isRun⟩ := after_eq_some isRun
          exact sysOpen_positions ledger ok stays isRun
      | sysRead fd count =>
          obtain ⟨_, isRun⟩ := after_eq_some isRun
          exact sysRead_positions ledger ok isRun
      | sysWrite fd buf count =>
          obtain ⟨_, isRun⟩ := after_eq_some isRun
          exact sysWrite_positions ok stays isRun
      | _ => cases uses
  | sysLseek fd offset whence =>
      obtain ⟨_, isRun⟩ := after_eq_some isRun
      exact sysLseek_positions ok isRun
  | schedule pid =>
      cases isRun
      exact ok
  | keyboard keys =>
      cases isRun
      exact ok
  | _ => cases uses

/-- In every run of these calls that writes no empty buffer to an empty file, a position
stays within its file. -/
theorem positions_within (run : UsesFiles StaysWithin s) : PositionsOk s := by
  induction run with
  | boot booted =>
      intro fdIdx _ ptr refers
      rw [booted.noFiles] at refers
      cases refers
  | step run action uses stays isRun ok =>
      exact action.run_positions run.reachable.ledger ok uses stays isRun

/-- A task creates `/a`. -/
def createsFile : FsCall := .sysOpen ⟨⟨[], 0, .unknown⟩, 0⟩ [slash, 97] 6

/-- A task writes nothing to the file that it has open. -/
def writesNothing : FsCall := .sysWrite 3 (fun _ => 0) 0

/-- It writes five bytes. -/
def writesFive : FsCall := .sysWrite 3 (fun _ => 65) 5

theorem writesFive_slot :
    (((createsFile.run bootState).bind writesFive.run).map fun s =>
      ((s.fileTable 3).fdPos, (s.fileTable 3).fdInode.map fun ptr => (s.inode ptr).node.iSize)) =
      some (4, some 5) := by
  decide +kernel

/-- The file is created and written to. -/
theorem written_file_within :
    ∃ s, UsesFiles StaysWithin s ∧ (s.fileTable 3).fdPos = 4 ∧ PositionsOk s := by
  obtain ⟨s, isRun, isSlot⟩ := Option.map_eq_some_iff.mp writesFive_slot
  obtain ⟨created, isCreated, isWritten⟩ := Option.bind_eq_some_iff.mp isRun
  have growable : StaysWithin bootState (.call createsFile) := by
    intro _ fdIdx _ ptr refers
    cases refers
  have writes : StaysWithin created (.call writesFive) := fun isNothing => absurd isNothing.2.1 (by decide)
  have run : UsesFiles StaysWithin s :=
    (UsesFiles.step (.boot bootState_booted) (.call createsFile) rfl growable isCreated).step
      (.call writesFive) rfl writes isWritten
  exact ⟨s, run, (Prod.mk.inj isSlot).1, positions_within run⟩

theorem writesNothing_slot :
    (((createsFile.run bootState).bind writesNothing.run).map fun s =>
      ((s.fileTable 3).fdPos, (s.fileTable 3).fdInode.map fun ptr => (s.inode ptr).node.iSize)) =
      some (4294967295, some 0) := by
  decide +kernel

/-- The position is 2^32 - 1, and the file is empty. -/
theorem empty_write_beyond : ∃ s, UsesFiles (fun _ _ => True) s ∧ ¬ PositionsOk s := by
  obtain ⟨s, isRun, isSlot⟩ := Option.map_eq_some_iff.mp writesNothing_slot
  obtain ⟨created, isCreated, isWritten⟩ := Option.bind_eq_some_iff.mp isRun
  obtain ⟨isPos, isFile⟩ := Prod.mk.inj isSlot
  obtain ⟨ptr, refers, isSize⟩ := Option.map_eq_some_iff.mp isFile
  have first : UsesFiles (fun _ _ => True) created :=
    .step (.boot bootState_booted) (.call createsFile) rfl trivial isCreated
  refine ⟨s, first.step (.call writesNothing) rfl trivial isWritten, fun ok => ?_⟩
  have within := ok 3 (by decide) ptr refers
  rw [isPos, isSize] at within
  revert within
  decide

end ZyOs.Fs.Calls
