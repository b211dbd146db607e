import ZyOs.Fs.OpenFailures
import ZyOs.Fs.OpenTables
import Mathlib.Data.List.Find

/-!
Contract: the calls work on open files as the functions on the tables do.

Owns:
- `Shows`: what the tables hold of a state;
- one theorem for each function that both models have: where the call returns, the
  function returns the same, and the tables show the state behind the call.

Does not own: the blocks that calls take as buffers. In a state they are in use, in
the tables they are free.
-/

namespace ZyOs.Fs

open ZyOs.Kernel

/-! ### What the calls leave of the inode bitmap -/

section Volumes

variable {part part' : Volume} {inode inode' : InodeTable.Inode} {blocks : List Nat} {done : Bool}

/-- The inode bitmap and the number of the inode stay. -/
def SameNumbers (part : Volume) (inode : InodeTable.Inode) (part' : Volume) (inode' : InodeTable.Inode) : Prop :=
  part'.inodeBitmap = part.inodeBitmap ∧ inode'.iNo = inode.iNo

theorem addBlock_sameNumbers {blockIdx : Nat} {added : Option Nat}
    (isRun : addBlock part inode blocks blockIdx = some (part', inode', added)) :
    SameNumbers part inode part' inode' := by
  unfold addBlock at isRun
  obtain ⟨⟨part₁, first⟩, isFirst, isRest⟩ := Option.bind_eq_some_iff.mp isRun
  obtain ⟨_, _, rfl, rfl⟩ := Volume.blockBitmapAlloc_eq_some isFirst
  dsimp only at isRest
  split at isRest
  · cases isRest
    exact ⟨rfl, rfl⟩
  · split at isRest
    · obtain ⟨⟨part₂, second⟩, isSecond, isRest⟩ := Option.bind_eq_some_iff.mp isRest
      obtain ⟨_, _, rfl, rfl⟩ := Volume.blockBitmapAlloc_eq_some isSecond
      cases isRest
      exact ⟨rfl, rfl⟩
    · cases isRest
      exact ⟨rfl, rfl⟩

theorem syncLoop_sameNumbers {pDe : DirEntry} {idxs : List Nat}
    (isRun : syncLoop part inode pDe blocks idxs = some (part', inode', done)) :
    SameNumbers part inode part' inode' := by
  induction idxs with
  | nil =>
      cases isRun
      exact ⟨rfl, rfl⟩
  | cons blockIdx rest inductionHypothesis =>
      unfold syncLoop at isRun
      dsimp only at isRun
      split at isRun
      · obtain ⟨⟨part₁, inode₁, added⟩, isAdded, isRest⟩ := Option.bind_eq_some_iff.mp isRun
        have same := addBlock_sameNumbers isAdded
        cases added <;> cases isRest <;> exact same
      · split at isRun
        · cases isRun
          exact ⟨rfl, rfl⟩
        · exact inductionHypothesis isRun

theorem syncDirEntry_sameNumbers {pDe : DirEntry}
    (isRun : syncDirEntry part inode pDe = some (part', inode', done)) :
    SameNumbers part inode part' inode' := by
  unfold syncDirEntry at isRun
  split at isRun
  · exact syncLoop_sameNumbers isRun
  · cases isRun

theorem releaseBlocks_inodeBitmap (isRun : Calls.releaseBlocks part blocks = some part') :
    part'.inodeBitmap = part.inodeBitmap := by
  induction blocks generalizing part with
  | nil =>
      cases isRun
      rfl
  | cons lba rest inductionHypothesis =>
      unfold Calls.releaseBlocks at isRun
      split at isRun
      · exact inductionHypothesis isRun
      · split at isRun
        · exact (inductionHypothesis isRun).trans rfl
        · cases isRun

end Volumes

end ZyOs.Fs

namespace ZyOs.Fs.Calls

open ZyOs.Kernel ZyOs.Memory ZyOs.Lib

variable {s s' : State} {o o' : OpenFiles} {ptr : Ptr} {inodeNo flag : Nat}

/-- The fields of an inode that the tables hold. -/
def MemInode.entry (inode : MemInode) : Fs.Inode := ⟨inode.iNo, inode.iOpenCnts, inode.writeDeny⟩

/-- The tables show the open files of a state. -/
structure Shows (s : State) (o : OpenFiles) : Prop where
  nodup : s.openInodes.Nodup
  live : ∀ ptr ∈ s.openInodes, s.heap ptr ≠ none
  bitmapFits : 8 * s.part.inodeBitmap.btmpBytesLen ≤ 4096
  pgdirNull : o.pgdirNull = s.pgdirNull
  heap : ∀ ptr ∈ s.openInodes, o.heap ptr = s.heap ptr
  free : ∀ ptr, s.heap ptr = none → o.heap ptr = none
  openInodes : o.openInodes = s.openInodes
  inode : ∀ ptr ∈ s.openInodes, o.inode ptr = (s.inode ptr).entry
  inodeBitmap : ∀ bit, o.inodeBitmap bit = bitmapScanTest s.part.inodeBitmap bit
  fdFlag : ∀ fdIdx, (o.fileTable fdIdx).fdFlag = (s.fileTable fdIdx).fdFlag
  fdInode : ∀ fdIdx, (o.fileTable fdIdx).fdInode = (s.fileTable fdIdx).fdInode
  fdTable : o.fdTable = s.fdTable

/-- The record of an inode on the disk: its own number, and `write_deny` clear. -/
def Recorded (part : Volume) (inodeNo : Nat) : Prop :=
  ∀ node, part.readInode inodeNo = some node → node.iNo.toNat = inodeNo ∧ node.writeDeny = 0

/-- The inodes of the slots are open. -/
def SlotsOpen (s : State) : Prop :=
  ∀ fdIdx < maxFileOpen, ∀ ptr, (s.fileTable fdIdx).fdInode = some ptr → ptr ∈ s.openInodes

/-! ### Buffers -/

theorem Shows.ofHeap (shows : Shows s o) {heap : Ptr → Option PoolFlags} {asked : Nat}
    (same : ∀ ptr ∈ s.openInodes, heap ptr = s.heap ptr) (free : ∀ ptr, heap ptr = none → o.heap ptr = none) :
    Shows { s with heap := heap, asked := asked } o where
  nodup := shows.nodup
  live ptr mem := by
    show heap ptr ≠ none
    rw [same ptr mem]
    exact shows.live ptr mem
  bitmapFits := shows.bitmapFits
  pgdirNull := shows.pgdirNull
  heap ptr mem := (shows.heap ptr mem).trans (same ptr mem).symm
  free := free
  openInodes := shows.openInodes
  inode := shows.inode
  inodeBitmap := shows.inodeBitmap
  fdFlag := shows.fdFlag
  fdInode := shows.fdInode
  fdTable := shows.fdTable

/-- A block that is free is not that of an open inode. -/
theorem Shows.notOpen (shows : Shows s o) (isFree : s.heap ptr = none) : ptr ∉ s.openInodes :=
  fun mem => shows.live ptr mem isFree

/-- A block that is taken is still free in the tables. -/
theorem Shows.taken (shows : Shows s o) (asked : Nat) (isFree : s.heap ptr = none) (pool : PoolFlags) :
    Shows { s with asked := asked, heap := Function.update s.heap ptr (some pool) } o := by
  apply shows.ofHeap
  · intro other mem
    have ne : other ≠ ptr := fun same => shows.notOpen isFree (same ▸ mem)
    exact Function.update_of_ne ne _ _
  · intro other isNone
    by_cases same : other = ptr
    · rw [same, Function.update_self] at isNone
      cases isNone
    · rw [Function.update_of_ne same] at isNone
      exact shows.free other isNone

theorem Shows.given (shows : Shows s o) (notOpen : ptr ∉ s.openInodes) (isFree : o.heap ptr = none) :
    Shows { s with heap := Function.update s.heap ptr none } o := by
  apply shows.ofHeap
  · intro other mem
    have ne : other ≠ ptr := fun same => notOpen (same ▸ mem)
    exact Function.update_of_ne ne _ _
  · intro other isNone
    by_cases same : other = ptr
    · rwa [same]
    · rw [Function.update_of_ne same] at isNone
      exact shows.free other isNone

/-- A block that a task has and the tables do not know of. -/
structure IsBuffer (s : State) (o : OpenFiles) (block : Ptr) : Prop where
  notOpen : block ∉ s.openInodes
  isFree : o.heap block = none
  isTaken : s.heap block ≠ none

theorem Shows.malloc (shows : Shows s o) {answer : Option Ptr} (isRun : malloc s = some (answer, s')) :
    Shows s' o := by
  rcases malloc_cases isRun with ⟨_, isAfter⟩ | ⟨found, _, isFree, _, isAfter⟩
  · rw [isAfter]
    exact shows.ofHeap (fun _ _ => rfl) shows.free
  · rw [isAfter]
    exact shows.taken _ isFree _

/-- The block that `sys_malloc` returns is a buffer. -/
theorem Shows.buffer (shows : Shows s o) (isRun : Calls.malloc s = some (some ptr, s')) : IsBuffer s' o ptr := by
  rcases malloc_cases isRun with ⟨isNone, _⟩ | ⟨found, isFound, isFree, _, isAfter⟩
  · cases isNone
  · cases isFound
    rw [isAfter]
    refine ⟨shows.notOpen isFree, shows.free ptr isFree, ?_⟩
    dsimp only
    rw [Function.update_self]
    exact Option.some_ne_none _

theorem IsBuffer.malloc {block : Ptr} (buffer : IsBuffer s o block) {answer : Option Ptr}
    (isRun : malloc s = some (answer, s')) : IsBuffer s' o block ∧ answer ≠ some block := by
  rcases malloc_cases isRun with ⟨isNone, isAfter⟩ | ⟨found, isFound, isFree, _, isAfter⟩
  · rw [isAfter, isNone]
    exact ⟨⟨buffer.notOpen, buffer.isFree, buffer.isTaken⟩, fun isSome => by cases isSome⟩
  · have ne : block ≠ found := by
      rintro rfl
      exact buffer.isTaken isFree
    rw [isAfter, isFound]
    refine ⟨⟨buffer.notOpen, buffer.isFree, ?_⟩, fun isSome => ne (Option.some.inj isSome).symm⟩
    dsimp only
    rw [Function.update_of_ne ne]
    exact buffer.isTaken

theorem Shows.freed (shows : Shows s o) (buffer : IsBuffer s o ptr) {a : Unit}
    (isRun : Calls.free ptr s = some (a, s')) : Shows s' o := by
  rw [free_eq_some isRun]
  exact shows.given buffer.notOpen buffer.isFree

/-! ### Inodes -/

/-- One inode that is open changes, in the state and in the tables. -/
theorem Shows.setInode (shows : Shows s o) (ptr : Ptr) (inode : MemInode) :
    Shows { s with inode := Function.update s.inode ptr inode } (o.setInode ptr inode.entry) where
  nodup := shows.nodup
  live := shows.live
  bitmapFits := shows.bitmapFits
  pgdirNull := shows.pgdirNull
  heap := shows.heap
  free := shows.free
  openInodes := shows.openInodes
  inode other mem := by
    show Function.update o.inode ptr inode.entry other = (Function.update s.inode ptr inode other).entry
    by_cases same : other = ptr
    · rw [same, Function.update_self, Function.update_self]
    · rw [Function.update_of_ne same, Function.update_of_ne same]
      exact shows.inode other mem
  inodeBitmap := shows.inodeBitmap
  fdFlag := shows.fdFlag
  fdInode := shows.fdInode
  fdTable := shows.fdTable

/-- A new inode goes to the front of the list; its block is in use in both. -/
theorem Shows.pushInode (shows : Shows s o) (notOpen : ptr ∉ s.openInodes) {pool : PoolFlags}
    (isTaken : s.heap ptr = some pool) (inode : MemInode) :
    Shows { s with inode := Function.update s.inode ptr inode, openInodes := ptr :: s.openInodes }
      { o.setInode ptr inode.entry with
        heap := Function.update o.heap ptr (some pool)
        openInodes := ptr :: o.openInodes } where
  nodup := List.nodup_cons.mpr ⟨notOpen, shows.nodup⟩
  live := by
    simp only [List.mem_cons, forall_eq_or_imp]
    exact ⟨by rw [isTaken]; exact Option.some_ne_none pool, shows.live⟩
  bitmapFits := shows.bitmapFits
  pgdirNull := shows.pgdirNull
  heap := by
    simp only [List.mem_cons, forall_eq_or_imp, Function.update_self]
    refine ⟨isTaken.symm, fun other mem => ?_⟩
    have ne : other ≠ ptr := fun same => notOpen (same ▸ mem)
    rw [Function.update_of_ne ne]
    exact shows.heap other mem
  free other isNone := by
    have ne : other ≠ ptr := by
      rintro rfl
      cases isTaken.symm.trans isNone
    exact (Function.update_of_ne ne _ _).trans (shows.free other isNone)
  openInodes := congrArg (ptr :: ·) shows.openInodes
  inode := by
    simp only [List.mem_cons, forall_eq_or_imp, Function.update_self, OpenFiles.setInode, true_and]
    intro other mem
    have ne : other ≠ ptr := fun same => notOpen (same ▸ mem)
    rw [Function.update_of_ne ne, Function.update_of_ne ne]
    exact shows.inode other mem
  inodeBitmap := shows.inodeBitmap
  fdFlag := shows.fdFlag
  fdInode := shows.fdInode
  fdTable := shows.fdTable

theorem Shows.find (shows : Shows s o) (inodeNo : Nat) :
    (o.openInodes.find? fun ptr => (o.inode ptr).iNo = inodeNo) =
      s.openInodes.find? fun ptr => (s.inode ptr).iNo = inodeNo := by
  rw [shows.openInodes]
  apply List.find?_congr
  intro ptr mem
  rw [shows.inode ptr mem]
  rfl

theorem readInode_lt {part : Volume} {node : InodeTable.Inode} (isRead : part.readInode inodeNo = some node) :
    inodeNo < 4096 := by
  obtain ⟨pos, isPos, _⟩ := Option.bind_eq_some_iff.mp isRead
  unfold inodeLocate at isPos
  split at isPos
  · assumption
  · cases isPos

/-- `inode_open`. -/
theorem Shows.inodeOpen (shows : Shows s o) (recorded : Recorded s.part inodeNo)
    (isRun : inodeOpen inodeNo s = some (ptr, s')) :
    ∃ o', o.inodeOpen inodeNo ptr = some (o', ptr) ∧ Shows s' o' ∧ ptr ∈ s'.openInodes ∧ s'.cur = s.cur ∧
      ∀ block, IsBuffer s o block → IsBuffer s' o' block := by
  unfold OpenFiles.inodeOpen
  rw [shows.find]
  cases inodeOpen_opened isRun with
  | found mem isNo isFound after =>
      rw [isFound, after]
      refine ⟨_, rfl, ?_, mem, rfl, fun block buffer => ⟨buffer.notOpen, buffer.isFree, buffer.isTaken⟩⟩
      unfold OpenFiles.countUp
      rw [shows.inode ptr mem]
      exact shows.setInode ptr { s.inode ptr with iOpenCnts := (s.inode ptr).iOpenCnts + 1 }
  | loaded node asked notFound isRead isFree inHeap after =>
      obtain ⟨isNo, notDenied⟩ := recorded node isRead
      have isEntry : MemInode.entry ⟨node, 1, node.writeDeny != 0⟩ = ⟨inodeNo, 1, false⟩ := by
        unfold MemInode.entry MemInode.iNo
        rw [isNo, notDenied]
        rfl
      have pushed := (shows.taken asked isFree .kernel).pushInode (shows.notOpen isFree)
        (Function.update_self ..) ⟨node, 1, node.writeDeny != 0⟩
      have allocates : o.sysMalloc true ptr = some { o with heap := Function.update o.heap ptr (some .kernel) } :=
        if_pos ⟨shows.free ptr isFree, inHeap⟩
      rw [notFound, after]
      dsimp only
      rw [if_pos (readInode_lt isRead), allocates]
      refine ⟨_, rfl, ?_, List.mem_cons_self, rfl, fun block buffer => ?_⟩
      · rw [isEntry] at pushed
        exact pushed
      · have ne : block ≠ ptr := by
          rintro rfl
          exact buffer.isTaken isFree
        refine ⟨fun mem => ?_, (Function.update_of_ne ne _ _).trans buffer.isFree,
          (Function.update_of_ne ne _ _).trans_ne buffer.isTaken⟩
        rcases List.mem_cons.mp mem with same | isOpen
        · exact ne same
        · exact buffer.notOpen isOpen

/-- The inode leaves the list, and its block is free in both. -/
theorem Shows.eraseInode (shows : Shows s o) :
    Shows { s with heap := Function.update s.heap ptr none, openInodes := s.openInodes.erase ptr }
      { o with heap := Function.update o.heap ptr none, openInodes := o.openInodes.erase ptr } where
  nodup := shows.nodup.erase ptr
  live other mem := by
    have ⟨ne, isOpen⟩ := shows.nodup.mem_erase_iff.mp mem
    exact (Function.update_of_ne ne _ _).trans_ne (shows.live other isOpen)
  bitmapFits := shows.bitmapFits
  pgdirNull := shows.pgdirNull
  heap other mem := by
    have ⟨ne, isOpen⟩ := shows.nodup.mem_erase_iff.mp mem
    show Function.update o.heap ptr none other = Function.update s.heap ptr none other
    rw [Function.update_of_ne ne, Function.update_of_ne ne]
    exact shows.heap other isOpen
  free other isNone := by
    show Function.update o.heap ptr none other = none
    by_cases same : other = ptr
    · rw [same, Function.update_self]
    · rw [Function.update_of_ne same]
      exact shows.free other ((Function.update_of_ne same _ _).symm.trans isNone)
  openInodes := congrArg (List.erase · ptr) shows.openInodes
  inode other mem := shows.inode other (List.mem_of_mem_erase mem)
  inodeBitmap := shows.inodeBitmap
  fdFlag := shows.fdFlag
  fdInode := shows.fdInode
  fdTable := shows.fdTable

/-- `inode_close`. -/
theorem Shows.inodeClose (shows : Shows s o) (mem : ptr ∈ s.openInodes) {a : Unit}
    (isRun : inodeClose ptr s = some (a, s')) :
    ∃ o', o.inodeClose ptr = some o' ∧ Shows s' o' ∧ s'.cur = s.cur ∧
      ∀ block, IsBuffer s o block → IsBuffer s' o' block := by
  have counted := shows.setInode ptr
    { s.inode ptr with iOpenCnts := OpenFiles.countDown (s.inode ptr).iOpenCnts }
  rw [inodeClose_eq] at isRun
  unfold OpenFiles.inodeClose
  rw [shows.inode ptr mem]
  by_cases isZero : OpenFiles.countDown (s.inode ptr).iOpenCnts = 0
  · rw [if_pos isZero] at isRun
    obtain ⟨mayFree, isAfter⟩ := sysFree_eq_some isRun
    have frees : (true = true → kHeapStart ≤ ptr) ∧ o.heap ptr = some PoolFlags.kernel := by
      rw [shows.heap ptr mem]
      exact mayFree
    rw [isAfter]
    refine ⟨_, (if_pos isZero).trans (if_pos frees), counted.eraseInode, rfl, fun block buffer => ?_⟩
    have ne : block ≠ ptr := fun same => buffer.notOpen (same ▸ mem)
    exact ⟨fun isOpen => buffer.notOpen (List.mem_of_mem_erase isOpen),
      (Function.update_of_ne ne _ _).trans buffer.isFree, (Function.update_of_ne ne _ _).trans_ne buffer.isTaken⟩
  · rw [if_neg isZero] at isRun
    cases isRun
    exact ⟨_, if_neg isZero, counted, rfl, fun block buffer => ⟨buffer.notOpen, buffer.isFree, buffer.isTaken⟩⟩

/-! ### Directories -/

/-- Which inodes the directories have is not shown. -/
theorem Shows.withDirs (shows : Shows s o) (dirs : List InodePtr) : Shows s { o with dirs := dirs } :=
  ⟨shows.nodup, shows.live, shows.bitmapFits, shows.pgdirNull, shows.heap, shows.free, shows.openInodes,
    shows.inode, shows.inodeBitmap, shows.fdFlag, shows.fdInode, shows.fdTable⟩

theorem Shows.dirOpen (shows : Shows s o) (recorded : Recorded s.part inodeNo) {dir : Dir}
    (isRun : dirOpen inodeNo s = some (dir, s')) :
    ∃ block o', dir.block = some block ∧ o.dirOpen inodeNo dir.inode = some o' ∧ Shows s' o' ∧
      IsBuffer s' o' block := by
  obtain ⟨pdir, s₁, isBlock, isRest⟩ := bind_eq_some isRun
  obtain ⟨found, s₂, isOpened, isRest⟩ := bind_eq_some isRest
  obtain ⟨block, s₃, isPdir, isRest⟩ := bind_eq_some isRest
  obtain ⟨isSome, isSame⟩ := deref_eq_some isPdir
  cases isRest
  rw [isSame]
  rw [isSome] at isBlock
  have samePart : s₁.part = s.part := by
    obtain ⟨_, isAfter, _⟩ := malloc_eq_some isBlock
    rw [isAfter]
  rw [← samePart] at recorded
  obtain ⟨o', opens, shows', _, _, buffers⟩ := (shows.malloc isBlock).inodeOpen recorded isOpened
  have isDir : o.dirOpen inodeNo found = some { o' with dirs := found :: o'.dirs } := by
    unfold OpenFiles.dirOpen
    rw [opens]
    rfl
  have buffer := buffers block (shows.buffer isBlock)
  exact ⟨block, _, rfl, isDir, shows'.withDirs _, buffer.notOpen, buffer.isFree, buffer.isTaken⟩

/-- `dir_close` of a directory that is not `root_dir`. -/
theorem Shows.dirClose (shows : Shows s o) {block : Ptr} (buffer : IsBuffer s o block) (isDir : ptr ∈ o.dirs)
    (mem : ptr ∈ s.openInodes) {a : Unit} (isRun : dirClose ⟨some block, ptr⟩ s = some (a, s')) :
    ∃ o', o.dirClose ptr = some o' ∧ Shows s' o' := by
  obtain ⟨_, s₁, isClosed, isFreed⟩ := bind_eq_some isRun
  have shows₀ := shows.withDirs (o.dirs.erase ptr)
  obtain ⟨o', closes, shows', _, buffers⟩ := shows₀.inodeClose mem isClosed
  unfold OpenFiles.dirClose
  rw [if_pos isDir]
  have buffer' := buffers block ⟨buffer.notOpen, buffer.isFree, buffer.isTaken⟩
  exact ⟨o', closes, shows'.freed buffer' isFreed⟩

/-! ### The volume -/

theorem Shows.setPart (shows : Shows s o) {part : Volume} {bits : Nat → Bool}
    (sameLen : part.inodeBitmap.btmpBytesLen = s.part.inodeBitmap.btmpBytesLen)
    (isBit : ∀ bit, bits bit = bitmapScanTest part.inodeBitmap bit) :
    Shows { s with part := part } { o with inodeBitmap := bits } where
  nodup := shows.nodup
  live := shows.live
  bitmapFits := by
    rw [sameLen]
    exact shows.bitmapFits
  pgdirNull := shows.pgdirNull
  heap := shows.heap
  free := shows.free
  openInodes := shows.openInodes
  inode := shows.inode
  inodeBitmap := isBit
  fdFlag := shows.fdFlag
  fdInode := shows.fdInode
  fdTable := shows.fdTable

theorem Shows.setInodeBit (shows : Shows s o) (inodeNo : Nat) (value : Bool) :
    Shows { s with part := s.part.setInodeBit inodeNo value } (o.setInodeBitmap inodeNo value) := by
  refine shows.setPart rfl fun bit => ?_
  show Function.update o.inodeBitmap inodeNo value bit = bitmapScanTest (bitmapSet s.part.inodeBitmap inodeNo value) bit
  rw [bitmapScanTest_bitmapSet, Function.update_apply, shows.inodeBitmap]

theorem Shows.withPart (shows : Shows s o) {part : Volume} (same : part.inodeBitmap = s.part.inodeBitmap) :
    Shows { s with part := part } o :=
  shows.setPart (by rw [same]) fun bit => by rw [same, shows.inodeBitmap]

/-- An inode in memory whose fields in the tables stay. -/
theorem Shows.sameEntry (shows : Shows s o) {inode : MemInode} (same : inode.entry = (s.inode ptr).entry) :
    Shows { s with inode := Function.update s.inode ptr inode } o where
  nodup := shows.nodup
  live := shows.live
  bitmapFits := shows.bitmapFits
  pgdirNull := shows.pgdirNull
  heap := shows.heap
  free := shows.free
  openInodes := shows.openInodes
  inode other mem := by
    show o.inode other = (Function.update s.inode ptr inode other).entry
    by_cases isPtr : other = ptr
    · rw [isPtr, Function.update_self, same]
      exact shows.inode ptr (isPtr ▸ mem)
    · rw [Function.update_of_ne isPtr]
      exact shows.inode other mem
  inodeBitmap := shows.inodeBitmap
  fdFlag := shows.fdFlag
  fdInode := shows.fdInode
  fdTable := shows.fdTable

/-! ### Slots and descriptors -/

theorem Shows.getFreeSlotInGlobal (shows : Shows s o) {found : Option Nat}
    (isRun : getFreeSlotInGlobal s = some (found, s')) : s' = s ∧ o.getFreeSlotInGlobal = found := by
  unfold OpenFiles.getFreeSlotInGlobal
  simp only [shows.fdInode]
  cases isRun
  exact ⟨rfl, rfl⟩

theorem Shows.setFile (shows : Shows s o) (fdIdx : Nat) (file : File) (shown : Fs.File)
    (isFlag : shown.fdFlag = file.fdFlag) (isInode : shown.fdInode = file.fdInode) :
    Shows { s with fileTable := Function.update s.fileTable fdIdx file } (o.setFile fdIdx shown) where
  nodup := shows.nodup
  live := shows.live
  bitmapFits := shows.bitmapFits
  pgdirNull := shows.pgdirNull
  heap := shows.heap
  free := shows.free
  openInodes := shows.openInodes
  inode := shows.inode
  inodeBitmap := shows.inodeBitmap
  fdFlag other := by
    show (Function.update o.fileTable fdIdx shown other).fdFlag = (Function.update s.fileTable fdIdx file other).fdFlag
    by_cases same : other = fdIdx
    · rw [same, Function.update_self, Function.update_self, isFlag]
    · rw [Function.update_of_ne same, Function.update_of_ne same, shows.fdFlag]
  fdInode other := by
    show (Function.update o.fileTable fdIdx shown other).fdInode = (Function.update s.fileTable fdIdx file other).fdInode
    by_cases same : other = fdIdx
    · rw [same, Function.update_self, Function.update_self, isInode]
    · rw [Function.update_of_ne same, Function.update_of_ne same, shows.fdInode]
  fdTable := shows.fdTable

theorem Shows.setFdTable (shows : Shows s o) (fdTable : Pid → Nat → Option Nat) :
    Shows { s with fdTable := fdTable } { o with fdTable := fdTable } :=
  ⟨shows.nodup, shows.live, shows.bitmapFits, shows.pgdirNull, shows.heap, shows.free, shows.openInodes,
    shows.inode, shows.inodeBitmap, shows.fdFlag, shows.fdInode, rfl⟩

theorem Shows.pcbFdInstall (shows : Shows s o) {globalFdIdx : Nat} {fd : Option Nat}
    (isRun : pcbFdInstall globalFdIdx s = some (fd, s')) :
    ∃ o', o.pcbFdInstall s.cur globalFdIdx = (o', fd) ∧ Shows s' o' := by
  obtain ⟨read, s₁, isRead, isRest⟩ := bind_eq_some isRun
  cases isRead
  unfold OpenFiles.pcbFdInstall
  rw [shows.fdTable]
  cases found : (List.range' 3 (maxFilesOpenPerProc - 3)).find? fun fd => s.fdTable s.cur fd = none with
  | none =>
      rw [found] at isRest
      cases isRest
      exact ⟨o, rfl, shows⟩
  | some localFdIdx =>
      rw [found] at isRest
      cases isRest
      exact ⟨_, rfl, shows.setFdTable _⟩

/-! ### Open files -/

/-- `file_open`. -/
theorem Shows.fileOpen (shows : Shows s o) (recorded : Recorded s.part inodeNo) {fd : Option Nat}
    (isRun : fileOpen inodeNo flag s = some (fd, s')) :
    ∃ ptr o', o.fileOpen s.cur inodeNo flag ptr = some (o', fd) ∧ Shows s' o' := by
  obtain ⟨found, s₁, isSlot, isRest⟩ := bind_eq_some isRun
  obtain ⟨isSame, isShown⟩ := shows.getFreeSlotInGlobal isSlot
  rw [isSame] at isRest
  cases found with
  | none =>
      cases isRest
      unfold OpenFiles.fileOpen
      rw [isShown]
      exact ⟨0, o, rfl, shows⟩
  | some fdIdx =>
      obtain ⟨ptr, s₂, isOpened, isRest⟩ := bind_eq_some isRest
      obtain ⟨o₂, opens, shows₂, mem, sameCur, _⟩ := shows.inodeOpen recorded isOpened
      obtain ⟨_, s₃, isSet, isRest⟩ := bind_eq_some isRest
      cases isSet
      have shows₃ := shows₂.setFile fdIdx ⟨0, flag, some ptr⟩ ⟨0, flag, some ptr⟩ rfl rfl
      refine ⟨ptr, ?_⟩
      unfold OpenFiles.fileOpen
      rw [isShown]
      dsimp only
      rw [opens, ← sameCur]
      by_cases writes : opensForWriting flag = true
      · rw [if_pos writes] at isRest
        simp only [Option.bind_eq_bind, Option.bind_some, if_pos writes]
        obtain ⟨read, s₄, isRead, isRest⟩ := bind_eq_some isRest
        cases isRead
        have isEntry : (o₂.setFile fdIdx ⟨0, flag, some ptr⟩).inode ptr = (s₂.inode ptr).entry :=
          shows₂.inode ptr mem
        rw [isEntry]
        by_cases isDenied : (s₂.inode ptr).writeDeny = true
        · rw [if_pos isDenied] at isRest
          cases isRest
          exact ⟨_, if_pos isDenied, shows₃⟩
        · rw [if_neg isDenied] at isRest
          obtain ⟨_, s₄, isWriter, isInstalled⟩ := bind_eq_some isRest
          cases isWriter
          have shows₄ := shows₃.setInode ptr { s₂.inode ptr with writeDeny := true }
          obtain ⟨o₅, installs, shows₅⟩ := shows₄.pcbFdInstall isInstalled
          refine ⟨o₅, (if_neg isDenied).trans (congrArg some ?_), shows₅⟩
          unfold OpenFiles.setWriteDeny
          rw [isEntry]
          exact installs
      · rw [if_neg writes] at isRest
        simp only [Option.bind_eq_bind, Option.bind_some, if_neg writes]
        obtain ⟨o₅, installs, shows₅⟩ := shows₃.pcbFdInstall isRest
        exact ⟨o₅, congrArg some installs, shows₅⟩

/-- `file_close`. -/
theorem Shows.fileClose (shows : Shows s o) {fdIdx : Nat} {a : Unit}
    (isOpen : ∀ ptr, (s.fileTable fdIdx).fdInode = some ptr → ptr ∈ s.openInodes)
    (isRun : fileClose fdIdx s = some (a, s')) :
    ∃ o', o.fileClose fdIdx = some o' ∧ Shows s' o' ∧ s'.cur = s.cur := by
  obtain ⟨read, s₁, isRead, isRest⟩ := bind_eq_some isRun
  cases isRead
  obtain ⟨ptr, s₂, isInode, isRest⟩ := bind_eq_some isRest
  obtain ⟨isSome, isSame⟩ := deref_eq_some isInode
  rw [isSame] at isRest
  obtain ⟨_, s₃, isReader, isRest⟩ := bind_eq_some isRest
  cases isReader
  obtain ⟨_, s₄, isClosed, isRest⟩ := bind_eq_some isRest
  have mem := isOpen ptr isSome
  have shows₃ := shows.setInode ptr { s.inode ptr with writeDeny := false }
  obtain ⟨o₄, closes, shows₄, sameCur, _⟩ := shows₃.inodeClose mem isClosed
  obtain ⟨read, s₅, isRead, isSet⟩ := bind_eq_some isRest
  cases isRead
  cases isSet
  unfold OpenFiles.fileClose OpenFiles.setWriteDeny
  rw [shows.fdInode, isSome]
  simp only [Option.bind_eq_bind, Option.bind_some, shows.inode ptr mem]
  exact ⟨_, congrArg (Option.bind · _) closes, shows₄.setFile fdIdx _ _ (shows₄.fdFlag fdIdx) rfl, sameCur⟩

/-- `sys_close`. -/
theorem Shows.sysClose (shows : Shows s o) {fd : Nat} {closed : Bool}
    (slots : SlotsOpen s) (isRun : sysClose fd s = some (closed, s')) : ∃ o', o.sysClose s.cur fd = some o' ∧ Shows s' o' := by
  unfold Calls.sysClose at isRun
  unfold OpenFiles.sysClose
  by_cases isFile : fd > 2
  · rw [if_pos (by omega)] at isRun
    rw [if_pos isFile]
    obtain ⟨globalFd, s₁, isGlobal, isRest⟩ := bind_eq_some isRun
    unfold fdLocal2global at isGlobal
    obtain ⟨_, s₂, isChecked, isGlobal⟩ := bind_eq_some isGlobal
    rw [(check_eq_some isChecked).2] at isGlobal
    obtain ⟨read, s₃, isRead, isGlobal⟩ := bind_eq_some isGlobal
    cases isRead
    obtain ⟨_, s₄, isIdx, isGlobal⟩ := bind_eq_some isGlobal
    obtain ⟨isFd, isSame₄⟩ := deref_eq_some isIdx
    obtain ⟨_, s₅, isChecked, isGlobal⟩ := bind_eq_some isGlobal
    obtain ⟨inTable, isSame₅⟩ := check_eq_some isChecked
    cases isGlobal
    rw [isSame₅, isSame₄] at isRest
    obtain ⟨_, s₆, isClosed, isRest⟩ := bind_eq_some isRest
    obtain ⟨o', closes, shows', sameCur⟩ := shows.fileClose (slots globalFd inTable) isClosed
    obtain ⟨_, s₇, isFreed, isEnd⟩ := bind_eq_some isRest
    cases isFreed
    cases isEnd
    have isFd : o.fdTable s.cur fd = some globalFd := by
      rw [shows.fdTable]
      exact isFd
    rw [isFd]
    simp only [Option.bind_eq_bind, Option.bind_some, if_pos inTable, closes, ← sameCur, shows'.fdTable]
    exact ⟨_, rfl, shows'.setFdTable _⟩
  · rw [if_neg (by omega)] at isRun
    rw [if_neg isFile]
    cases isRun
    exact ⟨o, rfl, shows⟩

/-! ### Releasing and creating -/

/-- `inode_release`. -/
theorem Shows.inodeRelease (shows : Shows s o) (recorded : Recorded s.part inodeNo) {a : Unit}
    (isRun : inodeRelease inodeNo s = some (a, s')) :
    ∃ ptr o', o.inodeRelease inodeNo ptr = some o' ∧ Shows s' o' := by
  obtain ⟨ptr, s₁, isOpened, isRest⟩ := bind_eq_some isRun
  obtain ⟨o₁, opens, shows₁, mem, _⟩ := shows.inodeOpen recorded isOpened
  obtain ⟨read, s₂, isRead, isRest⟩ := bind_eq_some isRest
  cases isRead
  obtain ⟨_, s₃, isChecked, isRest⟩ := bind_eq_some isRest
  rw [(check_eq_some isChecked).2] at isRest
  obtain ⟨_, s₄, isReleased, isRest⟩ := bind_eq_some isRest
  obtain ⟨part₄, isStep, isAfter₄⟩ := onPart_eq_some isReleased
  obtain ⟨part₁, isBlocks, isPair⟩ := Option.bind_eq_some_iff.mp isStep
  cases isPair
  -- the blocks go back to the block bitmap, the number to the inode bitmap
  have isUnset := (shows₁.withPart (releaseBlocks_inodeBitmap isBlocks)).setInodeBit inodeNo false
  have shows₄ : Shows s₄ (o₁.setInodeBitmap inodeNo false) := by
    rw [isAfter₄]
    exact isUnset.withPart rfl
  obtain ⟨ioBuf, s₅, isBuf, isRest⟩ := bind_eq_some isRest
  obtain ⟨answer, s₆, isMalloc, isDeref⟩ := bind_eq_some isBuf
  obtain ⟨isAnswer, isSame₅⟩ := deref_eq_some isDeref
  rw [isAnswer] at isMalloc
  have buffer := shows₄.buffer isMalloc
  obtain ⟨_, s₇, isDeleted, isRest⟩ := bind_eq_some isRest
  obtain ⟨part₇, isStep₇, isAfter₇⟩ := onPart_eq_some isDeleted
  obtain ⟨deleted, isDelete, isPair₇⟩ := Option.map_eq_some_iff.mp isStep₇
  cases isPair₇
  rw [isSame₅] at isDelete isAfter₇
  have shows₇ := (shows₄.malloc isMalloc).withPart (Volume.inodeDelete_inodeBitmap isDelete)
  rw [← isAfter₇] at shows₇
  have buffer₇ : IsBuffer s₇ (o₁.setInodeBitmap inodeNo false) ioBuf := by
    rw [isAfter₇]
    exact ⟨buffer.notOpen, buffer.isFree, buffer.isTaken⟩
  obtain ⟨_, s₈, isFreed, isClosed⟩ := bind_eq_some isRest
  have shows₈ := shows₇.freed buffer₇ isFreed
  have mem₈ : ptr ∈ s₈.openInodes := by
    rw [← shows₈.openInodes]
    show ptr ∈ o₁.openInodes
    rwa [shows₁.openInodes]
  obtain ⟨o', closes, shows', _⟩ := shows₈.inodeClose mem₈ isClosed
  refine ⟨ptr, o', ?_, shows'⟩
  unfold OpenFiles.inodeRelease
  rw [opens]
  exact closes

/-- `sync_dir_entry`: the parent keeps its number. -/
theorem Shows.syncDirEntry (shows : Shows s o) {parentDir : Dir} {pDe : DirEntry} {done : Bool}
    (isRun : syncDirEntry parentDir pDe s = some (done, s')) : Shows s' o := by
  obtain ⟨read, s₁, isRead, isRest⟩ := bind_eq_some isRun
  cases isRead
  obtain ⟨⟨node, synced⟩, s₁, isSync, isRest⟩ := bind_eq_some isRest
  obtain ⟨part, isStep, isAfter⟩ := onPart_eq_some isSync
  obtain ⟨⟨part₁, node₁, done₁⟩, isEntry, isPair⟩ := Option.map_eq_some_iff.mp isStep
  cases isPair
  obtain ⟨sameBitmap, sameNo⟩ := syncDirEntry_sameNumbers isEntry
  rw [isAfter] at isRest
  cases isRest
  refine (shows.withPart sameBitmap).sameEntry ?_
  unfold MemInode.entry MemInode.iNo
  dsimp only
  rw [sameNo]

/-- `file_create` from its new inode on, as far as `list_push`. -/
theorem Shows.createEntry (shows : Shows s o) {parentDir : Dir} {filename : List UInt8} {fdIdx : Nat}
    (inTable : inodeNo < 4096) {pool : PoolFlags} (notOpen : ptr ∉ s.openInodes) (isTaken : s.heap ptr = some pool)
    {done : Bool} (isRun : createEntry parentDir filename inodeNo fdIdx ptr s = some (done, s')) :
    done = true ∧ Shows s'
      { o.setInode ptr ⟨inodeNo, 1, false⟩ with
        heap := Function.update o.heap ptr (some pool)
        openInodes := ptr :: o.openInodes } := by
  unfold Calls.createEntry at isRun
  obtain ⟨newDirEntry, s₁, isEntry, isRest⟩ := bind_eq_some isRun
  obtain ⟨part₁, isStep₁, isAfter₁⟩ := onPart_eq_some isEntry
  obtain ⟨entry, _, isPair⟩ := Option.map_eq_some_iff.mp isStep₁
  cases isPair
  rw [isAfter₁] at isRest
  obtain ⟨synced, s₂, isSync, isRest⟩ := bind_eq_some isRest
  have shows₂ := shows.syncDirEntry isSync
  obtain ⟨isDone, part₂, inode₂, isAfter₂⟩ := syncDirEntry_eq_some isSync
  rw [isDone] at isRest
  obtain ⟨read, s₃, isRead, isRest⟩ := bind_eq_some isRest
  cases isRead
  obtain ⟨_, s₄, isPart, isRest⟩ := bind_eq_some isRest
  obtain ⟨part₄, isStep₄, isAfter₄⟩ := onPart_eq_some isPart
  obtain ⟨part₅, isSynced₅, isStep₄⟩ := Option.bind_eq_some_iff.mp isStep₄
  obtain ⟨part₆, isSynced₆, isPair⟩ := Option.bind_eq_some_iff.mp isStep₄
  cases isPair
  have sameBitmap : (part₆.bitmapSync inodeNo .inode).inodeBitmap = s₂.part.inodeBitmap := calc
    (part₆.bitmapSync inodeNo .inode).inodeBitmap = part₆.inodeBitmap := rfl
    _ = part₅.inodeBitmap := Volume.inodeSync_inodeBitmap isSynced₆
    _ = s₂.part.inodeBitmap := Volume.inodeSync_inodeBitmap isSynced₅
  have shows₄ := shows₂.withPart sameBitmap
  rw [← isAfter₄] at shows₄
  have isEntry : MemInode.entry ⟨inodeInit inodeNo, 1, false⟩ = ⟨inodeNo, 1, false⟩ := by
    unfold MemInode.entry MemInode.iNo inodeInit
    dsimp only
    rw [UInt32.toNat_ofNat_of_lt' (by show inodeNo < 2 ^ 32; omega)]
  have notOpen₄ : ptr ∉ s₄.openInodes := by
    rw [isAfter₄, isAfter₂]
    exact notOpen
  have isTaken₄ : s₄.heap ptr = some pool := by
    rw [isAfter₄, isAfter₂]
    exact isTaken
  have pushed := shows₄.pushInode notOpen₄ isTaken₄ ⟨inodeInit inodeNo, 1, false⟩
  rw [isEntry] at pushed
  cases isRest
  exact ⟨rfl, pushed⟩

/-- A number and a block that `file_create` may take. -/
structure MayCreate (o : OpenFiles) (pid : Pid) (inodeNo : Nat) (ptr : InodePtr) : Prop where
  isClear : o.inodeBitmap inodeNo = false
  inTable : inodeNo < 4096
  isFree : o.heap ptr = none
  inHeap : OpenFiles.inHeap (o.pgdirNull pid) ptr = true

theorem MayCreate.created {pid : Pid} (may : MayCreate o pid inodeNo ptr) {fdIdx : Nat}
    (slot : o.getFreeSlotInGlobal = some fdIdx) :
    o.fileCreate pid inodeNo flag (some ptr) true =
      some ((o.created pid inodeNo flag ptr fdIdx).pcbFdInstall pid fdIdx) := by
  unfold OpenFiles.fileCreate
  rw [if_pos ⟨may.isClear, may.inTable⟩]
  simp only [OpenFiles.sysMalloc, OpenFiles.setInodeBitmap, may.isFree, may.inHeap, and_self, if_true,
    Option.bind_eq_bind, Option.bind_some]
  split
  · rename_i noSlot
    have noSlot : o.getFreeSlotInGlobal = none := noSlot
    cases noSlot.symm.trans slot
  · rename_i other isSlot
    have isSlot : o.getFreeSlotInGlobal = some other := isSlot
    cases isSlot.symm.trans slot
    simp only [OpenFiles.created, OpenFiles.setInode, OpenFiles.setFile, Function.update_idem]
    rfl

theorem MayCreate.noSlot {pid : Pid} (may : MayCreate o pid inodeNo ptr) (synced : Bool)
    (noSlot : o.getFreeSlotInGlobal = none) :
    o.fileCreate pid inodeNo flag (some ptr) synced = some (o.setInode ptr ⟨inodeNo, 0, false⟩, none) := by
  have bitmapBack : Function.update o.inodeBitmap inodeNo false = o.inodeBitmap := by
    rw [← may.isClear, Function.update_eq_self]
  have heapBack : Function.update o.heap ptr none = o.heap := by
    rw [← may.isFree, Function.update_eq_self]
  unfold OpenFiles.fileCreate
  rw [if_pos ⟨may.isClear, may.inTable⟩]
  simp only [OpenFiles.sysMalloc, OpenFiles.setInodeBitmap, may.isFree, may.inHeap, and_self, if_true,
    Option.bind_eq_bind, Option.bind_some]
  split
  · rw [OpenFiles.sysFree_of_heap (by exact may.inHeap) (by exact Function.update_self _ _ _)]
    simp only [OpenFiles.setInode, Function.update_idem, Option.bind_some, bitmapBack, heapBack]
    rfl
  · rename_i other isSlot
    have isSlot : o.getFreeSlotInGlobal = some other := isSlot
    cases isSlot.symm.trans noSlot

theorem tables_fileCreate_noBlock (isClear : o.inodeBitmap inodeNo = false) (inTable : inodeNo < 4096)
    (pid : Pid) (synced : Bool) : o.fileCreate pid inodeNo flag none synced = some (o, none) := by
  have bitmapBack : Function.update o.inodeBitmap inodeNo false = o.inodeBitmap := by
    rw [← isClear, Function.update_eq_self]
  unfold OpenFiles.fileCreate
  rw [if_pos ⟨isClear, inTable⟩]
  simp only [OpenFiles.setInodeBitmap, Function.update_idem, bitmapBack]

theorem IsBuffer.freed {block : Ptr} (buffer : IsBuffer s o block) (ne : block ≠ ptr) {a : Unit}
    (isRun : free ptr s = some (a, s')) : IsBuffer s' o block := by
  rw [free_eq_some isRun]
  exact ⟨buffer.notOpen, buffer.isFree, (Function.update_of_ne ne _ _).trans_ne buffer.isTaken⟩

/-- What the tables hold of an inode that is not open does not matter. -/
theorem Shows.otherInode (shows : Shows s o) (notOpen : ptr ∉ s.openInodes) (inode : Fs.Inode) :
    Shows s (o.setInode ptr inode) where
  nodup := shows.nodup
  live := shows.live
  bitmapFits := shows.bitmapFits
  pgdirNull := shows.pgdirNull
  heap := shows.heap
  free := shows.free
  openInodes := shows.openInodes
  inode other mem := by
    have ne : other ≠ ptr := fun same => notOpen (same ▸ mem)
    exact (Function.update_of_ne ne _ _).trans (shows.inode other mem)
  inodeBitmap := shows.inodeBitmap
  fdFlag := shows.fdFlag
  fdInode := shows.fdInode
  fdTable := shows.fdTable

theorem setInodeBitmap_undo (isClear : o.inodeBitmap inodeNo = false) :
    (o.setInodeBitmap inodeNo true).setInodeBitmap inodeNo false = o := by
  unfold OpenFiles.setInodeBitmap
  dsimp only
  rw [Function.update_idem, ← isClear, Function.update_eq_self]

/-- `file_create` with both of its buffers, from the new number on. -/
theorem Shows.fileCreated {t : State} (shows : Shows t (o.setInodeBitmap inodeNo true)) {parentDir : Dir}
    {filename : List UInt8} {fd : Option Nat} {ioBuf fdIdx : Nat} (may : MayCreate o s.cur inodeNo ptr)
    (slot : o.getFreeSlotInGlobal = some fdIdx) (sameCur : t.cur = s.cur)
    (buffer : IsBuffer t (o.setInodeBitmap inodeNo true) ioBuf) (ne : ioBuf ≠ ptr) (notOpen : ptr ∉ t.openInodes)
    (isTaken : t.heap ptr = some (if o.pgdirNull s.cur then .kernel else .user))
    (isRun : (do
      Calls.setFile fdIdx ⟨0, flag, some ptr⟩
      if ← Calls.createEntry parentDir filename inodeNo fdIdx ptr then do
        Calls.free ioBuf
        Calls.pcbFdInstall fdIdx
      else do
        Calls.free ptr
        onPart fun part => some (part.setInodeBit inodeNo false, ())
        Calls.free ioBuf
        return none) t = some (fd, s')) :
    ∃ o', o.fileCreate s.cur inodeNo flag (some ptr) true = some (o', fd) ∧ Shows s' o' := by
  obtain ⟨_, s₄, isSet, isRest⟩ := bind_eq_some isRun
  have shows₄ := shows.setFile fdIdx ⟨0, flag, some ptr⟩ ⟨0, flag, some ptr⟩ rfl rfl
  cases isSet
  obtain ⟨done, s₅, isCreated, isRest⟩ := bind_eq_some isRest
  obtain ⟨isDone, shows₅⟩ := shows₄.createEntry may.inTable notOpen isTaken isCreated
  obtain ⟨_, part₅, inode₅, openInodes₅, isAfter₅⟩ := createEntry_eq_some isCreated
  rw [isDone] at isRest
  obtain ⟨_, s₆, isFreed, isInstalled⟩ := bind_eq_some isRest
  have shows₆ : Shows s₆ (o.created s.cur inodeNo flag ptr fdIdx) := by
    unfold OpenFiles.created
    rw [free_eq_some isFreed]
    refine shows₅.given (fun mem => ?_) ((Function.update_of_ne ne _ _).trans buffer.isFree)
    rw [← shows₅.openInodes, List.mem_cons] at mem
    rcases mem with same | isOpen
    · exact ne same
    · rw [shows₄.openInodes] at isOpen
      exact buffer.notOpen isOpen
  obtain ⟨o', installs, shows'⟩ := shows₆.pcbFdInstall isInstalled
  have isCur : s₆.cur = s.cur := by
    rw [free_eq_some isFreed, isAfter₅]
    exact sameCur
  rw [isCur] at installs
  exact ⟨o', (may.created slot).trans (congrArg some installs), shows'⟩

/-- `file_create` without a free slot: the number and both buffers go back. -/
theorem Shows.fileNoSlot {t : State} (shows : Shows t (o.setInodeBitmap inodeNo true)) {fd : Option Nat} {ioBuf : Nat}
    {pid : Pid} (may : MayCreate o pid inodeNo ptr) (noSlot : o.getFreeSlotInGlobal = none)
    (buffer : IsBuffer t (o.setInodeBitmap inodeNo true) ioBuf) (ne : ioBuf ≠ ptr)
    (newBuffer : IsBuffer t (o.setInodeBitmap inodeNo true) ptr)
    (isRun : (do
      Calls.free ptr
      onPart fun part => some (part.setInodeBit inodeNo false, ())
      Calls.free ioBuf
      return none) t = some (fd, s')) :
    ∃ o', o.fileCreate pid inodeNo flag (some ptr) false = some (o', fd) ∧ Shows s' o' := by
  obtain ⟨_, s₁, isFreed, isRest⟩ := bind_eq_some isRun
  obtain ⟨_, s₂, isUnset, isThen⟩ := bind_eq_some isRest
  obtain ⟨_, s₃, isFreed', isEnd⟩ := bind_eq_some isThen
  have buffer₁ := buffer.freed ne isFreed
  have shows₂ := (shows.freed newBuffer isFreed).setInodeBit inodeNo false
  rw [setInodeBitmap_undo may.isClear] at shows₂
  cases isUnset
  have shows₃ := shows₂.freed ⟨buffer₁.notOpen, buffer₁.isFree, buffer₁.isTaken⟩ isFreed'
  cases isEnd
  refine ⟨_, may.noSlot false noSlot, shows₃.otherInode ?_ _⟩
  have notOpen := newBuffer.notOpen
  rw [← shows.openInodes] at notOpen
  rw [← shows₃.openInodes]
  exact notOpen

/-- `file_create`. When the first buffer is missing, the tables do not see the call. -/
theorem Shows.fileCreate (shows : Shows s o) {parentDir : Dir} {filename : List UInt8} {fd : Option Nat}
    (isRun : fileCreate parentDir filename flag s = some (fd, s')) :
    (fd = none ∧ Shows s' o) ∨
      ∃ inodeNo block synced o', o.fileCreate s.cur inodeNo flag block synced = some (o', fd) ∧ Shows s' o' := by
  unfold Calls.fileCreate at isRun
  obtain ⟨first, s₁, isFirst, isRest⟩ := bind_eq_some isRun
  have shows₁ := shows.malloc isFirst
  obtain ⟨heap₁, isAfter₁, _⟩ := malloc_eq_some isFirst
  cases first with
  | none =>
      cases isRest
      exact .inl ⟨rfl, shows₁⟩
  | some ioBuf =>
      right
      have buffer₁ := shows.buffer isFirst
      obtain ⟨allocated, s₂, isAlloc, isRest⟩ := bind_eq_some isRest
      obtain ⟨part, isStep, isAfter₂⟩ := onPart_eq_some isAlloc
      obtain ⟨bit, found, isBit, isPart⟩ := inodeBitmapAlloc_eq_some isStep
      obtain ⟨inside, bitClear, _⟩ := firstClear_some found
      have inTable : bit < 4096 := lt_of_lt_of_le inside shows₁.bitmapFits
      have isClear : o.inodeBitmap bit = false := by
        rw [shows₁.inodeBitmap]
        exact bitClear
      have shows₂ := shows₁.setInodeBit bit true
      rw [← isPart, ← isAfter₂] at shows₂
      have buffer₂ : IsBuffer s₂ (o.setInodeBitmap bit true) ioBuf := by
        rw [isAfter₂]
        exact ⟨buffer₁.notOpen, buffer₁.isFree, buffer₁.isTaken⟩
      have isCur₂ : s₂.cur = s.cur := by
        rw [isAfter₂, isAfter₁]
      rw [isBit] at isRest
      refine ⟨bit, ?_⟩
      obtain ⟨second, s₃, isSecond, isRest⟩ := bind_eq_some isRest
      have shows₃ := shows₂.malloc isSecond
      obtain ⟨buffer₃, ne⟩ := buffer₂.malloc isSecond
      have shows₃' := shows₃.setInodeBit bit false
      rw [setInodeBitmap_undo isClear] at shows₃'
      rcases malloc_cases isSecond with ⟨isNone, _⟩ | ⟨newFileInode, isNew, isFree, inHeap, isAfter₃⟩
      · rw [isNone] at isRest
        obtain ⟨_, s₄, isUnset, isThen⟩ := bind_eq_some isRest
        obtain ⟨_, s₅, isFreed, isEnd⟩ := bind_eq_some isThen
        cases isUnset
        have shows₅ := shows₃'.freed ⟨buffer₃.notOpen, buffer₃.isFree, buffer₃.isTaken⟩ isFreed
        cases isEnd
        exact ⟨none, false, o, tables_fileCreate_noBlock isClear inTable s.cur false, shows₅⟩
      · rw [isNew] at isRest ne isSecond
        have newBuffer := shows₂.buffer isSecond
        have may : MayCreate o s.cur bit newFileInode := by
          refine ⟨isClear, inTable, newBuffer.isFree, ?_⟩
          rw [isAfter₂, isAfter₁] at inHeap
          rw [shows.pgdirNull]
          exact inHeap
        obtain ⟨slot, s₄, isSlot, isRest⟩ := bind_eq_some isRest
        obtain ⟨isSame₄, isShown⟩ := shows₃.getFreeSlotInGlobal isSlot
        rw [isSame₄] at isRest
        cases slot with
        | none =>
            exact ⟨some newFileInode, false, shows₃.fileNoSlot may isShown buffer₃
              (fun same => ne (congrArg some same.symm)) newBuffer isRest⟩
        | some fdIdx =>
            refine ⟨some newFileInode, true, shows₃.fileCreated may isShown ?_ buffer₃
              (fun same => ne (congrArg some same.symm)) newBuffer.notOpen ?_ isRest⟩
            · rw [isAfter₃]
              exact isCur₂
            · rw [isAfter₃]
              dsimp only
              rw [Function.update_self, isAfter₂, isAfter₁, shows.pgdirNull]

/-! ### Forking -/

/-- `update_inode_open_cnts`, for the descriptors that are left. -/
theorem Shows.updateInodeOpenCnts (shows : Shows s o) (slots : SlotsOpen s) {localFds : List Nat} {a : Unit}
    (isRun : updateInodeOpenCnts localFds s = some (a, s')) :
    ∃ o' inode, OpenFiles.updateInodeOpenCnts s.cur localFds o = some o' ∧ Shows s' o' ∧
      s' = { s with inode := inode } := by
  induction localFds generalizing s o with
  | nil =>
      cases isRun
      exact ⟨o, _, rfl, shows, rfl⟩
  | cons localFd rest inductionHypothesis =>
      unfold Calls.updateInodeOpenCnts at isRun
      unfold OpenFiles.updateInodeOpenCnts
      obtain ⟨read, s₁, isRead, isRest⟩ := bind_eq_some isRun
      cases isRead
      rw [shows.fdTable]
      cases isFd : s.fdTable s.cur localFd with
      | none =>
          rw [isFd] at isRest
          exact inductionHypothesis shows slots isRest
      | some globalFd =>
          rw [isFd] at isRest
          obtain ⟨_, s₂, isChecked, isRest⟩ := bind_eq_some isRest
          obtain ⟨inTable, isSame₂⟩ := check_eq_some isChecked
          rw [isSame₂] at isRest
          obtain ⟨ptr, s₃, isInode, isRest⟩ := bind_eq_some isRest
          obtain ⟨isSome, isSame₃⟩ := deref_eq_some isInode
          rw [isSame₃] at isRest
          obtain ⟨_, s₄, isCounted, isRest⟩ := bind_eq_some isRest
          cases isCounted
          have counted := shows.setInode ptr { s.inode ptr with iOpenCnts := (s.inode ptr).iOpenCnts + 1 }
          obtain ⟨o', inode, updates, shows', isAfter⟩ := inductionHypothesis counted slots isRest
          refine ⟨o', inode, ?_, shows', isAfter⟩
          simp only [if_pos inTable, shows.fdInode, isSome, Option.bind_eq_bind, Option.bind_some,
            OpenFiles.countUp, shows.inode ptr (slots globalFd inTable ptr isSome)]
          exact updates

/-- The child has the descriptors of its parent, so counting them may come first. -/
theorem updateInodeOpenCnts_child {parent child : Pid} (pgdirNull : Pid → Bool) {fdTable : Pid → Nat → Option Nat}
    (sameFds : fdTable child = o.fdTable parent) {localFds : List Nat}
    (updates : OpenFiles.updateInodeOpenCnts parent localFds o = some o') :
    OpenFiles.updateInodeOpenCnts child localFds { o with pgdirNull := pgdirNull, fdTable := fdTable } =
      some { o' with pgdirNull := pgdirNull, fdTable := fdTable } := by
  induction localFds generalizing o with
  | nil =>
      cases updates
      rfl
  | cons localFd rest inductionHypothesis =>
      unfold OpenFiles.updateInodeOpenCnts at updates ⊢
      dsimp only at updates ⊢
      rw [sameFds]
      cases isFd : o.fdTable parent localFd with
      | none =>
          rw [isFd] at updates
          exact inductionHypothesis sameFds updates
      | some globalFd =>
          rw [isFd] at updates
          dsimp only at updates ⊢
          split at updates
          · rename_i inTable
            obtain ⟨found, isInode, isRest⟩ := Option.bind_eq_some_iff.mp updates
            rw [if_pos inTable, isInode]
            exact inductionHypothesis (o := o.countUp found) sameFds isRest
          · cases updates

theorem Shows.sysFork (shows : Shows s o) (slots : SlotsOpen s) {child : Pid} {a : Unit}
    (isRun : sysFork child s = some (a, s')) : ∃ o', o.fork s.cur child = some o' ∧ Shows s' o' := by
  obtain ⟨read, s₁, isRead, isRest⟩ := bind_eq_some isRun
  cases isRead
  obtain ⟨_, s₂, isChecked, isRest⟩ := bind_eq_some isRest
  rw [(check_eq_some isChecked).2] at isRest
  obtain ⟨_, s₃, isUpdated, isRest⟩ := bind_eq_some isRest
  obtain ⟨o₃, inode, updates, shows₃, isAfter⟩ := shows.updateInodeOpenCnts slots isUpdated
  cases isRest
  have sameFds : Function.update o.fdTable child (o.fdTable s.cur) child = o.fdTable s.cur := Function.update_self ..
  refine ⟨_, updateInodeOpenCnts_child (Function.update o.pgdirNull child false) sameFds updates, ?_⟩
  rw [shows.pgdirNull, shows.fdTable, isAfter]
  rw [isAfter] at shows₃
  exact ⟨shows₃.nodup, shows₃.live, shows₃.bitmapFits, rfl, shows₃.heap, shows₃.free, shows₃.openInodes,
    shows₃.inode, shows₃.inodeBitmap, shows₃.fdFlag, shows₃.fdInode, rfl⟩

/-! ### Reachable states -/

/-- The tables of a state. -/
def State.tables (s : State) : OpenFiles where
  pgdirNull := s.pgdirNull
  heap ptr := if ptr ∈ s.openInodes then s.heap ptr else none
  inode ptr := (s.inode ptr).entry
  openInodes := s.openInodes
  dirs := s.dirs.flatMap Dir.ownRef
  inodeBitmap := bitmapScanTest s.part.inodeBitmap
  fileTable fdIdx := ⟨(s.fileTable fdIdx).fdPos.toNat, (s.fileTable fdIdx).fdFlag, (s.fileTable fdIdx).fdInode⟩
  fdTable := s.fdTable

variable {s₀ : State} {refs : List Ptr}

theorem Ledger.shows (ledger : Ledger s₀ [] refs s) (bitmapFits : 8 * s.part.inodeBitmap.btmpBytesLen ≤ 4096) :
    Shows s s.tables where
  nodup := (List.nodup_append.mp (List.nodup_append.mp ledger.nodup).2.1).2.1
  live ptr mem := ledger.live ptr (List.mem_append_right _ (List.mem_append_right _ mem))
  bitmapFits := bitmapFits
  pgdirNull := rfl
  heap _ mem := if_pos mem
  free ptr isNone := by
    show (if ptr ∈ s.openInodes then s.heap ptr else none) = none
    rw [isNone, ite_self]
  openInodes := rfl
  inode _ _ := rfl
  inodeBitmap _ := rfl
  fdFlag _ := rfl
  fdInode _ := rfl
  fdTable := rfl

end ZyOs.Fs.Calls
