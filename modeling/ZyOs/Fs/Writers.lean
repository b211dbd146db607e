import ZyOs.Fs.SharedDescriptors

/-!
Contract: at most one open slot of a file was opened for writing.

`file_open` sets `write_deny` for a writer and refuses a second one. Two steps
lose the flag while the writer is still open: `file_create` never sets it for the
slot it opens, and `file_close` clears it whichever slot is closed. In runs of
`sys_open` and `sys_close` without these, a file has at most one writer.
-/

namespace ZyOs.Fs

open ZyOs.Memory

namespace OpenFiles

/-- A slot that a descriptor of some process refers to. -/
def IsOpenSlot (s : OpenFiles) (fdIdx : Nat) : Prop :=
  ∃ pid fd, 3 ≤ fd ∧ s.fdTable pid fd = some fdIdx

/-- An open slot that was opened for writing, on this inode. -/
structure WritesTo (s : OpenFiles) (fdIdx : Nat) (ptr : InodePtr) : Prop where
  isOpen : s.IsOpenSlot fdIdx
  inode : (s.fileTable fdIdx).fdInode = some ptr
  writes : opensForWriting (s.fileTable fdIdx).fdFlag = true

/-- A file has one writer at most, and a second one is refused. -/
structure SingleWriter (s : OpenFiles) : Prop where
  atMostOne : ∀ fdIdx ptr fdIdx' ptr', s.WritesTo fdIdx ptr → s.WritesTo fdIdx' ptr' →
    (s.inode ptr).iNo = (s.inode ptr').iNo → fdIdx = fdIdx'
  refused : ∀ fdIdx ptr pid flag block s' fd, s.WritesTo fdIdx ptr → opensForWriting flag = true →
    s.fileOpen pid (s.inode ptr).iNo flag block = some (s', fd) → fd = none

/-- What `sys_open` and `sys_close` do to the tables. A directory entry names an
inode that is in use. -/
def OpensOrCloses (s : OpenFiles) : FileCall → Prop
  | .dirOpen iNo _ => s.inodeBitmap iNo = true
  | .openFile _ iNo _ _ => s.inodeBitmap iNo = true
  | .dirClose _ => True
  | .create _ _ _ _ _ => True
  | .close _ _ => True
  | .release _ _ => False
  | .fork _ _ => False

/-- The two steps after which a writer is open and `write_deny` is clear. -/
def LosesWriteDeny (s : OpenFiles) : FileCall → Prop
  | .create _ _ flag ptr synced => opensForWriting flag = true ∧ s.Creates ptr synced
  | .close pid fd => 2 < fd ∧ ∃ fdIdx ptr other, s.fdTable pid fd = some fdIdx ∧
      (s.fileTable fdIdx).fdInode = some ptr ∧ other ≠ fdIdx ∧ s.WritesTo other ptr
  | _ => False

structure WritersInv (s : OpenFiles) : Prop where
  distinct : ∀ ptr ∈ s.openInodes, ∀ ptr' ∈ s.openInodes,
    (s.inode ptr).iNo = (s.inode ptr').iNo → ptr = ptr'
  used : ∀ ptr ∈ s.openInodes, s.inodeBitmap (s.inode ptr).iNo = true
  taken : ∀ fdIdx, s.IsOpenSlot fdIdx → (s.fileTable fdIdx).fdInode ≠ none
  unshared : ∀ pid fd pid' fd' fdIdx, 3 ≤ fd → 3 ≤ fd' → s.fdTable pid fd = some fdIdx →
    s.fdTable pid' fd' = some fdIdx → pid = pid' ∧ fd = fd'
  denied : ∀ fdIdx ptr, s.WritesTo fdIdx ptr → (s.inode ptr).writeDeny = true
  one : ∀ fdIdx fdIdx' ptr, s.WritesTo fdIdx ptr → s.WritesTo fdIdx' ptr → fdIdx = fdIdx'

variable {s s' : OpenFiles} {held : List InodePtr} {ptr : InodePtr}

theorem WritersInv.singleWriter (inv : s.WritersInv) (tables : s.Tables held) : s.SingleWriter := by
  have isOpen : ∀ {fdIdx ptr}, s.WritesTo fdIdx ptr → ptr ∈ s.openInodes :=
    fun {fdIdx ptr} writer => tables.slot fdIdx ptr writer.inode
  refine ⟨fun fdIdx ptr fdIdx' ptr' writer writer' sameNo => ?_,
    fun fdIdx ptr pid flag block s' fd writer writes opened => ?_⟩
  · obtain rfl : ptr = ptr' := inv.distinct ptr (isOpen writer) ptr' (isOpen writer') sameNo
    exact inv.one fdIdx fdIdx' ptr writer writer'
  · -- `inode_open` finds the writer's inode, whose `write_deny` is set
    have found : ∀ {s₁ found}, s.inodeOpen (s.inode ptr).iNo block = some (s₁, found) →
        (s₁.inode found).writeDeny = true := by
      intro s₁ found opened
      rcases inodeOpen_cases opened with ⟨mem, sameNo, rfl⟩ | ⟨_, _, _, notOpen, _⟩
      · obtain rfl : found = ptr := inv.distinct found mem ptr (isOpen writer) sameNo
        simpa [OpenFiles.countUp, setInode] using inv.denied fdIdx found writer
      · exact absurd rfl (notOpen ptr (isOpen writer))
    cases fileOpen_cases opened with
    | full => rfl
    | refused => rfl
    | writer _ opened _ notBusy _ =>
        rw [found opened] at notBusy
        cases notBusy
    | reader _ _ reads _ =>
        rw [writes] at reads
        cases reads

/-! ### Steps -/

/-- A change that opens no slot and clears no `write_deny` of a writer. -/
theorem WritersInv.shrink (inv : s.WritersInv)
    (openInodes : ∀ ptr ∈ s'.openInodes, ptr ∈ s.openInodes)
    (iNo : ∀ ptr ∈ s.openInodes, (s'.inode ptr).iNo = (s.inode ptr).iNo)
    (inodeBitmap : s'.inodeBitmap = s.inodeBitmap)
    (fdTable : ∀ pid fd fdIdx, 3 ≤ fd → s'.fdTable pid fd = some fdIdx →
      s.fdTable pid fd = some fdIdx)
    (fileTable : ∀ fdIdx, s'.IsOpenSlot fdIdx → s'.fileTable fdIdx = s.fileTable fdIdx)
    (writeDeny : ∀ fdIdx ptr, s'.WritesTo fdIdx ptr → s.WritesTo fdIdx ptr →
      (s.inode ptr).writeDeny = true → (s'.inode ptr).writeDeny = true) : s'.WritersInv := by
  have wasOpen : ∀ {fdIdx}, s'.IsOpenSlot fdIdx → s.IsOpenSlot fdIdx := by
    rintro fdIdx ⟨pid, fd, low, isFd⟩
    exact ⟨pid, fd, low, fdTable pid fd fdIdx low isFd⟩
  have wasWriter : ∀ {fdIdx ptr}, s'.WritesTo fdIdx ptr → s.WritesTo fdIdx ptr := by
    rintro fdIdx ptr ⟨isOpen, inode, writes⟩
    rw [fileTable fdIdx isOpen] at inode writes
    exact ⟨wasOpen isOpen, inode, writes⟩
  constructor
  case distinct =>
    intro ptr mem ptr' mem' sameNo
    have mem := openInodes ptr mem
    have mem' := openInodes ptr' mem'
    rw [iNo ptr mem, iNo ptr' mem'] at sameNo
    exact inv.distinct ptr mem ptr' mem' sameNo
  case used =>
    intro ptr mem
    have mem := openInodes ptr mem
    rw [inodeBitmap, iNo ptr mem]
    exact inv.used ptr mem
  case taken =>
    intro fdIdx isOpen
    rw [fileTable fdIdx isOpen]
    exact inv.taken fdIdx (wasOpen isOpen)
  case unshared =>
    intro pid fd pid' fd' fdIdx low low' isFd isFd'
    exact inv.unshared pid fd pid' fd' fdIdx low low' (fdTable pid fd fdIdx low isFd)
      (fdTable pid' fd' fdIdx low' isFd')
  case denied =>
    intro fdIdx ptr writer
    have old := wasWriter writer
    exact writeDeny fdIdx ptr writer old (inv.denied fdIdx ptr old)
  case one =>
    intro fdIdx fdIdx' ptr writer writer'
    exact inv.one fdIdx fdIdx' ptr (wasWriter writer) (wasWriter writer')

/-- A change of the counts, or that sets `write_deny`. -/
theorem WritersInv.congr (inv : s.WritersInv)
    (openInodes : ∀ ptr ∈ s'.openInodes, ptr ∈ s.openInodes)
    (iNo : ∀ ptr, (s'.inode ptr).iNo = (s.inode ptr).iNo)
    (inodeBitmap : s'.inodeBitmap = s.inodeBitmap) (fdTable : s'.fdTable = s.fdTable)
    (fileTable : s'.fileTable = s.fileTable)
    (writeDeny : ∀ ptr, (s.inode ptr).writeDeny = true → (s'.inode ptr).writeDeny = true) :
    s'.WritersInv :=
  inv.shrink openInodes (fun ptr _ => iNo ptr) inodeBitmap
    (fun _ _ _ _ isFd => by rwa [fdTable] at isFd) (fun _ _ => by rw [fileTable])
    fun _ ptr _ _ isDenied => writeDeny ptr isDenied

theorem IsOpenSlot.of_eq {fdIdx : Nat} (isOpen : s'.IsOpenSlot fdIdx)
    (fdTable : s'.fdTable = s.fdTable) : s.IsOpenSlot fdIdx := by
  unfold IsOpenSlot at *
  rwa [fdTable] at isOpen

theorem WritesTo.of_eq {fdIdx : Nat} (writer : s'.WritesTo fdIdx ptr)
    (fdTable : s'.fdTable = s.fdTable) (file : s'.fileTable fdIdx = s.fileTable fdIdx) :
    s.WritesTo fdIdx ptr := by
  obtain ⟨isOpen, inode, writes⟩ := writer
  rw [file] at inode writes
  exact ⟨isOpen.of_eq fdTable, inode, writes⟩

theorem WritersInv.setFile (inv : s.WritersInv) {fdIdx : Nat}
    (isFree : (s.fileTable fdIdx).fdInode = none) (file : File) :
    (s.setFile fdIdx file).WritersInv := by
  refine inv.shrink (fun _ mem => mem) (fun _ _ => rfl) rfl (fun _ _ _ _ isFd => isFd)
    (fun idx isOpen => ?_) fun _ _ _ _ isDenied => isDenied
  refine Function.update_of_ne (fun same => inv.taken idx (isOpen.of_eq rfl) ?_) _ _
  rw [same]
  exact isFree

theorem WritersInv.setWriteDeny_true (inv : s.WritersInv) (ptr : InodePtr) :
    (s.setWriteDeny ptr true).WritersInv := by
  refine inv.congr (fun _ mem => mem) (s.setWriteDeny_iNo ptr true) rfl rfl rfl
    fun other isDenied => ?_
  by_cases same : other = ptr
  · subst same
    simp [setWriteDeny, setInode]
  · simpa [setWriteDeny, setInode, same] using isDenied

/-- A new inode on the list, under a number that no other has. -/
theorem WritersInv.newInode (inv : s.WritersInv) (tables : s.Tables held)
    (notLive : s.heap ptr = none) (pool : PoolFlags) {iNo : Nat}
    (new : ∀ other ∈ s.openInodes, (s.inode other).iNo ≠ iNo) :
    WritersInv { s with
      heap := Function.update s.heap ptr (some pool)
      inode := Function.update s.inode ptr ⟨iNo, 1, false⟩
      openInodes := ptr :: s.openInodes
      inodeBitmap := Function.update s.inodeBitmap iNo true } := by
  have ne : ∀ other ∈ s.openInodes, other ≠ ptr := by
    rintro other mem rfl
    exact tables.not_mem notLive mem
  have old : ∀ {other}, other ∈ ptr :: s.openInodes → other ≠ ptr → other ∈ s.openInodes :=
    fun mem notPtr => (List.mem_cons.mp mem).resolve_left notPtr
  constructor
  case distinct =>
    intro first mem second mem' sameNo
    by_cases isNew : first = ptr
    · by_cases isNew' : second = ptr
      · rw [isNew, isNew']
      · simp only [isNew, Function.update_self, Function.update_of_ne isNew'] at sameNo
        exact absurd sameNo.symm (new second (old mem' isNew'))
    · by_cases isNew' : second = ptr
      · simp only [isNew', Function.update_self, Function.update_of_ne isNew] at sameNo
        exact absurd sameNo (new first (old mem isNew))
      · simp only [Function.update_of_ne isNew, Function.update_of_ne isNew'] at sameNo
        exact inv.distinct first (old mem isNew) second (old mem' isNew') sameNo
  case used =>
    intro other mem
    by_cases isNew : other = ptr
    · simp [isNew]
    · have := inv.used other (old mem isNew)
      simp only [Function.update_of_ne isNew]
      by_cases sameNo : (s.inode other).iNo = iNo
      · simp [sameNo]
      · simpa [sameNo] using this
  case taken => exact inv.taken
  case unshared => exact inv.unshared
  case denied =>
    intro fdIdx other writer
    have writer : s.WritesTo fdIdx other := writer.of_eq rfl rfl
    have notPtr := ne other (tables.slot fdIdx other writer.inode)
    simpa [notPtr] using inv.denied fdIdx other writer
  case one =>
    exact fun fdIdx fdIdx' other writer writer' =>
      inv.one fdIdx fdIdx' other (writer.of_eq rfl rfl) (writer'.of_eq rfl rfl)

theorem WritersInv.inodeOpen (inv : s.WritersInv) (tables : s.Tables held) {iNo : Nat}
    {found : InodePtr} (inUse : s.inodeBitmap iNo = true)
    (opened : s.inodeOpen iNo ptr = some (s', found)) : s'.WritersInv := by
  rcases inodeOpen_cases opened with ⟨_, _, rfl⟩ | ⟨rfl, notLive, _, new, rfl⟩
  · refine inv.congr (fun _ mem => mem) (s.iNo_setInode found rfl) rfl rfl rfl
      fun other isDenied => ?_
    by_cases same : other = found
    · subst same
      simpa [OpenFiles.countUp, setInode] using isDenied
    · simpa [OpenFiles.countUp, setInode, same] using isDenied
  · have linked := inv.newInode tables notLive .kernel new
    rwa [← inUse, Function.update_eq_self] at linked

/-- What `inode_close` leaves alone. -/
theorem inodeClose_frame (closed : s.inodeClose ptr = some s') :
    (∀ other ∈ s'.openInodes, other ∈ s.openInodes) ∧
    (∀ other, (s'.inode other).iNo = (s.inode other).iNo ∧
      (s'.inode other).writeDeny = (s.inode other).writeDeny) ∧
    s'.inodeBitmap = s.inodeBitmap ∧ s'.fdTable = s.fdTable ∧ s'.fileTable = s.fileTable := by
  have sameInode : ∀ cnts other,
      (Function.update s.inode ptr { s.inode ptr with iOpenCnts := cnts } other).iNo =
        (s.inode other).iNo ∧
      (Function.update s.inode ptr { s.inode ptr with iOpenCnts := cnts } other).writeDeny =
        (s.inode other).writeDeny := by
    intro cnts other
    by_cases same : other = ptr
    · subst same
      simp
    · simp [same]
  rcases inodeClose_cases closed with ⟨_, rfl⟩ | ⟨_, _, rfl⟩
  · exact ⟨fun _ mem => mem, sameInode _, rfl, rfl, rfl⟩
  · exact ⟨fun _ mem => List.mem_of_mem_erase mem, sameInode _, rfl, rfl, rfl⟩

theorem WritersInv.inodeClose (inv : s.WritersInv) (closed : s.inodeClose ptr = some s') :
    s'.WritersInv := by
  obtain ⟨openInodes, inode, inodeBitmap, fdTable, fileTable⟩ := inodeClose_frame closed
  exact inv.congr openInodes (fun other => (inode other).1) inodeBitmap fdTable fileTable
    fun other isDenied => by rw [(inode other).2, isDenied]

/-- A slot gets its descriptor. If it is for writing, `write_deny` is set and no
other open slot writes to the inode. -/
theorem WritersInv.newFd (inv : s.WritersInv) (pid : Pid) (localFd : Nat) {fdIdx : Nat}
    {fdTable : Pid → Nat → Option Nat}
    (fdCases : ∀ other fd idx, fdTable other fd = some idx →
      (other = pid ∧ fd = localFd ∧ idx = fdIdx) ∨ s.fdTable other fd = some idx)
    (notOpen : ¬ s.IsOpenSlot fdIdx) (isRef : (s.fileTable fdIdx).fdInode = some ptr)
    (writer : opensForWriting (s.fileTable fdIdx).fdFlag = true → (s.inode ptr).writeDeny = true ∧
      ∀ other, ¬ s.WritesTo other ptr) : WritersInv { s with fdTable := fdTable } := by
  have openCases : ∀ idx, IsOpenSlot { s with fdTable := fdTable } idx →
      idx = fdIdx ∨ s.IsOpenSlot idx := by
    rintro idx ⟨other, fd, low, isFd⟩
    rcases fdCases other fd idx isFd with ⟨_, _, same⟩ | isFd
    · exact .inl same
    · exact .inr ⟨other, fd, low, isFd⟩
  have writerCases : ∀ idx other, WritesTo { s with fdTable := fdTable } idx other →
      (idx = fdIdx ∧ other = ptr ∧ opensForWriting (s.fileTable fdIdx).fdFlag = true) ∨
        s.WritesTo idx other := by
    rintro idx other ⟨isOpen, inode, writes⟩
    rcases openCases idx isOpen with rfl | isOpen
    · refine .inl ⟨rfl, ?_, writes⟩
      exact (Option.some.inj (isRef.symm.trans inode)).symm
    · exact .inr ⟨isOpen, inode, writes⟩
  constructor
  case distinct => exact inv.distinct
  case used => exact inv.used
  case taken =>
    intro idx isOpen
    rcases openCases idx isOpen with rfl | isOpen
    · show (s.fileTable idx).fdInode ≠ none
      rw [isRef]
      simp
    · exact inv.taken idx isOpen
  case unshared =>
    intro first fd₁ second fd₂ idx low₁ low₂ isFd₁ isFd₂
    rcases fdCases first fd₁ idx isFd₁ with ⟨rfl, rfl, rfl⟩ | old₁
    · rcases fdCases second fd₂ idx isFd₂ with ⟨rfl, rfl, _⟩ | old₂
      · exact ⟨rfl, rfl⟩
      · exact absurd ⟨second, fd₂, low₂, old₂⟩ notOpen
    · rcases fdCases second fd₂ idx isFd₂ with ⟨rfl, rfl, rfl⟩ | old₂
      · exact absurd ⟨first, fd₁, low₁, old₁⟩ notOpen
      · exact inv.unshared first fd₁ second fd₂ idx low₁ low₂ old₁ old₂
  case denied =>
    intro idx other isWriter
    rcases writerCases idx other isWriter with ⟨_, rfl, writes⟩ | isWriter
    · exact (writer writes).1
    · exact inv.denied idx other isWriter
  case one =>
    intro idx idx' other isWriter isWriter'
    rcases writerCases idx other isWriter with ⟨rfl, rfl, writes⟩ | isWriter
    · rcases writerCases idx' other isWriter' with ⟨rfl, _, _⟩ | isWriter'
      · rfl
      · exact absurd isWriter' ((writer writes).2 idx')
    · rcases writerCases idx' other isWriter' with ⟨rfl, rfl, writes⟩ | isWriter'
      · exact absurd isWriter ((writer writes).2 idx)
      · exact inv.one idx idx' other isWriter isWriter'

theorem WritersInv.pcbFdInstall (inv : s.WritersInv) {pid : Pid} {fdIdx : Nat} {fd : Option Nat}
    (installed : s.pcbFdInstall pid fdIdx = (s', fd)) (notOpen : ¬ s.IsOpenSlot fdIdx)
    (isRef : (s.fileTable fdIdx).fdInode = some ptr)
    (writer : opensForWriting (s.fileTable fdIdx).fdFlag = true → (s.inode ptr).writeDeny = true ∧
      ∀ other, ¬ s.WritesTo other ptr) : s'.WritersInv := by
  rcases pcbFdInstall_cases installed with ⟨_, rfl⟩ | ⟨localFd, _, _, _, _, rfl⟩
  · exact inv
  · refine inv.newFd pid localFd (fun other fd' idx isFd => ?_) notOpen isRef writer
    by_cases samePid : other = pid
    · subst samePid
      by_cases sameFd : fd' = localFd
      · subst sameFd
        simp only [Function.update_self, Option.some.injEq] at isFd
        exact .inl ⟨rfl, rfl, isFd.symm⟩
      · exact .inr (by simpa [sameFd] using isFd)
    · exact .inr (by simpa [samePid] using isFd)

/-- `file_open` up to the slot. -/
theorem WritersInv.openSlot (inv : s.WritersInv) (tables : s.Tables held) (flag : Nat)
    {iNo fdIdx : Nat} {found : InodePtr} (inUse : s.inodeBitmap iNo = true) (slot : s.getFreeSlotInGlobal = some fdIdx)
    (opened : s.inodeOpen iNo ptr = some (s', found)) :
    (s'.setFile fdIdx ⟨0, flag, some found⟩).WritersInv ∧
      ¬ (s'.setFile fdIdx ⟨0, flag, some found⟩).IsOpenSlot fdIdx := by
  have inv₁ := inv.inodeOpen tables inUse opened
  have isFree : (s'.fileTable fdIdx).fdInode = none := by
    rw [(inodeOpen_fileTable opened).1]
    exact (getFreeSlot_some slot).2.2
  exact ⟨inv₁.setFile isFree _, fun isOpen => inv₁.taken fdIdx isOpen isFree⟩

theorem WritersInv.fileOpen (inv : s.WritersInv) (tables : s.Tables held) {pid : Pid}
    {iNo flag : Nat} {result : OpenFiles × Option Nat} (inUse : s.inodeBitmap iNo = true)
    (isOpen : s.fileOpen pid iNo flag ptr = some result) : result.1.WritersInv := by
  cases fileOpen_cases isOpen with
  | full => exact inv
  | refused slot opened _ _ => exact (inv.openSlot tables flag inUse slot opened).1
  | @writer s₁ found fdIdx _ slot opened _ notBusy installed =>
      obtain ⟨inv₁, notOpen⟩ := inv.openSlot tables flag inUse slot opened
      refine (inv₁.setWriteDeny_true found).pcbFdInstall installed notOpen
        (congrArg File.fdInode (setFile_self s₁ fdIdx _)) fun _ => ?_
      refine ⟨by simp [setWriteDeny, setInode], fun other isWriter => ?_⟩
      -- `write_deny` was clear, so there was no writer
      have isDenied := inv₁.denied other found (isWriter.of_eq rfl rfl)
      rw [setFile_inode, notBusy] at isDenied
      cases isDenied
  | @reader s₁ found fdIdx _ slot opened reads installed =>
      obtain ⟨inv₁, notOpen⟩ := inv.openSlot tables flag inUse slot opened
      refine inv₁.pcbFdInstall installed notOpen (congrArg File.fdInode (setFile_self s₁ fdIdx _))
        fun writes => ?_
      rw [setFile_self] at writes
      rw [reads] at writes
      cases writes

/-- `file_create` that fails, or of a file that is not written to. -/
theorem WritersInv.fileCreate (inv : s.WritersInv) (tables : s.Tables held) {pid : Pid}
    {iNo flag : Nat} {block : Option InodePtr} {synced : Bool} {fd : Option Nat}
    (notLost : ¬ s.LosesWriteDeny (.create pid iNo flag block synced))
    (result : s.fileCreate pid iNo flag block synced = some (s', fd)) : s'.WritersInv := by
  obtain ⟨notUsed, ⟨_, same, _⟩ | ⟨ptr, fdIdx, rfl, isSynced, notLive, _, slot, installed⟩⟩ :=
    fileCreate_cases result
  · refine inv.shrink (fun ptr mem => by rwa [same.openInodes] at mem) (fun ptr mem => ?_)
      same.inodeBitmap (fun _ _ _ _ isFd => by rwa [same.fdTable] at isFd) (fun fdIdx isOpen => ?_)
      fun fdIdx ptr _ writer isDenied => ?_
    · rw [same.inode ptr (tables.live ptr mem)]
    · exact same.fileTable fdIdx (inv.taken fdIdx (isOpen.of_eq same.fdTable))
    · rwa [same.inode ptr (tables.live ptr (tables.slot fdIdx ptr writer.inode))]
  · have reads : ¬ opensForWriting flag = true := fun writes =>
      notLost ⟨writes, Option.some_ne_none ptr, by simp [slot], isSynced⟩
    have isFree := (getFreeSlot_some slot).2.2
    have new : ∀ other ∈ s.openInodes, (s.inode other).iNo ≠ iNo := by
      rintro other mem rfl
      rw [inv.used other mem] at notUsed
      cases notUsed
    have inv₁ := (inv.newInode tables notLive (if s.pgdirNull pid then .kernel else .user)
      new).setFile (by exact isFree) ⟨0, flag, some ptr⟩
    refine WritersInv.pcbFdInstall inv₁ installed (fun isOpen => ?_)
      (congrArg File.fdInode (setFile_self _ fdIdx _)) fun writes => ?_
    · exact inv.taken fdIdx (isOpen.of_eq rfl) isFree
    · rw [setFile_self] at writes
      exact absurd writes reads

/-- `sys_close`, when no other open slot writes to the inode. -/
theorem WritersInv.sysClose (inv : s.WritersInv) {pid : Pid} {fd : Nat}
    (notLost : ¬ s.LosesWriteDeny (.close pid fd)) (closed : s.sysClose pid fd = some s') :
    s'.WritersInv := by
  rcases sysClose_cases closed with ⟨_, rfl⟩ |
    ⟨fdIdx, found, s₁, isFile, isFd, _, isRef, closedInode, rfl⟩
  · exact inv
  have noWriter : ∀ other, other ≠ fdIdx → ¬ s.WritesTo other found := fun other ne writer =>
    notLost ⟨isFile, fdIdx, found, other, isFd, isRef, ne, writer⟩
  obtain ⟨openInodes, inode, inodeBitmap, fdTable, fileTable⟩ := inodeClose_frame closedInode
  have fdTable : s₁.fdTable = s.fdTable := fdTable
  -- the descriptors that are left are old ones, of other slots
  have stays : ∀ other fd' idx, 3 ≤ fd' → Function.update s₁.fdTable pid
      (Function.update (s₁.fdTable pid) fd none) other fd' = some idx →
      s.fdTable other fd' = some idx ∧ idx ≠ fdIdx := by
    intro other fd' idx low isFd'
    rw [fdTable] at isFd'
    have isOther : other ≠ pid ∨ fd' ≠ fd := by
      rw [← not_and_or]
      rintro ⟨rfl, rfl⟩
      simp at isFd'
    have isOld : s.fdTable other fd' = some idx := by
      by_cases samePid : other = pid
      · subst samePid
        have ne : fd' ≠ fd := isOther.resolve_left fun absurd => absurd rfl
        simpa [ne] using isFd'
      · simpa [samePid] using isFd'
    refine ⟨isOld, ?_⟩
    rintro rfl
    obtain ⟨samePid, sameFd⟩ := inv.unshared other fd' pid fd idx low isFile isOld isFd
    exact (not_and_or.mpr isOther) ⟨samePid, sameFd⟩
  refine inv.shrink openInodes (fun ptr _ => ?_) inodeBitmap
    (fun other fd' idx low isFd' => (stays other fd' idx low isFd').1) (fun idx isOpen => ?_)
    fun idx ptr writer old isDenied => ?_
  · rw [(inode ptr).1]
    simp
  · show s₁.fileTable idx = s.fileTable idx
    obtain ⟨other, fd', low, isFd'⟩ := isOpen
    rw [fileTable]
    exact Function.update_of_ne (stays other fd' idx low isFd').2 _ _
  · show (s₁.inode ptr).writeDeny = true
    rw [(inode ptr).2]
    have ne : ptr ≠ found := by
      rintro rfl
      obtain ⟨other, fd', low, isFd'⟩ := writer.isOpen
      exact noWriter idx (stays other fd' idx low isFd').2 old
    simpa [setWriteDeny, setInode, ne] using isDenied

end OpenFiles

open OpenFiles

theorem FileCall.exec_writersInv {s s' : OpenFiles} {held : List InodePtr} {call : FileCall}
    {fd : Option Nat} (inv : s.WritersInv) (tables : s.Tables held)
    (isCall : s.OpensOrCloses call) (notLost : ¬ s.LosesWriteDeny call)
    (executed : call.exec s = some (s', fd)) : s'.WritersInv := by
  cases call with
  | dirOpen iNo ptr =>
      simp only [exec, OpenFiles.dirOpen, Option.map_eq_some_iff, Prod.mk.injEq, Option.bind_eq_bind,
        Option.bind_eq_some_iff] at executed
      obtain ⟨_, ⟨⟨s₁, found⟩, opened, result⟩, rfl, _⟩ := executed
      cases result
      exact (inv.inodeOpen tables isCall opened).congr (fun _ mem => mem) (fun _ => rfl) rfl rfl rfl
        fun _ isDenied => isDenied
  | dirClose ptr =>
      simp only [exec, OpenFiles.dirClose, Option.map_eq_some_iff, Prod.mk.injEq] at executed
      obtain ⟨_, closed, rfl, _⟩ := executed
      split at closed
      · have inv₁ : WritersInv { s with dirs := s.dirs.erase ptr } :=
          inv.congr (fun _ mem => mem) (fun _ => rfl) rfl rfl rfl fun _ isDenied => isDenied
        exact inv₁.inodeClose closed
      · cases closed
  | release iNo ptr => exact isCall.elim
  | openFile pid iNo flag ptr => exact inv.fileOpen tables isCall executed
  | create pid iNo flag block synced => exact inv.fileCreate tables notLost executed
  | close pid fd =>
      simp only [exec, Option.map_eq_some_iff, Prod.mk.injEq] at executed
      obtain ⟨_, closed, rfl, _⟩ := executed
      exact inv.sysClose notLost closed
  | fork parent child => exact isCall.elim

theorem NoFilesOpen.writersInv {s : OpenFiles} {root : InodePtr} (start : NoFilesOpen s root) :
    s.WritersInv := by
  have noSlot : ∀ fdIdx, ¬ s.IsOpenSlot fdIdx := by
    rintro fdIdx ⟨pid, fd, low, isFd⟩
    rw [start.fdTable pid fd low] at isFd
    cases isFd
  refine ⟨?_, ?_, fun fdIdx isOpen => absurd isOpen (noSlot fdIdx),
    fun pid fd _ _ fdIdx low _ isFd _ => absurd ⟨pid, fd, low, isFd⟩ (noSlot fdIdx),
    fun fdIdx _ writer => absurd writer.isOpen (noSlot fdIdx),
    fun fdIdx _ _ writer _ => absurd writer.isOpen (noSlot fdIdx)⟩
  · rw [start.openInodes]
    intro ptr mem ptr' mem' _
    rw [List.mem_singleton.mp mem, List.mem_singleton.mp mem']
  · rw [start.openInodes]
    intro ptr mem
    obtain rfl := List.mem_singleton.mp mem
    rw [start.rootInode]
    exact start.rootUsed

/-! ### Runs -/

/-- The runs of `sys_open` and `sys_close` in which `write_deny` is not lost. -/
abbrev WriterRun : OpenFiles → OpenFiles → Prop :=
  Relation.ReflTransGen (FileStep fun s call => s.OpensOrCloses call ∧ ¬ s.LosesWriteDeny call)

theorem WriterRun.inv {start s : OpenFiles} {root : InodePtr} (isStart : NoFilesOpen start root)
    (run : WriterRun start s) : s.WritersInv ∧ s.Tables [root] := by
  induction run with
  | refl => exact ⟨isStart.writersInv, isStart.tables⟩
  | tail _ step inductionHypothesis =>
      obtain ⟨inv, tables⟩ := inductionHypothesis
      obtain ⟨call, fd, ⟨isCall, notLost⟩, executed⟩ := step
      exact ⟨call.exec_writersInv inv tables isCall notLost executed,
        call.exec_tables tables executed⟩

/-- In every run of `sys_open` and `sys_close` in which no file is created for
writing, and no slot is closed while another slot of the inode is open for
writing, a file has one writer at most. -/
theorem single_writer {start s : OpenFiles} {root : InodePtr} (isStart : NoFilesOpen start root)
    (run : WriterRun start s) : s.SingleWriter := by
  obtain ⟨inv, tables⟩ := run.inv isStart
  exact inv.singleWriter tables

/-- A kernel thread creates a file without opening it for writing. -/
def fileCreated : OpenFiles :=
  (FileCall.exec bootFiles (.create 0 1 4 (some 0xc0101060) true)).elim bootFiles (·.1)

/-- A process then opens the file for writing, and has the one writer. -/
theorem single_writer_opened :
    ∃ s, FileCall.exec fileCreated (.openFile 1 1 1 0xc01010b0) = some (s, some 3) ∧
      s.WritesTo 4 0xc0101060 ∧ s.SingleWriter := by
  have created : FileStep (fun s call => s.OpensOrCloses call ∧ ¬ s.LosesWriteDeny call) bootFiles
      fileCreated :=
    ⟨.create 0 1 4 (some 0xc0101060) true, some 3, ⟨trivial, by simp [LosesWriteDeny, opensForWriting]⟩,
      rfl⟩
  refine ⟨_, rfl, ⟨⟨1, 3, le_refl 3, rfl⟩, rfl, rfl⟩, ?_⟩
  refine single_writer bootFiles_start (.tail (.single created) ?_)
  exact ⟨.openFile 1 1 1 0xc01010b0, some 3, ⟨rfl, id⟩, rfl⟩

/-- A kernel thread creates a file for reading and writing, and a process opens
it for writing: both succeed. -/
theorem two_writers :
    ∃ s s', FileCall.exec bootFiles (.create 0 1 6 (some 0xc0101060) true) = some (s, some 3) ∧
      FileCall.exec s (.openFile 1 1 1 0xc01010b0) = some (s', some 3) ∧
      s'.WritesTo 3 0xc0101060 ∧ s'.WritesTo 4 0xc0101060 ∧ ¬ s'.SingleWriter := by
  refine ⟨_, _, rfl, rfl, ⟨⟨0, 3, le_refl 3, rfl⟩, rfl, rfl⟩, ⟨⟨1, 3, le_refl 3, rfl⟩, rfl, rfl⟩,
    fun single => ?_⟩
  have same := single.atMostOne 3 0xc0101060 4 0xc0101060 ⟨⟨0, 3, le_refl 3, rfl⟩, rfl, rfl⟩
    ⟨⟨1, 3, le_refl 3, rfl⟩, rfl, rfl⟩ rfl
  omega

end ZyOs.Fs
