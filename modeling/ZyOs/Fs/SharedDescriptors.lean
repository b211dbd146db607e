import ZyOs.Fs.InodePools

/-!
Contract: a descriptor keeps referring to the file it was opened on.

`sys_fork` copies the descriptors of the parent, and the copies share the slots
of `file_table`; `file_close` clears the slot. When a process closes a descriptor
whose slot another process still uses, the descriptor of the other process
refers to an empty slot. In runs without such a close every open descriptor, its
own or inherited, refers to the inode it was opened on.

Owns: the record of what each descriptor was opened on, next to the tables. It is
history only: no call reads it.
-/

namespace ZyOs.Fs

open ZyOs.Memory OpenFiles

/-- The tables, and the inode number each open descriptor was opened on. -/
structure Descriptors where
  files : OpenFiles
  opened : Pid → Nat → Option Nat

/-- How a call changes the record: `sys_open` adds what it returns, `sys_close`
removes it for the calling process, `sys_fork` gives the child the parent's. -/
def FileCall.record (opened : Pid → Nat → Option Nat) :
    FileCall → Option Nat → Pid → Nat → Option Nat
  | .openFile pid iNo _ _, some fd => Function.update opened pid (Function.update (opened pid) fd iNo)
  | .create pid iNo _ _ _, some fd => Function.update opened pid (Function.update (opened pid) fd iNo)
  | .close pid fd, _ => Function.update opened pid (Function.update (opened pid) fd none)
  | .fork parent child, _ => Function.update opened child (opened parent)
  | _, _ => opened

/-- One call, made where `allowed` lets it be made. -/
def DescriptorStep (allowed : OpenFiles → FileCall → Prop) (d d' : Descriptors) : Prop :=
  ∃ call fd, allowed d.files call ∧ call.exec d.files = some (d'.files, fd) ∧
    d'.opened = call.record d.opened fd

/-- Calls made one after the other. -/
def Descriptors.execAll (d : Descriptors) : List FileCall → Option Descriptors
  | [] => some d
  | call :: rest => do
      let (files, fd) ← call.exec d.files
      Descriptors.execAll ⟨files, call.record d.opened fd⟩ rest

theorem Descriptors.execAll_run {allowed : OpenFiles → FileCall → Prop} {calls : List FileCall} :
    ∀ {d d' : Descriptors}, d.execAll calls = some d' → (∀ call ∈ calls, ∀ s, allowed s call) →
      Relation.ReflTransGen (DescriptorStep allowed) d d' := by
  induction calls with
  | nil =>
      intro d d' executed _
      cases executed
      exact .refl
  | cons call rest inductionHypothesis =>
      intro d d' executed isAllowed
      simp only [execAll, Option.bind_eq_bind, Option.bind_eq_some_iff] at executed
      obtain ⟨⟨files, fd⟩, first, others⟩ := executed
      have step : DescriptorStep allowed d ⟨files, call.record d.opened fd⟩ :=
        ⟨call, fd, isAllowed call List.mem_cons_self _, first, rfl⟩
      exact .head step (inductionHypothesis others fun other mem =>
        isAllowed other (List.mem_cons_of_mem _ mem))

/-- Every open descriptor refers, through `fd_table` and `file_table`, to the
inode it was opened on. -/
def Descriptors.Kept (d : Descriptors) : Prop :=
  ∀ pid fd iNo, d.opened pid fd = some iNo →
    ∃ globalFd ptr, d.files.fdTable pid fd = some globalFd ∧
      (d.files.fileTable globalFd).fdInode = some ptr ∧ ptr ∈ d.files.openInodes ∧
      (d.files.inode ptr).iNo = iNo

namespace OpenFiles

/-- `sys_close` of a descriptor whose slot another process uses. -/
def ClosesShared (s : OpenFiles) : FileCall → Prop
  | .close pid fd => 2 < fd ∧ ∃ globalFd, s.fdTable pid fd = some globalFd ∧
      ∃ other fd', other ≠ pid ∧ 2 < fd' ∧ s.fdTable other fd' = some globalFd
  | _ => False

/-! ### Slots in use -/

/-- The slots in use refer to the same files. -/
def SlotsKept (s s' : OpenFiles) : Prop :=
  ∀ fdIdx ptr, (s.fileTable fdIdx).fdInode = some ptr →
    (s'.fileTable fdIdx).fdInode = some ptr ∧ (s'.inode ptr).iNo = (s.inode ptr).iNo

variable {s s' s'' : OpenFiles} {held : List InodePtr} {ptr : InodePtr}

theorem SlotsKept.trans (first : SlotsKept s s') (second : SlotsKept s' s'') : SlotsKept s s'' := by
  intro fdIdx ptr isRef
  obtain ⟨isRef', iNo⟩ := first fdIdx ptr isRef
  obtain ⟨isRef'', iNo'⟩ := second fdIdx ptr isRef'
  exact ⟨isRef'', iNo'.trans iNo⟩

theorem SlotsKept.of_eq (fileTable : s'.fileTable = s.fileTable)
    (iNo : ∀ ptr, (s'.inode ptr).iNo = (s.inode ptr).iNo) : SlotsKept s s' := by
  intro fdIdx ptr isRef
  rw [fileTable]
  exact ⟨isRef, iNo ptr⟩

/-- No field of the inodes but `i_no` matters. -/
theorem iNo_setInode (s : OpenFiles) (ptr : InodePtr) {inode : Inode}
    (sameNo : inode.iNo = (s.inode ptr).iNo) (other : InodePtr) :
    ((s.setInode ptr inode).inode other).iNo = (s.inode other).iNo := by
  by_cases same : other = ptr
  · subst same
    simpa [setInode] using sameNo
  · simp [setInode, same]

@[simp] theorem setFile_self (s : OpenFiles) (fdIdx : Nat) (file : File) :
    (s.setFile fdIdx file).fileTable fdIdx = file :=
  Function.update_self _ _ _

@[simp] theorem setFile_inode (s : OpenFiles) (fdIdx : Nat) (file : File) :
    (s.setFile fdIdx file).inode = s.inode := rfl

@[simp] theorem setWriteDeny_fileTable (s : OpenFiles) (ptr : InodePtr) (value : Bool) :
    (s.setWriteDeny ptr value).fileTable = s.fileTable := rfl

@[simp] theorem setWriteDeny_iNo (s : OpenFiles) (ptr : InodePtr) (value : Bool) (other : InodePtr) :
    ((s.setWriteDeny ptr value).inode other).iNo = (s.inode other).iNo :=
  s.iNo_setInode ptr (by exact rfl) other

theorem SlotsKept.newInode (tables : s.Tables held) (notLive : s.heap ptr = none) (pool : PoolFlags)
    (inode : Inode) :
    SlotsKept s { s with
      heap := Function.update s.heap ptr (some pool)
      inode := Function.update s.inode ptr inode
      openInodes := ptr :: s.openInodes } := by
  intro fdIdx other isRef
  refine ⟨isRef, ?_⟩
  have ne : other ≠ ptr := by
    rintro rfl
    exact tables.live other (tables.slot fdIdx other isRef) notLive
  simp [ne]

theorem SlotsKept.inodeOpen (tables : s.Tables held) {iNo : Nat} {found : InodePtr}
    (opened : s.inodeOpen iNo ptr = some (s', found)) : SlotsKept s s' := by
  rcases inodeOpen_cases opened with ⟨_, _, rfl⟩ | ⟨rfl, notLive, _, _, rfl⟩
  · exact .of_eq rfl (s.iNo_setInode _ rfl)
  · exact .newInode tables notLive _ _

theorem SlotsKept.inodeClose (closed : s.inodeClose ptr = some s') : SlotsKept s s' := by
  rcases inodeClose_cases closed with ⟨_, rfl⟩ | ⟨_, _, rfl⟩
  · exact .of_eq rfl (s.iNo_setInode _ rfl)
  · exact .of_eq rfl (s.iNo_setInode ptr (by exact rfl))

theorem SlotsKept.setFile {fdIdx : Nat} (isFree : (s.fileTable fdIdx).fdInode = none) (file : File) :
    SlotsKept s (s.setFile fdIdx file) := by
  intro idx other isRef
  have ne : idx ≠ fdIdx := by
    rintro rfl
    rw [isFree] at isRef
    cases isRef
  exact ⟨by simpa [OpenFiles.setFile, ne] using isRef, rfl⟩

theorem SlotsKept.setWriteDeny (s : OpenFiles) (ptr : InodePtr) (value : Bool) :
    SlotsKept s (s.setWriteDeny ptr value) :=
  .of_eq rfl (s.setWriteDeny_iNo ptr value)

theorem SlotsKept.pcbFdInstall {pid : Pid} {globalFdIdx : Nat} {fd : Option Nat}
    (installed : s.pcbFdInstall pid globalFdIdx = (s', fd)) : SlotsKept s s' := by
  rcases pcbFdInstall_cases installed with ⟨_, rfl⟩ | ⟨_, _, _, _, _, rfl⟩ <;>
    exact .of_eq rfl fun _ => rfl

/-- `inode_open` returns an inode with the number that was asked for. -/
theorem inodeOpen_iNo {iNo : Nat} {found : InodePtr}
    (opened : s.inodeOpen iNo ptr = some (s', found)) : (s'.inode found).iNo = iNo := by
  rcases inodeOpen_cases opened with ⟨_, isNo, rfl⟩ | ⟨rfl, _, _, _, rfl⟩
  · rw [← isNo]
    exact s.iNo_setInode found (by exact rfl) found
  · simp

/-! ### `sys_open` -/

/-- A new descriptor, when there is one, refers through a slot that was free to
the file that was opened; the other descriptors stay. -/
def Installed (s s' : OpenFiles) (pid : Pid) (iNo : Nat) : Option Nat → Prop
  | none => s'.fdTable = s.fdTable
  | some localFd => 3 ≤ localFd ∧ s.fdTable pid localFd = none ∧
      ∃ fdIdx found, (s.fileTable fdIdx).fdInode = none ∧
        (s'.fileTable fdIdx).fdInode = some found ∧ (s'.inode found).iNo = iNo ∧
        s'.fdTable = Function.update s.fdTable pid
          (Function.update (s.fdTable pid) localFd (some fdIdx))

/-- The last part of `sys_open`, from the state `s₁` in which the slot is set. -/
theorem Installed.pcbFdInstall {s₁ : OpenFiles} {pid : Pid} {iNo fdIdx : Nat} {found : InodePtr}
    {fd : Option Nat} (installed : s₁.pcbFdInstall pid fdIdx = (s', fd))
    (isFree : (s.fileTable fdIdx).fdInode = none)
    (isRef : (s₁.fileTable fdIdx).fdInode = some found) (isNo : (s₁.inode found).iNo = iNo)
    (fdTable : s₁.fdTable = s.fdTable) : Installed s s' pid iNo fd := by
  rcases pcbFdInstall_cases installed with ⟨rfl, rfl⟩ | ⟨localFd, rfl, low, _, notUsed, rfl⟩
  · exact fdTable
  · rw [fdTable] at notUsed
    refine ⟨low, notUsed, fdIdx, found, isFree, isRef, isNo, ?_⟩
    rw [fdTable]

theorem fileOpen_installed (tables : s.Tables held) {pid : Pid} {iNo flag : Nat} {fd : Option Nat}
    (isOpen : s.fileOpen pid iNo flag ptr = some (s', fd)) :
    SlotsKept s s' ∧ Installed s s' pid iNo fd := by
  have slotSet : ∀ {s₁ : OpenFiles} {found : InodePtr} {fdIdx : Nat},
      s.getFreeSlotInGlobal = some fdIdx → s.inodeOpen iNo ptr = some (s₁, found) →
      SlotsKept s (s₁.setFile fdIdx ⟨0, flag, some found⟩) ∧ s₁.fdTable = s.fdTable := by
    intro s₁ found fdIdx slot opened
    obtain ⟨fileTable, fdTable, _⟩ := inodeOpen_fileTable opened
    refine ⟨(SlotsKept.inodeOpen tables opened).trans (.setFile ?_ _), fdTable⟩
    rw [fileTable]
    exact (getFreeSlot_some slot).2.2
  cases fileOpen_cases isOpen with
  | full => exact ⟨.of_eq rfl fun _ => rfl, rfl⟩
  | refused slot opened _ _ => exact slotSet slot opened
  | @writer s₁ found fdIdx _ slot opened _ _ installed =>
      obtain ⟨kept, fdTable⟩ := slotSet slot opened
      refine ⟨(kept.trans (.setWriteDeny _ _ _)).trans (.pcbFdInstall installed), ?_⟩
      have isNo : (((s₁.setFile fdIdx ⟨0, flag, some found⟩).setWriteDeny found true).inode
          found).iNo = iNo := by
        simpa using inodeOpen_iNo opened
      exact .pcbFdInstall installed (getFreeSlot_some slot).2.2 (by simp) isNo fdTable
  | @reader s₁ found fdIdx _ slot opened _ installed =>
      obtain ⟨kept, fdTable⟩ := slotSet slot opened
      refine ⟨kept.trans (.pcbFdInstall installed), ?_⟩
      have isNo : ((s₁.setFile fdIdx ⟨0, flag, some found⟩).inode found).iNo = iNo := by
        simpa using inodeOpen_iNo opened
      exact .pcbFdInstall installed (getFreeSlot_some slot).2.2 (by simp) isNo fdTable

theorem fileCreate_installed (tables : s.Tables held) {pid : Pid} {iNo flag : Nat}
    {block : Option InodePtr} {synced : Bool} {fd : Option Nat}
    (result : s.fileCreate pid iNo flag block synced = some (s', fd)) :
    SlotsKept s s' ∧ Installed s s' pid iNo fd := by
  obtain ⟨_, ⟨rfl, same, _⟩ | ⟨ptr, fdIdx, rfl, _, notLive, _, slot, installed⟩⟩ :=
    fileCreate_cases result
  · refine ⟨fun idx ptr isRef => ⟨?_, ?_⟩, same.fdTable⟩
    · rw [same.fdInode]
      exact isRef
    · rw [same.inode ptr (tables.live ptr (tables.slot idx ptr isRef))]
  · have isFree := (getFreeSlot_some slot).2.2
    have kept : SlotsKept s (s.created pid iNo flag ptr fdIdx) :=
      (SlotsKept.newInode tables notLive (if s.pgdirNull pid then .kernel else .user)
        ⟨iNo, 1, false⟩).trans (.setFile (by exact isFree) ⟨0, flag, some ptr⟩)
    refine ⟨kept.trans (.pcbFdInstall installed), ?_⟩
    have isNo : ((s.created pid iNo flag ptr fdIdx).inode ptr).iNo = iNo := by
      simp [created]
    exact .pcbFdInstall installed isFree (by simp [created]) isNo rfl

end OpenFiles

/-! ### Every call but a shared close keeps the descriptors -/

namespace Descriptors

structure Inv (d : Descriptors) (held : List InodePtr) : Prop where
  tables : d.files.Tables held
  refers : ∀ pid fd, 3 ≤ fd → ∀ globalFd, d.files.fdTable pid fd = some globalFd →
    ∃ ptr, (d.files.fileTable globalFd).fdInode = some ptr ∧
      d.opened pid fd = some (d.files.inode ptr).iNo
  isFd : ∀ pid fd, d.opened pid fd ≠ none → 3 ≤ fd ∧ d.files.fdTable pid fd ≠ none
  distinct : ∀ pid fd fd' globalFd, 3 ≤ fd → 3 ≤ fd' → d.files.fdTable pid fd = some globalFd →
    d.files.fdTable pid fd' = some globalFd → fd = fd'

variable {d d' : Descriptors} {held : List InodePtr}

theorem Inv.kept (inv : d.Inv held) : d.Kept := by
  intro pid fd iNo isOpen
  obtain ⟨low, notNone⟩ := inv.isFd pid fd (by simp [isOpen])
  obtain ⟨globalFd, isFd⟩ := Option.ne_none_iff_exists'.mp notNone
  obtain ⟨ptr, isRef, isNo⟩ := inv.refers pid fd low globalFd isFd
  rw [isOpen] at isNo
  exact ⟨globalFd, ptr, isFd, isRef, inv.tables.slot globalFd ptr isRef, (Option.some.inj isNo).symm⟩

/-- A call that leaves the descriptors alone. -/
theorem Inv.congr (inv : d.Inv held) (tables : d'.files.Tables held)
    (kept : SlotsKept d.files d'.files) (fdTable : d'.files.fdTable = d.files.fdTable)
    (opened : d'.opened = d.opened) : d'.Inv held := by
  refine ⟨tables, fun pid fd low globalFd isFd => ?_, ?_, ?_⟩
  · rw [fdTable] at isFd
    obtain ⟨ptr, isRef, isNo⟩ := inv.refers pid fd low globalFd isFd
    obtain ⟨isRef', sameNo⟩ := kept globalFd ptr isRef
    exact ⟨ptr, isRef', by rw [opened, isNo, sameNo]⟩
  · rw [fdTable, opened]
    exact inv.isFd
  · rw [fdTable]
    exact inv.distinct

/-- `sys_open`, from either of its branches. -/
theorem Inv.installed (inv : d.Inv held) (tables : d'.files.Tables held)
    (kept : SlotsKept d.files d'.files) {pid : Pid} {iNo : Nat} {localFd : Nat}
    (new : Installed d.files d'.files pid iNo (some localFd))
    (opened : d'.opened = Function.update d.opened pid
      (Function.update (d.opened pid) localFd (some iNo))) : d'.Inv held := by
  obtain ⟨low, notUsed, fdIdx, found, isFree, isRef, isNo, fdTable⟩ := new
  -- no descriptor referred to the slot before
  have notIn : ∀ other fd, 3 ≤ fd → d.files.fdTable other fd ≠ some fdIdx := by
    intro other fd low isFd
    obtain ⟨ptr, isRef, _⟩ := inv.refers other fd low fdIdx isFd
    rw [isFree] at isRef
    cases isRef
  have oldFd : ∀ other fd, (other ≠ pid ∨ fd ≠ localFd) →
      d'.files.fdTable other fd = d.files.fdTable other fd ∧ d'.opened other fd = d.opened other fd := by
    intro other fd ne
    rw [fdTable, opened]
    by_cases samePid : other = pid
    · subst samePid
      have ne : fd ≠ localFd := ne.resolve_left (fun absurd => absurd rfl)
      simp [ne]
    · simp [samePid]
  have newFd : d'.files.fdTable pid localFd = some fdIdx ∧ d'.opened pid localFd = some iNo := by
    rw [fdTable, opened]
    simp
  refine ⟨tables, fun other fd low' globalFd isFd => ?_, fun other fd isOpen => ?_,
    fun other fd fd' globalFd low₁ low₂ isFd₁ isFd₂ => ?_⟩
  · by_cases isNew : other = pid ∧ fd = localFd
    · obtain ⟨rfl, rfl⟩ := isNew
      rw [newFd.1] at isFd
      cases isFd
      exact ⟨found, isRef, by rw [newFd.2, isNo]⟩
    · obtain ⟨sameFd, sameOpen⟩ := oldFd other fd (not_and_or.mp isNew)
      rw [sameFd] at isFd
      obtain ⟨ptr, isRef', isNo'⟩ := inv.refers other fd low' globalFd isFd
      obtain ⟨isRef'', sameNo⟩ := kept globalFd ptr isRef'
      exact ⟨ptr, isRef'', by rw [sameOpen, isNo', sameNo]⟩
  · by_cases isNew : other = pid ∧ fd = localFd
    · obtain ⟨rfl, rfl⟩ := isNew
      exact ⟨low, by simp [newFd.1]⟩
    · obtain ⟨sameFd, sameOpen⟩ := oldFd other fd (not_and_or.mp isNew)
      rw [sameFd]
      rw [sameOpen] at isOpen
      exact inv.isFd other fd isOpen
  · by_cases isNew₁ : other = pid ∧ fd = localFd
    · by_cases isNew₂ : other = pid ∧ fd' = localFd
      · rw [isNew₁.2, isNew₂.2]
      · obtain ⟨rfl, rfl⟩ := isNew₁
        rw [newFd.1] at isFd₁
        cases isFd₁
        rw [(oldFd other fd' (not_and_or.mp isNew₂)).1] at isFd₂
        exact absurd isFd₂ (notIn other fd' low₂)
    · rw [(oldFd other fd (not_and_or.mp isNew₁)).1] at isFd₁
      by_cases isNew₂ : other = pid ∧ fd' = localFd
      · obtain ⟨rfl, rfl⟩ := isNew₂
        rw [newFd.1] at isFd₂
        cases isFd₂
        exact absurd isFd₁ (notIn other fd low₁)
      · rw [(oldFd other fd' (not_and_or.mp isNew₂)).1] at isFd₂
        exact inv.distinct other fd fd' globalFd low₁ low₂ isFd₁ isFd₂

/-- A close clears one slot, and one descriptor of the process. -/
theorem sysClose_slots {s s' : OpenFiles} {pid : Pid} {fd : Nat}
    (closed : s.sysClose pid fd = some s') (isFile : 2 < fd) :
    ∃ globalFd, s.fdTable pid fd = some globalFd ∧ (s'.fileTable globalFd).fdInode = none ∧
      (∀ fdIdx ptr, fdIdx ≠ globalFd → (s.fileTable fdIdx).fdInode = some ptr →
        (s'.fileTable fdIdx).fdInode = some ptr ∧ (s'.inode ptr).iNo = (s.inode ptr).iNo) ∧
      s'.fdTable = Function.update s.fdTable pid (Function.update (s.fdTable pid) fd none) := by
  rcases sysClose_cases closed with ⟨low, _⟩ | ⟨globalFd, found, s₁, _, isFd, _, _, closedInode, rfl⟩
  · omega
  · have kept := SlotsKept.inodeClose closedInode
    have tables : s₁.fileTable = (s.setFile globalFd { s.fileTable globalFd with
        fdInode := none }).fileTable ∧ s₁.fdTable = s.fdTable := by
      rcases inodeClose_cases closedInode with ⟨_, rfl⟩ | ⟨_, _, rfl⟩ <;> exact ⟨rfl, rfl⟩
    obtain ⟨fileTable, fdTable⟩ := tables
    refine ⟨globalFd, isFd, ?_, fun fdIdx ptr ne isRef => ?_, by rw [fdTable]⟩
    · show (s₁.fileTable globalFd).fdInode = none
      rw [fileTable, setFile_self]
    · refine (kept fdIdx ptr ?_).imp_right fun iNo => ?_
      · simpa [OpenFiles.setFile, ne] using isRef
      · simpa using iNo

theorem Inv.sysClose (inv : d.Inv held) (tables : d'.files.Tables held) {pid : Pid} {fd : Nat}
    (notShared : ¬ d.files.ClosesShared (.close pid fd))
    (closed : d.files.sysClose pid fd = some d'.files)
    (opened : d'.opened = Function.update d.opened pid (Function.update (d.opened pid) fd none)) :
    d'.Inv held := by
  by_cases isFile : 2 < fd
  · obtain ⟨closedFd, isFd, _, kept, fdTable⟩ := sysClose_slots closed isFile
    -- the process's own descriptors have slots of their own, and no other process uses this one
    have notIn : ∀ other fd', 3 ≤ fd' → (other ≠ pid ∨ fd' ≠ fd) →
        d.files.fdTable other fd' ≠ some closedFd := by
      intro other fd' low ne isFd'
      by_cases samePid : other = pid
      · subst samePid
        exact (ne.resolve_left fun absurd => absurd rfl)
          (inv.distinct other fd' fd closedFd low isFile isFd' isFd)
      · exact notShared ⟨isFile, closedFd, isFd, other, fd', samePid, low, isFd'⟩
    have oldFd : ∀ other fd', (other ≠ pid ∨ fd' ≠ fd) →
        d'.files.fdTable other fd' = d.files.fdTable other fd' ∧
          d'.opened other fd' = d.opened other fd' := by
      intro other fd' ne
      rw [fdTable, opened]
      by_cases samePid : other = pid
      · subst samePid
        have ne : fd' ≠ fd := ne.resolve_left (fun absurd => absurd rfl)
        simp [ne]
      · simp [samePid]
    have noFd : d'.files.fdTable pid fd = none ∧ d'.opened pid fd = none := by
      rw [fdTable, opened]
      simp
    have isOld : ∀ {other fd' globalFd}, d'.files.fdTable other fd' = some globalFd →
        (other ≠ pid ∨ fd' ≠ fd) := by
      intro other fd' globalFd isFd'
      rw [← not_and_or]
      rintro ⟨rfl, rfl⟩
      rw [noFd.1] at isFd'
      cases isFd'
    refine ⟨tables, fun other fd' low globalFd isFd' => ?_, fun other fd' isOpen => ?_,
      fun other fd₁ fd₂ globalFd low₁ low₂ isFd₁ isFd₂ => ?_⟩
    · have ne := isOld isFd'
      obtain ⟨sameFd, sameOpen⟩ := oldFd other fd' ne
      rw [sameFd] at isFd'
      obtain ⟨ptr, isRef, isNo⟩ := inv.refers other fd' low globalFd isFd'
      have notClosed : globalFd ≠ closedFd := by
        rintro rfl
        exact notIn other fd' low ne isFd'
      obtain ⟨isRef', sameNo⟩ := kept globalFd ptr notClosed isRef
      exact ⟨ptr, isRef', by rw [sameOpen, isNo, sameNo]⟩
    · have ne : other ≠ pid ∨ fd' ≠ fd := by
        rw [← not_and_or]
        rintro ⟨rfl, rfl⟩
        exact isOpen noFd.2
      obtain ⟨sameFd, sameOpen⟩ := oldFd other fd' ne
      rw [sameFd]
      rw [sameOpen] at isOpen
      exact inv.isFd other fd' isOpen
    · rw [(oldFd other fd₁ (isOld isFd₁)).1] at isFd₁
      rw [(oldFd other fd₂ (isOld isFd₂)).1] at isFd₂
      exact inv.distinct other fd₁ fd₂ globalFd low₁ low₂ isFd₁ isFd₂
  · have sameFiles : d'.files = d.files := by
      rcases sysClose_cases closed with ⟨_, same⟩ | ⟨_, _, _, above, _⟩
      · exact same
      · omega
    have notOpen : d.opened pid fd = none := by
      by_contra isOpen
      have := (inv.isFd pid fd isOpen).1
      omega
    refine inv.congr tables ?_ (by rw [sameFiles]) ?_
    · rw [sameFiles]
      exact .of_eq rfl fun _ => rfl
    · rw [opened, ← notOpen, Function.update_eq_self, Function.update_eq_self]

theorem Inv.fork (inv : d.Inv held) (tables : d'.files.Tables held) {parent child : Pid}
    (forked : d.files.fork parent child = some d'.files)
    (opened : d'.opened = Function.update d.opened child (d.opened parent)) : d'.Inv held := by
  obtain ⟨counted, _⟩ := fork_cases forked
  have fdTable : d'.files.fdTable = Function.update d.files.fdTable child
    (d.files.fdTable parent) := counted.fdTable
  -- each task has the descriptors that some task had before
  have isCopy : ∀ pid, ∃ source, d'.files.fdTable pid = d.files.fdTable source ∧
      d'.opened pid = d.opened source := by
    intro pid
    rw [fdTable, opened]
    by_cases isChild : pid = child
    · exact ⟨parent, by simp [isChild], by simp [isChild]⟩
    · exact ⟨pid, by simp [isChild], by simp [isChild]⟩
  refine ⟨tables, fun pid fd low globalFd isFd => ?_, fun pid fd isOpen => ?_,
    fun pid fd fd' globalFd low low' isFd isFd' => ?_⟩
  · obtain ⟨source, sameFd, sameOpen⟩ := isCopy pid
    rw [sameFd] at isFd
    obtain ⟨ptr, isRef, isNo⟩ := inv.refers source fd low globalFd isFd
    refine ⟨ptr, ?_, ?_⟩
    · rw [counted.fileTable]
      exact isRef
    · rw [sameOpen, isNo, counted.iNo]
  · obtain ⟨source, sameFd, sameOpen⟩ := isCopy pid
    rw [sameOpen] at isOpen
    rw [sameFd]
    exact inv.isFd source fd isOpen
  · obtain ⟨source, sameFd, _⟩ := isCopy pid
    rw [sameFd] at isFd isFd'
    exact inv.distinct source fd fd' globalFd low low' isFd isFd'

theorem inodeClose_fdTable {s s' : OpenFiles} {ptr : InodePtr}
    (closed : s.inodeClose ptr = some s') : s'.fdTable = s.fdTable := by
  rcases inodeClose_cases closed with ⟨_, rfl⟩ | ⟨_, _, rfl⟩ <;> rfl

theorem Inv.step (inv : d.Inv held)
    (step : DescriptorStep (fun s call => ¬ s.ClosesShared call) d d') : d'.Inv held := by
  obtain ⟨call, fd, notShared, executed, opened⟩ := step
  have tables := call.exec_tables inv.tables executed
  cases call with
  | dirOpen iNo ptr =>
      simp only [FileCall.exec, OpenFiles.dirOpen, Option.map_eq_some_iff, Prod.mk.injEq,
        Option.bind_eq_bind, Option.bind_eq_some_iff] at executed
      obtain ⟨_, ⟨⟨s₁, found⟩, isOpen, result⟩, same, _⟩ := executed
      cases result
      refine inv.congr tables ?_ ?_ opened
      · rw [← same]
        have kept := SlotsKept.inodeOpen inv.tables isOpen
        exact kept
      · rw [← same]
        exact (inodeOpen_fileTable isOpen).2.1
  | dirClose ptr =>
      simp only [FileCall.exec, OpenFiles.dirClose, Option.map_eq_some_iff, Prod.mk.injEq] at executed
      obtain ⟨_, closed, same, _⟩ := executed
      split at closed
      · refine inv.congr tables ?_ ?_ opened
        · rw [← same]
          have kept := SlotsKept.inodeClose closed
          exact kept
        · rw [← same]
          have fdTable := inodeClose_fdTable closed
          exact fdTable
      · cases closed
  | release iNo ptr =>
      simp only [FileCall.exec, OpenFiles.inodeRelease, Option.map_eq_some_iff, Prod.mk.injEq,
        Option.bind_eq_bind, Option.bind_eq_some_iff] at executed
      obtain ⟨_, ⟨⟨s₁, found⟩, isOpen, closed⟩, same, _⟩ := executed
      refine inv.congr tables ?_ ?_ opened
      · rw [← same]
        have kept := SlotsKept.inodeClose closed
        exact (SlotsKept.inodeOpen inv.tables isOpen).trans (by exact kept)
      · rw [← same]
        exact (inodeClose_fdTable closed).trans (inodeOpen_fileTable isOpen).2.1
  | openFile pid iNo flag ptr =>
      obtain ⟨kept, new⟩ := fileOpen_installed inv.tables executed
      cases fd with
      | none => exact inv.congr tables kept new opened
      | some localFd => exact inv.installed tables kept new opened
  | create pid iNo flag block synced =>
      obtain ⟨kept, new⟩ := fileCreate_installed inv.tables executed
      cases fd with
      | none => exact inv.congr tables kept new opened
      | some localFd => exact inv.installed tables kept new opened
  | close pid fd =>
      simp only [FileCall.exec, Option.map_eq_some_iff, Prod.mk.injEq] at executed
      obtain ⟨_, closed, rfl, _⟩ := executed
      exact inv.sysClose tables notShared closed opened
  | fork parent child =>
      simp only [FileCall.exec, Option.map_eq_some_iff, Prod.mk.injEq] at executed
      obtain ⟨_, forked, rfl, _⟩ := executed
      exact inv.fork tables forked opened

theorem Inv.start {s : OpenFiles} {root : InodePtr} (isStart : NoFilesOpen s root) :
    Inv ⟨s, fun _ _ => none⟩ [root] := by
  refine ⟨isStart.tables, fun pid fd low globalFd isFd => ?_, fun _ _ isOpen => absurd rfl isOpen,
    fun pid fd fd' globalFd low _ isFd _ => ?_⟩
  · rw [isStart.fdTable pid fd low] at isFd
    cases isFd
  · rw [isStart.fdTable pid fd low] at isFd
    cases isFd

/-- The runs in which no process closes a slot that another one uses. -/
abbrev UnsharedRun (start : OpenFiles) (d : Descriptors) : Prop :=
  Relation.ReflTransGen (DescriptorStep fun s call => ¬ s.ClosesShared call)
    ⟨start, fun _ _ => none⟩ d

theorem UnsharedRun.inv {start : OpenFiles} {root : InodePtr} (isStart : NoFilesOpen start root)
    (run : UnsharedRun start d) : d.Inv [root] := by
  induction run with
  | refl => exact Inv.start isStart
  | tail _ step inductionHypothesis => exact inductionHypothesis.step step

/-- The descriptor of the other process is left without a file. -/
theorem Inv.not_kept (inv : d.Inv held) {call : FileCall} {fd : Option Nat}
    (shared : d.files.ClosesShared call) (executed : call.exec d.files = some (d'.files, fd))
    (opened : d'.opened = call.record d.opened fd) : ¬ d'.Kept := by
  cases call with
  | close pid closedFd =>
      obtain ⟨isFile, globalFd, isFd, other, fd', ne, low, isFd'⟩ := shared
      simp only [FileCall.exec, Option.map_eq_some_iff, Prod.mk.injEq] at executed
      obtain ⟨_, closed, rfl, _⟩ := executed
      obtain ⟨globalFd', isFd'', cleared, _, fdTable⟩ := sysClose_slots closed isFile
      rw [isFd] at isFd''
      cases isFd''
      intro kept
      obtain ⟨ptr, _, isOpen⟩ := inv.refers other fd' low globalFd isFd'
      have stillOpen : d'.opened other fd' = some (d.files.inode ptr).iNo := by
        rw [opened]
        simpa [FileCall.record, ne] using isOpen
      obtain ⟨slot, ptr', sameFd, isRef, _⟩ := kept other fd' _ stillOpen
      have notClosed : d'.files.fdTable other fd' = some globalFd := by
        rw [fdTable]
        simpa [ne] using isFd'
      rw [notClosed] at sameFd
      cases sameFd
      rw [cleared] at isRef
      cases isRef
  | _ => exact shared.elim

/-- In every run in which no process closes a descriptor whose slot another one
uses, every open descriptor refers to the inode it was opened on; after such a
close one does not. -/
theorem descriptors_kept {start : OpenFiles} {root : InodePtr} (isStart : NoFilesOpen start root) :
    (∀ d, UnsharedRun start d → d.Kept) ∧
    ∀ d d' : Descriptors, UnsharedRun start d →
      DescriptorStep (fun s call => s.ClosesShared call) d d' → ¬ d'.Kept := by
  refine ⟨fun d run => (run.inv isStart).kept, fun d d' run step => ?_⟩
  obtain ⟨call, fd, shared, executed, opened⟩ := step
  exact (run.inv isStart).not_kept shared executed opened

/-- A process opens a file, forks, and the child opens another one. -/
theorem descriptors_kept_fork :
    ∃ d, UnsharedRun bootFiles d ∧ d.opened 1 3 = some 5 ∧ d.opened 2 3 = some 5 ∧
      d.opened 2 4 = some 6 ∧ d.Kept := by
  obtain ⟨d, executed, isOpen⟩ : ∃ d, Descriptors.execAll ⟨bootFiles, fun _ _ => none⟩
      [.openFile 1 5 2 0xc0101060, .fork 1 2, .openFile 2 6 0 0xc01010b0] = some d ∧
      d.opened 1 3 = some 5 ∧ d.opened 2 3 = some 5 ∧ d.opened 2 4 = some 6 :=
    ⟨_, rfl, rfl, rfl, rfl⟩
  have run : UnsharedRun bootFiles d := by
    refine execAll_run executed fun call mem s => ?_
    simp only [List.mem_cons, List.not_mem_nil, or_false] at mem
    rcases mem with rfl | rfl | rfl <;> exact id
  exact ⟨d, run, isOpen.1, isOpen.2.1, isOpen.2.2, (descriptors_kept bootFiles_start).1 d run⟩

/-- A process opens a file, forks, and closes the file: the descriptor of the
child refers to an empty slot. -/
theorem child_descriptor_lost :
    ∃ d, Relation.ReflTransGen (DescriptorStep fun _ _ => True) ⟨bootFiles, fun _ _ => none⟩ d ∧
      d.opened 2 3 = some 5 ∧ d.files.fdTable 2 3 = some 3 ∧
      (d.files.fileTable 3).fdInode = none ∧ ¬ d.Kept := by
  obtain ⟨d, executed, isOpen, isFd, isFree⟩ : ∃ d, Descriptors.execAll ⟨bootFiles, fun _ _ => none⟩
      [.openFile 1 5 2 0xc0101060, .fork 1 2, .close 1 3] = some d ∧
      d.opened 2 3 = some 5 ∧ d.files.fdTable 2 3 = some 3 ∧
      (d.files.fileTable 3).fdInode = none :=
    ⟨_, rfl, rfl, rfl, rfl⟩
  refine ⟨d, execAll_run executed fun _ _ _ => trivial, isOpen, isFd, isFree, fun kept => ?_⟩
  obtain ⟨globalFd, ptr, isFd', isRef, _⟩ := kept 2 3 5 isOpen
  rw [isFd] at isFd'
  cases isFd'
  rw [isFree] at isRef
  cases isRef

end Descriptors

end ZyOs.Fs
