import ZyOs.Fs.OpenTables

/-!
Contract: the inodes on the open list are blocks of the kernel heap.

`inode_open` and `inode_close` allocate and free with `pgdir` set to `NULL`, so
that an inode is seen from every address space. `file_create` allocates the inode
of a new file with the `pgdir` of its caller: for a user process the inode that
is put on the list is a block of that process's heap, and `inode_close` fails on
it. Without such a call every inode of every run is a kernel block.
-/

namespace ZyOs.Fs

open ZyOs.Memory

namespace OpenFiles

/-- Every inode on the list is a block of the kernel heap, and closing it frees
it to the kernel pool. -/
structure FreedToOwnPool (s : OpenFiles) : Prop where
  isKernel : ∀ ptr ∈ s.openInodes, kHeapStart ≤ ptr ∧ s.heap ptr = some .kernel
  closes : ∀ ptr ∈ s.openInodes, ∃ s', s.inodeClose ptr = some s'

/-- `file_create` by a user process, when it gets as far as `list_push`. -/
def LinksUserInode (s : OpenFiles) : FileCall → Prop
  | .create pid _ _ ptr synced => s.pgdirNull pid = false ∧ s.Creates ptr synced
  | _ => False

variable {s s' : OpenFiles} {held : List InodePtr} {ptr : InodePtr}

theorem FreedToOwnPool.of_isKernel
    (isKernel : ∀ ptr ∈ s.openInodes, kHeapStart ≤ ptr ∧ s.heap ptr = some .kernel) :
    s.FreedToOwnPool :=
  ⟨isKernel, fun ptr mem => inodeClose_isSome (isKernel ptr mem)⟩

/-- No inode is put on the list and no block of one changes hands. -/
theorem FreedToOwnPool.congr (freed : s.FreedToOwnPool)
    (openInodes : ∀ ptr ∈ s'.openInodes, ptr ∈ s.openInodes)
    (heap : ∀ ptr ∈ s'.openInodes, s'.heap ptr = s.heap ptr) : s'.FreedToOwnPool := by
  refine .of_isKernel fun ptr mem => ?_
  rw [heap ptr mem]
  exact freed.isKernel ptr (openInodes ptr mem)

/-- A kernel block is put on the list. -/
theorem FreedToOwnPool.push (freed : s.FreedToOwnPool) (high : kHeapStart ≤ ptr)
    (openInodes : s'.openInodes = ptr :: s.openInodes)
    (heap : s'.heap = Function.update s.heap ptr (some .kernel)) : s'.FreedToOwnPool := by
  refine .of_isKernel fun other mem => ?_
  rw [heap]
  by_cases same : other = ptr
  · subst same
    exact ⟨high, Function.update_self _ _ _⟩
  · rw [Function.update_of_ne same]
    rw [openInodes] at mem
    exact freed.isKernel other ((List.mem_cons.mp mem).resolve_left same)

theorem FreedToOwnPool.setFile (freed : s.FreedToOwnPool) (fdIdx : Nat) (file : File) :
    (s.setFile fdIdx file).FreedToOwnPool :=
  freed.congr (fun _ mem => mem) fun _ _ => rfl

theorem FreedToOwnPool.setWriteDeny (freed : s.FreedToOwnPool) (ptr : InodePtr) (value : Bool) :
    (s.setWriteDeny ptr value).FreedToOwnPool :=
  freed.congr (fun _ mem => mem) fun _ _ => rfl

theorem FreedToOwnPool.inodeOpen (freed : s.FreedToOwnPool) {iNo : Nat} {found : InodePtr}
    (opened : s.inodeOpen iNo ptr = some (s', found)) : s'.FreedToOwnPool := by
  rcases inodeOpen_cases opened with ⟨_, _, rfl⟩ | ⟨rfl, _, high, _, rfl⟩
  · exact freed.congr (fun _ mem => mem) fun _ _ => rfl
  · exact freed.push high rfl rfl

theorem FreedToOwnPool.inodeClose (freed : s.FreedToOwnPool) (tables : s.Tables held)
    (closed : s.inodeClose ptr = some s') : s'.FreedToOwnPool := by
  rcases inodeClose_cases closed with ⟨_, rfl⟩ | ⟨_, _, rfl⟩
  · exact freed.congr (fun _ mem => mem) fun _ _ => rfl
  · refine freed.congr (fun _ mem => List.mem_of_mem_erase mem) fun other mem => ?_
    exact Function.update_of_ne ((List.Nodup.mem_erase_iff tables.nodup).mp mem).1 _ _

theorem FreedToOwnPool.pcbFdInstall (freed : s.FreedToOwnPool) {pid : Pid} {globalFdIdx : Nat}
    {fd : Option Nat} (installed : s.pcbFdInstall pid globalFdIdx = (s', fd)) :
    s'.FreedToOwnPool := by
  rcases pcbFdInstall_cases installed with ⟨_, rfl⟩ | ⟨_, _, _, _, _, rfl⟩
  · exact freed
  · exact freed.congr (fun _ mem => mem) fun _ _ => rfl

theorem FreedToOwnPool.fileOpen (freed : s.FreedToOwnPool) {pid : Pid} {iNo flag : Nat}
    {result : OpenFiles × Option Nat} (isOpen : s.fileOpen pid iNo flag ptr = some result) :
    result.1.FreedToOwnPool := by
  cases fileOpen_cases isOpen with
  | full => exact freed
  | refused _ opened _ _ => exact (freed.inodeOpen opened).setFile _ _
  | writer _ opened _ _ installed =>
      exact (((freed.inodeOpen opened).setFile _ _).setWriteDeny _ _).pcbFdInstall installed
  | reader _ opened _ installed =>
      exact ((freed.inodeOpen opened).setFile _ _).pcbFdInstall installed

theorem FreedToOwnPool.fileCreate (freed : s.FreedToOwnPool) {pid : Pid} {iNo flag : Nat}
    {block : Option InodePtr} {synced : Bool} {fd : Option Nat}
    (notUser : ¬ s.LinksUserInode (.create pid iNo flag block synced))
    (result : s.fileCreate pid iNo flag block synced = some (s', fd)) : s'.FreedToOwnPool := by
  obtain ⟨_, ⟨_, same, _⟩ | ⟨ptr, fdIdx, rfl, isSynced, _, isIn, slot, installed⟩⟩ :=
    fileCreate_cases result
  · refine freed.congr (fun ptr mem => ?_) fun ptr _ => by rw [same.heap]
    rwa [same.openInodes] at mem
  · have isThread : s.pgdirNull pid = true := by
      by_contra isUser
      exact notUser ⟨by simpa using isUser, by simp, by simp [slot], isSynced⟩
    have high : kHeapStart ≤ ptr := by simpa [inHeap, isThread] using isIn
    refine FreedToOwnPool.pcbFdInstall ?_ installed
    refine freed.push high rfl ?_
    simp [created, OpenFiles.setFile, isThread]

theorem FreedToOwnPool.sysClose (freed : s.FreedToOwnPool) (tables : s.Tables held) {pid : Pid}
    {fd : Nat} (closed : s.sysClose pid fd = some s') : s'.FreedToOwnPool := by
  rcases sysClose_cases closed with ⟨_, rfl⟩ | ⟨globalFd, found, s₁, _, _, _, isRef, closedInode, rfl⟩
  · exact freed
  · have freed₁ := ((freed.setFile _ _).setWriteDeny _ _).inodeClose
      ((tables.setFile_none isRef rfl).setWriteDeny _ _) closedInode
    exact freed₁.congr (fun _ mem => mem) fun _ _ => rfl

theorem FreedToOwnPool.fork (freed : s.FreedToOwnPool) {parent child : Pid}
    (forked : s.fork parent child = some s') : s'.FreedToOwnPool := by
  obtain ⟨counted, _⟩ := fork_cases forked
  refine freed.congr (fun ptr mem => ?_) fun ptr _ => by rw [counted.heap]
  rwa [counted.openInodes] at mem

end OpenFiles

open OpenFiles

theorem FileCall.exec_freedToOwnPool {s s' : OpenFiles} {held : List InodePtr} {call : FileCall}
    {fd : Option Nat} (freed : s.FreedToOwnPool) (tables : s.Tables held)
    (notUser : ¬ s.LinksUserInode call) (executed : call.exec s = some (s', fd)) :
    s'.FreedToOwnPool := by
  cases call with
  | dirOpen iNo ptr =>
      simp only [exec, OpenFiles.dirOpen, Option.map_eq_some_iff, Prod.mk.injEq, Option.bind_eq_bind,
        Option.bind_eq_some_iff] at executed
      obtain ⟨_, ⟨⟨s₁, found⟩, opened, result⟩, rfl, _⟩ := executed
      cases result
      exact (freed.inodeOpen opened).congr (fun _ mem => mem) fun _ _ => rfl
  | dirClose ptr =>
      simp only [exec, OpenFiles.dirClose, Option.map_eq_some_iff, Prod.mk.injEq] at executed
      obtain ⟨_, closed, rfl, _⟩ := executed
      split at closed
      · rename_i mem
        have freed₁ : FreedToOwnPool { s with dirs := s.dirs.erase ptr } :=
          freed.congr (fun _ mem => mem) fun _ _ => rfl
        exact freed₁.inodeClose (tables.popDir mem) closed
      · cases closed
  | release iNo ptr =>
      simp only [exec, OpenFiles.inodeRelease, Option.map_eq_some_iff, Prod.mk.injEq,
        Option.bind_eq_bind, Option.bind_eq_some_iff] at executed
      obtain ⟨_, ⟨⟨s₁, found⟩, opened, closed⟩, rfl, _⟩ := executed
      have tables₁ := tables.inodeOpen opened
      have freed₁ : (s₁.setInodeBitmap iNo false).FreedToOwnPool :=
        (freed.inodeOpen opened).congr (fun _ mem => mem) fun _ _ => rfl
      have tables₂ : (s₁.setInodeBitmap iNo false).Tables (found :: held) :=
        tables₁.congr rfl tables₁.live rfl rfl fun _ _ => le_refl _
      exact freed₁.inodeClose tables₂ closed
  | openFile pid iNo flag ptr => exact freed.fileOpen executed
  | create pid iNo flag ptr synced => exact freed.fileCreate notUser executed
  | close pid fd =>
      simp only [exec, Option.map_eq_some_iff, Prod.mk.injEq] at executed
      obtain ⟨_, closed, rfl, _⟩ := executed
      exact freed.sysClose tables closed
  | fork parent child =>
      simp only [exec, Option.map_eq_some_iff, Prod.mk.injEq] at executed
      obtain ⟨_, forked, rfl, _⟩ := executed
      exact freed.fork forked

theorem NoFilesOpen.freedToOwnPool {s : OpenFiles} {root : InodePtr} (start : NoFilesOpen s root) :
    s.FreedToOwnPool := by
  refine .of_isKernel fun ptr mem => ?_
  rw [start.openInodes] at mem
  obtain rfl := List.mem_singleton.mp mem
  exact start.rootHeap.symm

/-- A user process that creates a file puts a block of its own heap on the list. -/
theorem FileCall.exec_linksUserInode {s s' : OpenFiles} {call : FileCall} {fd : Option Nat}
    (links : s.LinksUserInode call) (executed : call.exec s = some (s', fd)) :
    ¬ s'.FreedToOwnPool := by
  cases call with
  | create pid iNo flag block synced =>
      obtain ⟨isUser, hasBlock, hasSlot, isSynced⟩ := links
      obtain ⟨_, ⟨_, _, failed⟩ | ⟨ptr, fdIdx, rfl, _, _, _, _, installed⟩⟩ :=
        fileCreate_cases executed
      · rcases failed with noBlock | noSlot | notSynced
        · exact absurd noBlock hasBlock
        · exact absurd noSlot hasSlot
        · rw [isSynced] at notSynced
          cases notSynced
      · intro freed
        have isLinked : ptr ∈ s'.openInodes ∧ s'.heap ptr = some .user := by
          rcases pcbFdInstall_cases installed with ⟨_, rfl⟩ | ⟨_, _, _, _, _, rfl⟩ <;>
            simp [created, OpenFiles.setFile, isUser]
        have isKernel := (freed.isKernel ptr isLinked.1).2
        rw [isLinked.2] at isKernel
        cases isKernel
  | _ => exact links.elim

/-! ### Runs -/

theorem FileStep.freedToOwnPool {start s : OpenFiles} {root : InodePtr}
    (isStart : NoFilesOpen start root)
    (run : Relation.ReflTransGen (FileStep fun s call => ¬ s.LinksUserInode call) start s) :
    s.FreedToOwnPool ∧ s.Tables [root] := by
  induction run with
  | refl => exact ⟨isStart.freedToOwnPool, isStart.tables⟩
  | tail _ step inductionHypothesis =>
      obtain ⟨freed, tables⟩ := inductionHypothesis
      obtain ⟨call, fd, notUser, executed⟩ := step
      exact ⟨call.exec_freedToOwnPool freed tables notUser executed, call.exec_tables tables executed⟩

/-- In every run in which no user process puts the inode of a new file on the
list, every inode of the list is a kernel block and can be closed; after a call
that does, one is not. -/
theorem inodes_freed_to_own_pool {start : OpenFiles} {root : InodePtr}
    (isStart : NoFilesOpen start root) :
    (∀ s, Relation.ReflTransGen (FileStep fun s call => ¬ s.LinksUserInode call) start s →
      s.FreedToOwnPool) ∧
    ∀ (s : OpenFiles) (call : FileCall) (s' : OpenFiles) (fd : Option Nat),
      s.LinksUserInode call → call.exec s = some (s', fd) → ¬ s'.FreedToOwnPool :=
  ⟨fun _ run => (FileStep.freedToOwnPool isStart run).1,
    fun _ call _ _ links executed => call.exec_linksUserInode links executed⟩

/-- A machine with one kernel thread, task 0; the root's inode is at
`0xc0101010`. -/
def bootFiles : OpenFiles where
  pgdirNull pid := pid == 0
  heap ptr := if ptr = 0xc0101010 then some .kernel else none
  inode _ := ⟨0, 1, false⟩
  openInodes := [0xc0101010]
  dirs := []
  inodeBitmap iNo := iNo == 0
  fileTable _ := ⟨0, 0, none⟩
  fdTable _ fd := if fd < 3 then some fd else none

theorem bootFiles_start : NoFilesOpen bootFiles 0xc0101010 :=
  ⟨rfl, rfl, ⟨rfl, by decide⟩, rfl, rfl, fun _ => rfl, fun _ fd low => if_neg (by omega)⟩

/-- The kernel thread creates a file, a process opens it, both close it; then the process opens
file 5. Its inode can be closed again. -/
theorem inodes_freed_to_own_pool_open :
    ∃ s₁ s₂ s₃ s₄ s, FileCall.exec bootFiles (.create 0 1 4 (some 0xc0101060) true) = some (s₁, some 3) ∧
      FileCall.exec s₁ (.openFile 1 1 0 0xc01010b0) = some (s₂, some 3) ∧
      FileCall.exec s₂ (.close 0 3) = some (s₃, none) ∧ FileCall.exec s₃ (.close 1 3) = some (s₄, none) ∧
      s₄.heap 0xc0101060 = none ∧
      FileCall.exec s₄ (.openFile 1 5 0 0xc0101060) = some (s, some 3) ∧
      ∃ s', s.inodeClose 0xc0101060 = some s' := by
  have created : FileStep (fun s call => ¬ s.LinksUserInode call) bootFiles _ :=
    ⟨.create 0 1 4 (some 0xc0101060) true, some 3, fun links => absurd links.1 (by decide), rfl⟩
  have closed := (((Relation.ReflTransGen.single created).tail
    ⟨.openFile 1 1 0 0xc01010b0, some 3, id, rfl⟩).tail ⟨.close 0 3, none, id, rfl⟩).tail
    ⟨.close 1 3, none, id, rfl⟩
  have opened := closed.tail ⟨.openFile 1 5 0 0xc0101060, some 3, id, rfl⟩
  refine ⟨_, _, _, _, _, rfl, rfl, rfl, rfl, rfl, rfl, ?_⟩
  exact ((inodes_freed_to_own_pool bootFiles_start).1 _ opened).closes _ (List.mem_cons_self ..)

/-- A user process creates a file: its inode is at `0x804900c` on the list, and
when the process closes the file `sys_free` fails. -/
theorem user_create_close_fails :
    ∃ start root s, NoFilesOpen start root ∧
      FileCall.exec start (.create 1 1 6 (some 0x804900c) true) = some (s, some 3) ∧
      0x804900c ∈ s.openInodes ∧ s.heap 0x804900c = some .user ∧ ¬ s.FreedToOwnPool ∧
      s.sysClose 1 3 = none := by
  refine ⟨bootFiles, _, _, bootFiles_start, rfl, by decide, rfl, fun freed => ?_, rfl⟩
  obtain ⟨_, closed⟩ := freed.closes 0x804900c (by decide)
  cases closed

end ZyOs.Fs
