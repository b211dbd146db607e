import ZyOs.Kernel.Strings
import ZyOs.Thread.SchedulerInvariant

/-!
Contract: `sys_fork` with the fields of `struct task_struct` that its `ASSERT`s read:
the name, the page directory and the open files, over the scheduler and its lists.

Owns:
- `init_thread`, `process_execute` and `sys_fork`, as far as they set these fields and
  append to the lists;
- every `ASSERT` of `userprog/fork.c`.

`sys_fork` is cut in two where it copies the body, since the lock of the user pool can
switch the task out there. What the allocations return is an argument: a page that is
no task's, or `NULL`.

Does not own: the memory that is copied, and what the files hold.
-/

namespace ZyOs.Userprog.Names

open Kernel Lib
open Thread (Tid)

/-! ### The state -/

/-- `sizeof(name)` in `struct task_struct`. -/
def taskNameLen : Nat := 16

def maxFilesOpenPerProc : Nat := 8

def maxFileOpen : Nat := 32

/-- A name that a caller passes. -/
structure TaskName (len : Nat) where
  text : List UInt8
  noZero : (0 : UInt8) ∉ text
  short : text.length ≤ len

/-- The fields of `struct task_struct` that a fork copies and reads. -/
structure TaskStruct where
  pid : Int
  parentPid : Int
  elapsedTicks : Nat
  name : List UInt8
  fdTable : List Int
  pgdir : Option Nat

/-- How a process came to be: the name given to `process_execute`, and the forks since. -/
structure Lineage where
  name : TaskName 10
  forks : Nat

/-- The lineage of a child. -/
def Lineage.fork (lineage : Lineage) : Lineage := { lineage with forks := lineage.forks + 1 }

/-- A fork that copies the body: the child, its fields and lineage, and the interrupt
status of the caller. -/
structure Pending where
  child : Tid
  fields : TaskStruct
  lineage : Option Lineage
  intr : Bool

/-- The tasks, the scheduler, and `file_table` with the open counts of its inodes. -/
structure System where
  sched : Thread.State
  task : Tid → TaskStruct
  pending : Tid → Option Pending
  lineage : Tid → Option Lineage
  nextPid : Int
  fdInode : Nat → Option Nat
  iOpenCnts : Nat → Nat

/-- What ends a run: first the `ASSERT`s of `userprog/fork.c`. -/
inductive Stop where
  | forkEntry
  | nameLength
  | globalFd
  | inReadyList
  | inAllList
  | outside
  | nullInode
  | scheduler (panic : Thread.Panic)
deriving DecidableEq

def Stop.isAssert : Stop → Bool
  | .forkEntry | .nameLength | .globalFd | .inReadyList | .inAllList => true
  | _ => false

/-- What the allocations of a fork return. -/
structure ForkPages where
  pcb : Option Tid
  bufPage : Option Nat
  vaddrBtmp : Option Nat
  pageDir : Option Nat

/-! ### The functions -/

/-- `allocate_pid`, an `int16_t`. -/
def System.allocatePid (s : System) : Int := (s.nextPid + 1).bmod (2 ^ 16)

/-- `init_thread`. -/
def initThread (pid : Int) (name : List UInt8) : Option TaskStruct := do
  let name ← strcpy (List.replicate taskNameLen 0) name
  return { pid := pid, parentPid := -1, elapsedTicks := 0, name := name
           fdTable := [0, 1, 2, -1, -1, -1, -1, -1], pgdir := none }

/-- A new task is appended to both lists. -/
def linkTask (s : Thread.State) (thread : Tid) (prio : Nat) (resume : Thread.Resume) :
    Except Stop Thread.State :=
  let s := Thread.setResume (Thread.setStatus { s with
    ticks := Function.update s.ticks thread prio
    priority := Function.update s.priority thread prio } thread .ready) thread resume
  if thread ∈ s.readyList then
    .error .inReadyList
  else if thread ∈ s.allList then
    .error .inAllList
  else
    .ok { s with readyList := s.readyList ++ [thread], allList := s.allList ++ [thread] }

/-- `process_execute`. -/
def processExecute (s : System) (thread : Tid) (name : TaskName 10) (pageDir : Nat) :
    Except Stop System :=
  match initThread s.allocatePid name.text, linkTask s.sched thread 31 .kernelThread with
  | some fields, .ok sched => .ok { s with
      sched := sched
      task := Function.update s.task thread { fields with pgdir := some pageDir }
      lineage := Function.update s.lineage thread (some ⟨name, 0⟩)
      nextPid := s.allocatePid }
  | _, _ => .error .outside

/-- `"_fork"`. -/
def forkSuffix : List UInt8 := [95, 102, 111, 114, 107]

/-- `copy_pcb_vaddrbitmap_stack0`; without a bitmap it returns -1. -/
def copyPcbVaddrbitmapStack0 (pid : Int) (parent : TaskStruct) (vaddrBtmp : Option Nat) :
    Except Stop (Option TaskStruct) :=
  match vaddrBtmp with
  | none => .ok none
  | some _ =>
      match strlen parent.name with
      | none => .error .outside
      | some len =>
          if len < 11 then
            match strcat parent.name forkSuffix with
            | none => .error .outside
            | some name => .ok (some { parent with
                pid := pid, parentPid := parent.pid, elapsedTicks := 0, name := name })
          else
            .error .nameLength

/-- `copy_process`, up to the copy of the body. -/
def copyProcess (pid : Int) (parent : TaskStruct) (pages : ForkPages) : Except Stop (Option TaskStruct) :=
  match pages.bufPage with
  | none => .ok none
  | some _ =>
      match copyPcbVaddrbitmapStack0 pid parent pages.vaddrBtmp with
      | .error stop => .error stop
      | .ok none => .ok none
      | .ok (some child) =>
          match pages.pageDir with
          | none => .ok none
          | some pageDir => .ok (some { child with pgdir := some pageDir })

/-- `sys_fork` in the gate of the system call, up to the copy of the body. Where it
returns -1 no task has come or gone. -/
def sysFork (s : System) (pages : ForkPages) : Except Stop System :=
  match pages.pcb with
  | none => .ok s
  | some child =>
      -- the gate has switched interrupts off
      let sched := { s.sched with intr := false }
      if sched.intr = false ∧ (s.task sched.cur).pgdir ≠ none then
        match copyProcess s.allocatePid (s.task sched.cur) pages with
        | .error stop => .error stop
        | .ok none => .ok { s with nextPid := if pages.bufPage = none then s.nextPid else s.allocatePid }
        | .ok (some fields) => .ok { s with
            sched := sched
            pending := Function.update s.pending sched.cur
              (some ⟨child, fields, (s.lineage sched.cur).map Lineage.fork, s.sched.intr⟩)
            nextPid := s.allocatePid }
      else
        .error .forkEntry

/-- The loop of `update_inode_open_cnts`, over the descriptors that are left. -/
def updateInodeOpenCnts (fdInode : Nat → Option Nat) : List Int → (Nat → Nat) →
    Except Stop (Nat → Nat)
  | [], iOpenCnts => .ok iOpenCnts
  | globalFd :: fds, iOpenCnts =>
      if globalFd < maxFileOpen then
        if globalFd ≠ -1 then
          match fdInode globalFd.toNat with
          | none => .error .nullInode
          | some inode =>
              updateInodeOpenCnts fdInode fds (Function.update iOpenCnts inode (iOpenCnts inode + 1))
        else
          updateInodeOpenCnts fdInode fds iOpenCnts
      else
        .error .globalFd

/-- `sys_fork` behind the copy of the body. -/
def sysForkLink (s : System) (fork : Pending) : Except Stop System :=
  match updateInodeOpenCnts s.fdInode (fork.fields.fdTable.drop 3) s.iOpenCnts with
  | .error stop => .error stop
  | .ok iOpenCnts =>
      match linkTask s.sched fork.child (s.sched.priority s.sched.cur) .intrExit with
      | .error stop => .error stop
      | .ok sched => .ok { s with
          sched := { sched with intr := fork.intr }
          task := Function.update s.task fork.child fork.fields
          pending := Function.update s.pending s.sched.cur none
          lineage := Function.update s.lineage fork.child fork.lineage
          iOpenCnts := iOpenCnts }

/-! ### The steps -/

/-- What can happen: the scheduler's own events, a new kernel thread or process, a file
opened or closed by the current task, and the two halves of its fork. -/
inductive Event where
  | sched (event : Thread.Event)
  | threadStart (thread : Tid) (prio : Nat) (name : TaskName 15)
  | processExecute (thread : Tid) (name : TaskName 10) (pageDir : Nat)
  | openFd (localFd globalFd inode : Nat)
  | closeFd (localFd : Nat)
  | fork (pages : ForkPages)
  | forkLink

/-- A page that is no task's, and is not kept for a child. -/
def Fresh (s : System) (thread : Tid) : Prop :=
  s.sched.status thread = none ∧ ∀ parent fork, s.pending parent = some fork → fork.child ≠ thread

/-- The scheduler events that make no task. -/
def IsPlain : Thread.Event → Prop
  | .initThread _ _ => False
  | _ => True

/-- When an event can happen. -/
def Enabled (s : System) : Event → Prop
  | .sched event => Thread.Enabled s.sched event ∧ IsPlain event
  | .threadStart thread prio _ => Thread.Enabled s.sched (.initThread thread prio) ∧ Fresh s thread
  | .processExecute thread _ _ => Fresh s thread
  | .openFd localFd globalFd _ => localFd < maxFilesOpenPerProc ∧ globalFd < maxFileOpen
  | .closeFd localFd => ∃ globalFd, (s.task s.sched.cur).fdTable[localFd]? = some globalFd ∧ globalFd ≠ -1
  | .fork pages => s.sched.resume s.sched.cur = .none ∧ s.pending s.sched.cur = none ∧
      (∃ lineage, s.lineage s.sched.cur = some lineage) ∧ ∀ child, pages.pcb = some child → Fresh s child
  | .forkLink => s.sched.resume s.sched.cur = .none ∧ ∃ fork, s.pending s.sched.cur = some fork

def setFdTable (s : System) (fdTable : List Int) : System :=
  { s with task := Function.update s.task s.sched.cur { s.task s.sched.cur with fdTable := fdTable } }

/-- The effect of an event. -/
def exec (s : System) : Event → Except Stop System
  | .sched event =>
      match Thread.exec s.sched event with
      | .error panic => .error (.scheduler panic)
      | .ok sched => .ok { s with sched := sched }
  | .threadStart thread prio name =>
      match initThread s.allocatePid name.text with
      | none => .error .outside
      | some fields => .ok { s with
          sched := Thread.initThread s.sched thread prio
          task := Function.update s.task thread fields
          lineage := Function.update s.lineage thread none
          nextPid := s.allocatePid }
  | .processExecute thread name pageDir => processExecute s thread name pageDir
  | .openFd localFd globalFd inode =>
      .ok { setFdTable s ((s.task s.sched.cur).fdTable.set localFd globalFd) with
        fdInode := Function.update s.fdInode globalFd (some inode) }
  | .closeFd localFd =>
      .ok { setFdTable s ((s.task s.sched.cur).fdTable.set localFd (-1)) with
        fdInode := match (s.task s.sched.cur).fdTable[localFd]? with
          | some globalFd => Function.update s.fdInode globalFd.toNat none
          | none => s.fdInode }
  | .fork pages => sysFork s pages
  | .forkLink =>
      match s.pending s.sched.cur with
      | none => .ok s
      | some fork => sysForkLink s fork

/-- What `thread_init` leaves, with the names of the two threads. -/
structure Initial (s : System) : Prop where
  sched : Thread.Initial s.sched
  task : ∀ thread, s.sched.status thread ≠ none → ∃ (pid : Int) (name : TaskName 15),
    initThread pid name.text = some (s.task thread)
  pending : ∀ thread, s.pending thread = none
  lineage : ∀ thread, s.lineage thread = none

end ZyOs.Userprog.Names
