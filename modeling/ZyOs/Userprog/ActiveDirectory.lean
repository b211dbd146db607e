import ZyOs.Memory.Pages
import Mathlib.Logic.Relation

/-!
Contract: which page directory is loaded while a process runs kernel code.
`schedule` loads the directory of the next task from its `pgdir`
(`process_activate`); `inode_open` and `inode_close` overwrite `pgdir` around a
heap call, and `copy_body_stack3` loads the child's directory around
`get_a_page_without_opvaddrbitmap`.

Owns:
- `Op`: the operations of these functions that touch `pgdir`, CR3, the interrupt
  flag or a pool lock, in the order of the source;
- `Cpu`: one processor, its CR3 and what each task still has to do;
- a task switch wherever interrupts are enabled or a pool lock is taken.

Does not own: what the heap and the page tables do under the locks.
-/

namespace ZyOs.Userprog

open ZyOs.Memory (PoolFlags)

/-! ### Operations -/

/-- A directory, by the pointer in `pgdir`. -/
abbrev PageDir := Nat

inductive Op where
  /-- `old_status = intr_disable()` -/
  | intrDisable
  /-- `intr_set_status(old_status)` -/
  | intrSetStatus
  /-- `cur_pagedir_bak = cur->pgdir; cur->pgdir = NULL` -/
  | savePgdir
  /-- `cur->pgdir = cur_pagedir_bak` -/
  | restorePgdir
  /-- `lock_acquire(&mem_pool->lock)` in `sys_malloc` and `sys_free` -/
  | heapLock
  | heapUnlock
  | lockAcquire (pf : PoolFlags)
  | lockRelease (pf : PoolFlags)
  /-- `page_dir_activate(child_thread)` -/
  | activateChild (child : PageDir)
  /-- `page_dir_activate(parent_thread)`, after the page of this child -/
  | activateParent (child : PageDir)
deriving DecidableEq, Repr

/-- `sys_malloc` and `sys_free`. -/
def heapCall : List Op := [.heapLock, .heapUnlock]

/-- `inode_open` of an inode that is not open: the inode, then the buffer. -/
def inodeOpen : List Op :=
  [.savePgdir] ++ heapCall ++ [.restorePgdir] ++ heapCall ++ heapCall

/-- `inode_close` by the last user. -/
def inodeClose : List Op :=
  [.intrDisable, .savePgdir] ++ heapCall ++ [.restorePgdir, .intrSetStatus]

/-- `get_a_page_without_opvaddrbitmap(PF_USER, ..)`. -/
def getAPageWithoutOpvaddrbitmap : List Op := [.lockAcquire .user, .lockRelease .user]

/-- The loop of `copy_body_stack3` over the pages of the parent. -/
def copyBodyStack3Ops (child : PageDir) : Nat → List Op
  | 0 => []
  | pages + 1 =>
      [.activateChild child] ++ getAPageWithoutOpvaddrbitmap ++ [.activateParent child] ++
        copyBodyStack3Ops child pages

inductive Call where
  | heap
  | inodeOpen
  | inodeClose
  | fork (child : PageDir) (pages : Nat)
deriving DecidableEq, Repr

def Call.ops : Call → List Op
  | .heap => heapCall
  | .inodeOpen => Userprog.inodeOpen
  | .inodeClose => Userprog.inodeClose
  | .fork child pages => copyBodyStack3Ops child pages

/-- `sys_fork` asserts that interrupts are off and that its caller is a
process. -/
def Call.Asserts (pgdir : Option PageDir) (intrOn : Bool) : Call → Prop
  | .fork _ _ => intrOn = false ∧ pgdir ≠ none
  | _ => True

/-! ### The processor -/

structure TaskDir where
  pgdir : Option PageDir
  pagedirBak : Option PageDir
  /-- The interrupt flag, as it is while the task runs. -/
  intrOn : Bool
  oldStatus : Bool
  ops : List Op
deriving DecidableEq, Repr

/-- `cr3` is `none` for the kernel's directory at `0x100000`. -/
structure Cpu (Task : Type) where
  task : Task → TaskDir
  running : Task
  cr3 : Option PageDir
  lock : PoolFlags → Option Task

section

variable {Task : Type} [DecidableEq Task]

def Cpu.cur (s : Cpu Task) : TaskDir := s.task s.running

def Cpu.setCur (s : Cpu Task) (cur : TaskDir) : Cpu Task :=
  { s with task := Function.update s.task s.running cur }

/-- `page_dir_activate`. -/
def Cpu.pageDirActivate (s : Cpu Task) (pgdir : Option PageDir) : Cpu Task := { s with cr3 := pgdir }

/-- The pool `sys_malloc` and `sys_free` work on. -/
def heapPool (pgdir : Option PageDir) : PoolFlags := if pgdir = none then .kernel else .user

/-- The lock an operation waits for. -/
def Op.waitsFor (pgdir : Option PageDir) : Op → Option PoolFlags
  | .heapLock => some (heapPool pgdir)
  | .lockAcquire pf => some pf
  | _ => none

/-- One operation of the running task, when it need not wait. -/
def Cpu.exec (s : Cpu Task) : Op → Cpu Task
  | .intrDisable => s.setCur { s.cur with oldStatus := s.cur.intrOn, intrOn := false }
  | .intrSetStatus => s.setCur { s.cur with intrOn := s.cur.oldStatus }
  | .savePgdir => s.setCur { s.cur with pagedirBak := s.cur.pgdir, pgdir := none }
  | .restorePgdir => s.setCur { s.cur with pgdir := s.cur.pagedirBak }
  | .heapLock => { s with lock := Function.update s.lock (heapPool s.cur.pgdir) (some s.running) }
  | .heapUnlock => { s with lock := Function.update s.lock (heapPool s.cur.pgdir) none }
  | .lockAcquire pf => { s with lock := Function.update s.lock pf (some s.running) }
  | .lockRelease pf => { s with lock := Function.update s.lock pf none }
  | .activateChild child => s.pageDirActivate (some child)
  | .activateParent _ => s.pageDirActivate s.cur.pgdir

/-- The end of `schedule`: `process_activate(next)` and `switch_to`. -/
def Cpu.switchTo (s : Cpu Task) (next : Task) : Cpu Task :=
  { s.pageDirActivate (s.task next).pgdir with running := next }

/-- The running task starts a call. -/
def Cpu.start (s : Cpu Task) (call : Call) (intrOn : Bool) : Cpu Task :=
  s.setCur { s.cur with intrOn := intrOn, ops := call.ops }

/-- The steps of the processor. `mayLeave` is a condition on the state in which
a task is switched out. -/
inductive Cpu.Step (mayLeave : Cpu Task → Prop) : Cpu Task → Cpu Task → Prop where
  | call {s : Cpu Task} (call : Call) (intrOn : Bool) (idle : s.cur.ops = [])
      (asserts : call.Asserts s.cur.pgdir intrOn) :
      Cpu.Step mayLeave s (s.start call intrOn)
  | op {s : Cpu Task} {op : Op} {rest : List Op} (next : s.cur.ops = op :: rest)
      (free : ∀ pf, op.waitsFor s.cur.pgdir = some pf → s.lock pf = none) :
      Cpu.Step mayLeave s ((s.setCur { s.cur with ops := rest }).exec op)
  | preempt {s : Cpu Task} (next : Task) (enabled : s.cur.intrOn = true) (leaves : mayLeave s) :
      Cpu.Step mayLeave s (s.switchTo next)
  | block {s : Cpu Task} {op : Op} {rest : List Op} {pf : PoolFlags} (next : Task)
      (waiting : s.cur.ops = op :: rest) (waits : op.waitsFor s.cur.pgdir = some pf)
      (held : s.lock pf ≠ none) (leaves : mayLeave s) :
      Cpu.Step mayLeave s (s.switchTo next)

/-- The running task does its next operation. -/
def Cpu.next (s : Cpu Task) : Cpu Task :=
  match s.cur.ops with
  | [] => s
  | op :: rest => (s.setCur { s.cur with ops := rest }).exec op

def Cpu.canRun (s : Cpu Task) : Bool :=
  match s.cur.ops with
  | [] => false
  | op :: _ =>
      match op.waitsFor s.cur.pgdir with
      | none => true
      | some pf => (s.lock pf).isNone

theorem Cpu.next_step {mayLeave : Cpu Task → Prop} {s : Cpu Task} (canRun : s.canRun = true) :
    Cpu.Step mayLeave s s.next := by
  cases ops : s.cur.ops with
  | nil => simp [Cpu.canRun, ops] at canRun
  | cons op rest =>
      have isNext : s.next = (s.setCur { s.cur with ops := rest }).exec op := by
        simp only [Cpu.next, ops]
      rw [isNext]
      refine .op ops fun pf waits => ?_
      simpa [Cpu.canRun, ops, waits] using canRun

/-- The running task waits for a lock that is held. -/
def Cpu.isBlocked (s : Cpu Task) : Bool :=
  match s.cur.ops with
  | [] => false
  | op :: _ =>
      match op.waitsFor s.cur.pgdir with
      | none => false
      | some pf => (s.lock pf).isSome

theorem Cpu.block_step {mayLeave : Cpu Task → Prop} {s : Cpu Task} (isBlocked : s.isBlocked = true)
    (leaves : mayLeave s) (next : Task) : Cpu.Step mayLeave s (s.switchTo next) := by
  cases ops : s.cur.ops with
  | nil => simp [Cpu.isBlocked, ops] at isBlocked
  | cons op rest =>
      cases waits : op.waitsFor s.cur.pgdir with
      | none => simp [Cpu.isBlocked, ops, waits] at isBlocked
      | some pf =>
          refine .block next ops waits ?_ leaves
          simpa [Cpu.isBlocked, ops, waits, ← Option.isSome_iff_ne_none] using isBlocked

/-! ### Windows -/

/-- Where a task is with respect to the stretches in which `pgdir` or CR3 is not
its own. -/
inductive Window where
  | outside
  | pgdirNull
  | child (dir : PageDir)
deriving DecidableEq, Repr

/-- The window a task is in, by what it still has to do. -/
def window : List Op → Window
  | [] => .outside
  | .restorePgdir :: _ => .pgdirNull
  | .activateParent child :: _ => .child child
  | .savePgdir :: _ => .outside
  | .activateChild _ :: _ => .outside
  | _ :: rest => window rest

/-- The directory that has to be loaded while a process with directory `own`
runs. -/
def Window.dir (own : PageDir) : Window → PageDir
  | .child dir => dir
  | _ => own

/-- The running process has its own directory loaded, or its child's inside
`copy_body_stack3`. -/
def DirectoryLoaded (own : Task → Option PageDir) (s : Cpu Task) : Prop :=
  ∀ dir, s.cur.pgdir = some dir → own s.running = some dir ∧
    s.cr3 = some ((window s.cur.ops).dir dir)

/-- All tasks are outside the kernel's heap and file-system code, and the
running one has its directory loaded; kernel threads have no directory. -/
structure CpuInitial (own : Task → Option PageDir) (s : Cpu Task) : Prop where
  pgdir : ∀ t, (s.task t).pgdir = own t
  ops : ∀ t, (s.task t).ops = []
  cr3 : s.cr3 = own s.running
  locks : ∀ pf, s.lock pf = none

/-! ### What the windows keep -/

/-- The operation neither opens nor closes a window. -/
def Op.isPlain : Op → Bool
  | .savePgdir | .restorePgdir | .activateChild _ | .activateParent _ => false
  | _ => true

/-- What is left of a call, from inside a window on. -/
inductive Balanced : Window → List Op → Prop where
  | nil : Balanced .outside []
  | save {rest : List Op} (balanced : Balanced .pgdirNull rest) :
      Balanced .outside (.savePgdir :: rest)
  | restore {rest : List Op} (balanced : Balanced .outside rest) :
      Balanced .pgdirNull (.restorePgdir :: rest)
  | enter {rest : List Op} {child : PageDir} (balanced : Balanced (.child child) rest) :
      Balanced .outside (.activateChild child :: rest)
  | leave {rest : List Op} {child : PageDir} (balanced : Balanced .outside rest) :
      Balanced (.child child) (.activateParent child :: rest)
  | inside {w : Window} {op : Op} {rest : List Op} (plain : op.isPlain = true)
      (balanced : Balanced w rest) : Balanced w (op :: rest)

theorem window_plain {op : Op} (plain : op.isPlain = true) (rest : List Op) :
    window (op :: rest) = window rest := by
  cases op <;> first | rfl | cases plain

theorem Balanced.window_eq {w : Window} {ops : List Op} (balanced : Balanced w ops) :
    window ops = w := by
  induction balanced with
  | inside plain _ inductionHypothesis => rw [window_plain plain, inductionHypothesis]
  | _ => rfl

theorem copyBodyStack3Ops_balanced (child : PageDir) (pages : Nat) :
    Balanced .outside (copyBodyStack3Ops child pages) := by
  induction pages with
  | zero => exact .nil
  | succ pages inductionHypothesis =>
      exact .enter (.inside rfl (.inside rfl (.leave inductionHypothesis)))

theorem Call.balanced (call : Call) : Balanced .outside call.ops := by
  cases call with
  | heap => exact .inside rfl (.inside rfl .nil)
  | inodeOpen =>
      have buffer : Balanced .outside (heapCall ++ heapCall) :=
        .inside rfl (.inside rfl (.inside rfl (.inside rfl .nil)))
      exact .save (.inside rfl (.inside rfl (.restore buffer)))
  | inodeClose =>
      exact .inside rfl (.save (.inside rfl (.inside rfl (.restore (.inside rfl .nil)))))
  | fork child pages => exact copyBodyStack3Ops_balanced child pages

/-- What holds while no task is switched out inside a window. -/
structure CpuInv (own : Task → Option PageDir) (s : Cpu Task) : Prop where
  balanced : ∀ t, Balanced (window (s.task t).ops) (s.task t).ops
  pgdir : ∀ t, window (s.task t).ops ≠ .pgdirNull → (s.task t).pgdir = own t
  saved : ∀ t, window (s.task t).ops = .pgdirNull →
    (s.task t).pgdir = none ∧ (s.task t).pagedirBak = own t
  away : ∀ t, t ≠ s.running → window (s.task t).ops = .outside
  cr3 : ∀ dir, own s.running = some dir → s.cr3 = some ((window s.cur.ops).dir dir)

section

variable {own : Task → Option PageDir} {s : Cpu Task}

@[simp]
theorem Cpu.setCur_cur (s : Cpu Task) (cur : TaskDir) : (s.setCur cur).cur = cur := by
  simp [Cpu.cur, Cpu.setCur]

@[simp]
theorem Cpu.setCur_setCur (s : Cpu Task) (first second : TaskDir) :
    (s.setCur first).setCur second = s.setCur second := by
  simp [Cpu.setCur]

theorem Cpu.setCur_task (s : Cpu Task) (cur : TaskDir) (t : Task) :
    (s.setCur cur).task t = if t = s.running then cur else s.task t := by
  simp only [Cpu.setCur, Function.update_apply]

/-- The running task moves on. -/
theorem CpuInv.setCur (inv : CpuInv own s) (cur : TaskDir) {cr3 : Option PageDir}
    (balanced : Balanced (window cur.ops) cur.ops)
    (pgdir : window cur.ops ≠ .pgdirNull → cur.pgdir = own s.running)
    (saved : window cur.ops = .pgdirNull → cur.pgdir = none ∧ cur.pagedirBak = own s.running)
    (loaded : ∀ dir, own s.running = some dir → cr3 = some ((window cur.ops).dir dir))
    (lock : PoolFlags → Option Task) :
    CpuInv own { s.setCur cur with cr3 := cr3, lock := lock } := by
  constructor
  case balanced =>
    intro t
    rw [Cpu.setCur_task]
    split
    · exact balanced
    · exact inv.balanced t
  case pgdir =>
    intro t
    rw [Cpu.setCur_task]
    split
    · rename_i same
      subst same
      exact pgdir
    · exact inv.pgdir t
  case saved =>
    intro t
    rw [Cpu.setCur_task]
    split
    · rename_i same
      subst same
      exact saved
    · exact inv.saved t
  case away =>
    intro t (other : t ≠ s.running)
    rw [Cpu.setCur_task, if_neg other]
    exact inv.away t other
  case cr3 =>
    intro dir isOwn
    have := loaded dir isOwn
    simpa [Cpu.cur, Cpu.setCur] using this

theorem CpuInv.op (inv : CpuInv own s) {op : Op} {rest : List Op} (next : s.cur.ops = op :: rest) :
    CpuInv own ((s.setCur { s.cur with ops := rest }).exec op) := by
  obtain ⟨w, isWindow⟩ : ∃ w, w = window (op :: rest) := ⟨_, rfl⟩
  have balanced : Balanced w (op :: rest) := by
    rw [isWindow, ← next]
    exact inv.balanced s.running
  have pgdir : w ≠ .pgdirNull → s.cur.pgdir = own s.running := by
    rw [isWindow, ← next]
    exact inv.pgdir s.running
  have saved : w = .pgdirNull → s.cur.pgdir = none ∧ s.cur.pagedirBak = own s.running := by
    rw [isWindow, ← next]
    exact inv.saved s.running
  have loaded : ∀ dir, own s.running = some dir → s.cr3 = some (w.dir dir) := by
    rw [isWindow, ← next]
    exact inv.cr3
  clear isWindow
  cases balanced with
  | save restBalanced =>
      have inWindow := restBalanced.window_eq
      simp only [Cpu.exec, Cpu.setCur_cur, Cpu.setCur_setCur]
      refine inv.setCur _ (by rw [inWindow]; exact restBalanced) (absurd inWindow) ?_ ?_ s.lock
      · exact fun _ => ⟨rfl, pgdir (by simp)⟩
      · rw [inWindow]
        exact loaded
  | restore restBalanced =>
      have outside := restBalanced.window_eq
      simp only [Cpu.exec, Cpu.setCur_cur, Cpu.setCur_setCur]
      refine inv.setCur _ (by rw [outside]; exact restBalanced) (fun _ => (saved rfl).2) ?_ ?_
        s.lock
      · rw [outside]
        intro absurd
        cases absurd
      · rw [outside]
        exact loaded
  | enter restBalanced =>
      have inWindow := restBalanced.window_eq
      simp only [Cpu.exec, Cpu.pageDirActivate]
      refine inv.setCur { s.cur with ops := rest } (by rw [inWindow]; exact restBalanced)
        (fun _ => pgdir (by simp)) ?_ ?_ s.lock
      · rw [inWindow]
        intro absurd
        cases absurd
      · rw [inWindow]
        exact fun _ _ => rfl
  | leave restBalanced =>
      have outside := restBalanced.window_eq
      simp only [Cpu.exec, Cpu.pageDirActivate, Cpu.setCur_cur]
      refine inv.setCur { s.cur with ops := rest } (by rw [outside]; exact restBalanced)
        (fun _ => pgdir (by simp)) ?_ ?_ s.lock
      · rw [outside]
        intro absurd
        cases absurd
      · rw [outside, pgdir (by simp)]
        exact fun _ isOwn => isOwn
  | inside plain restBalanced =>
      have sameWindow := restBalanced.window_eq
      have stays : ∀ cur : TaskDir, cur.ops = rest → cur.pgdir = s.cur.pgdir →
          cur.pagedirBak = s.cur.pagedirBak → ∀ lock,
          CpuInv own { s.setCur cur with cr3 := s.cr3, lock := lock } := by
        intro cur ops samePgdir sameBak lock
        refine inv.setCur cur ?_ ?_ ?_ ?_ lock <;> rw [ops, sameWindow]
        · exact restBalanced
        · rw [samePgdir]
          exact pgdir
        · rw [samePgdir, sameBak]
          exact saved
        · exact loaded
      cases op with
      | savePgdir => cases plain
      | restorePgdir => cases plain
      | activateChild => cases plain
      | activateParent => cases plain
      | intrDisable =>
          simp only [Cpu.exec, Cpu.setCur_cur, Cpu.setCur_setCur]
          exact stays { s.cur with ops := rest, oldStatus := s.cur.intrOn, intrOn := false } rfl rfl
            rfl s.lock
      | intrSetStatus =>
          simp only [Cpu.exec, Cpu.setCur_cur, Cpu.setCur_setCur]
          exact stays { s.cur with ops := rest, intrOn := s.cur.oldStatus } rfl rfl rfl s.lock
      | heapLock => exact stays { s.cur with ops := rest } rfl rfl rfl _
      | heapUnlock => exact stays { s.cur with ops := rest } rfl rfl rfl _
      | lockAcquire pf => exact stays { s.cur with ops := rest } rfl rfl rfl _
      | lockRelease pf => exact stays { s.cur with ops := rest } rfl rfl rfl _

/-- A switch outside the windows. -/
theorem CpuInv.switchTo (inv : CpuInv own s) (outside : window s.cur.ops = .outside) (next : Task) :
    CpuInv own (s.switchTo next) := by
  have allOutside : ∀ t, window (s.task t).ops = .outside := by
    intro t
    by_cases same : t = s.running
    · rw [same]
      exact outside
    · exact inv.away t same
  refine ⟨inv.balanced, inv.pgdir, inv.saved, fun t _ => allOutside t, fun dir isOwn => ?_⟩
  have pgdir : (s.task next).pgdir = own next := inv.pgdir next (by rw [allOutside]; simp)
  have loaded : (s.switchTo next).cr3 = own next := pgdir
  have cur : (s.switchTo next).cur = s.task next := rfl
  rw [loaded, cur, allOutside]
  exact isOwn

theorem CpuInv.step (inv : CpuInv own s) {s' : Cpu Task}
    (step : Cpu.Step (fun s => window s.cur.ops = .outside) s s') : CpuInv own s' := by
  cases step with
  | call call intrOn idle asserts =>
      have balanced := call.balanced
      have before : window s.cur.ops = .outside := by
        rw [idle]
        rfl
      have outside := balanced.window_eq
      refine inv.setCur { s.cur with intrOn := intrOn, ops := call.ops } ?_ ?_ ?_ ?_ s.lock <;>
        simp only [outside]
      · exact balanced
      · exact fun _ => inv.pgdir s.running (by rw [show s.task s.running = s.cur from rfl, before]; simp)
      · exact fun absurd => by cases absurd
      · have loaded := inv.cr3
        rw [before] at loaded
        exact loaded
  | op next free => exact inv.op next
  | preempt next enabled leaves => exact inv.switchTo leaves next
  | block next waiting waits held leaves => exact inv.switchTo leaves next

end

omit [DecidableEq Task] in
theorem CpuInitial.inv {own : Task → Option PageDir} {s : Cpu Task} (initial : CpuInitial own s) :
    CpuInv own s := by
  have outside : ∀ t, window (s.task t).ops = .outside := by
    intro t
    rw [initial.ops t]
    rfl
  refine ⟨fun t => ?_, fun t _ => initial.pgdir t, fun t inside => ?_, fun t _ => outside t, ?_⟩
  · rw [outside t, initial.ops t]
    exact .nil
  · rw [outside t] at inside
    cases inside
  · intro dir isOwn
    rw [initial.cr3, isOwn, Cpu.cur, outside]
    rfl

/-- In every run in which tasks are switched out only outside the windows, the
running process has its own directory loaded, or its child's inside
`copy_body_stack3`. -/
theorem directory_loaded {own : Task → Option PageDir} {start s : Cpu Task}
    (initial : CpuInitial own start)
    (run : Relation.ReflTransGen (Cpu.Step fun s => window s.cur.ops = .outside) start s) :
    DirectoryLoaded own s := by
  have inv : CpuInv own s := by
    induction run with
    | refl => exact initial.inv
    | tail _ step inductionHypothesis => exact inductionHypothesis.step step
  intro dir isDir
  have notNull : window s.cur.ops ≠ .pgdirNull := by
    intro isNull
    have saved := (inv.saved s.running isNull).1
    rw [show s.task s.running = s.cur from rfl, isDir] at saved
    cases saved
  have isOwn : own s.running = some dir := by
    rw [← inv.pgdir s.running notNull]
    exact isDir
  exact ⟨isOwn, inv.cr3 dir isOwn⟩

/-! ### A process and a kernel thread -/

/-- The kernel thread `false` runs; the process `true` has directory 1. -/
def threadAndProcess : Cpu Bool where
  task t := ⟨if t then some 1 else none, none, true, true, []⟩
  running := false
  cr3 := none
  lock _ := none

def ownDir (t : Bool) : Option PageDir := if t then some 1 else none

theorem threadAndProcess_initial : CpuInitial ownDir threadAndProcess :=
  ⟨fun _ => rfl, fun _ => rfl, rfl, fun _ => rfl⟩

/-- The process runs `inode_open` up to where it has its `pgdir` back. -/
def pgdirBack : Cpu Bool := ((threadAndProcess.switchTo true).start .inodeOpen true).next.next.next.next

/-- The thread is preempted, and the process runs `inode_open` through its window. Behind it the
thread comes in once more, and the process then goes on to the end. -/
theorem directory_loaded_in_inodeOpen :
    ∃ s : Cpu Bool, Relation.ReflTransGen (Cpu.Step fun s => window s.cur.ops = .outside)
      threadAndProcess s ∧ s.running = true ∧ s.cur.ops = [] ∧ s.cr3 = some 1 ∧ DirectoryLoaded ownDir s := by
  have started : Relation.ReflTransGen (Cpu.Step fun s : Cpu Bool => window s.cur.ops = .outside)
      threadAndProcess ((threadAndProcess.switchTo true).start .inodeOpen true) :=
    .tail (.single (.preempt true rfl rfl)) (.call .inodeOpen true rfl trivial)
  have inWindow : Relation.ReflTransGen (Cpu.Step fun s : Cpu Bool => window s.cur.ops = .outside)
      ((threadAndProcess.switchTo true).start .inodeOpen true) pgdirBack :=
    .tail (.tail (.tail (.single (Cpu.next_step (by decide +kernel))) (Cpu.next_step (by decide +kernel)))
      (Cpu.next_step (by decide +kernel))) (Cpu.next_step (by decide +kernel))
  have away : Relation.ReflTransGen (Cpu.Step fun s : Cpu Bool => window s.cur.ops = .outside)
      pgdirBack ((pgdirBack.switchTo false).switchTo true) :=
    .tail (.single (.preempt false (by decide +kernel) (by decide +kernel)))
      (.preempt true (by decide +kernel) (by decide +kernel))
  have finished : Relation.ReflTransGen (Cpu.Step fun s : Cpu Bool => window s.cur.ops = .outside)
      ((pgdirBack.switchTo false).switchTo true)
      ((pgdirBack.switchTo false).switchTo true).next.next.next.next :=
    .tail (.tail (.tail (.single (Cpu.next_step (by decide +kernel))) (Cpu.next_step (by decide +kernel)))
      (Cpu.next_step (by decide +kernel))) (Cpu.next_step (by decide +kernel))
  have run := ((started.trans inWindow).trans away).trans finished
  exact ⟨_, run, by decide +kernel, by decide +kernel, by decide +kernel,
    directory_loaded threadAndProcess_initial run⟩

/-- The thread holds the lock of the kernel's pool, inside `sys_malloc`. -/
def inMalloc : Cpu Bool := (threadAndProcess.start .heap true).next

/-- The process has set its `pgdir` to `NULL`, inside `inode_open`. -/
def nullPgdir : Cpu Bool := ((inMalloc.switchTo true).start .inodeOpen false).next

/-- The process has waited for the thread to release the lock. -/
def resumed : Cpu Bool := (nullPgdir.switchTo false).next.switchTo true

/-- The process blocks on the pool lock while its `pgdir` is `NULL`, and has the
kernel's directory loaded after it has restored it. -/
theorem directory_lost_in_inodeOpen :
    ∃ s : Cpu Bool, Relation.ReflTransGen (Cpu.Step fun _ => True) threadAndProcess s ∧
      s.running = true ∧ s.cur.pgdir = some 1 ∧ s.cr3 = none ∧ ¬ DirectoryLoaded ownDir s := by
  have first : Relation.ReflTransGen (Cpu.Step fun _ => True) threadAndProcess inMalloc :=
    .tail (.single (.call .heap true rfl trivial)) (Cpu.next_step (by decide +kernel))
  have second : Relation.ReflTransGen (Cpu.Step fun _ => True) inMalloc nullPgdir :=
    .tail (.tail (.single (.preempt true (by decide +kernel) trivial))
      (.call .inodeOpen false (by decide +kernel) trivial)) (Cpu.next_step (by decide +kernel))
  have third : Relation.ReflTransGen (Cpu.Step fun _ => True) nullPgdir resumed :=
    .tail (.tail (.single (Cpu.block_step (by decide +kernel) trivial false))
      (Cpu.next_step (by decide +kernel))) (.preempt true (by decide +kernel) trivial)
  have fourth : Relation.ReflTransGen (Cpu.Step fun _ => True) resumed resumed.next.next.next :=
    .tail (.tail (.single (Cpu.next_step (by decide +kernel))) (Cpu.next_step (by decide +kernel)))
      (Cpu.next_step (by decide +kernel))
  have pgdir : resumed.next.next.next.cur.pgdir = some 1 := by decide +kernel
  have cr3 : resumed.next.next.next.cr3 = none := by decide +kernel
  refine ⟨_, ((first.trans second).trans third).trans fourth, by decide +kernel, pgdir, cr3, ?_⟩
  intro loaded
  have := (loaded 1 pgdir).2
  rw [cr3] at this
  cases this

end

end ZyOs.Userprog
