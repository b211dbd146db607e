import ZyOs.Lib.Simulation
import ZyOs.Thread.SwitchTo

/-!
Contract: many tasks on one processor: interrupts, system calls, `switch_to`, new tasks
and forked ones, in any order.

Owns:
- `KernelStep`: what the processor does between two moments at which a context is saved
  or given back;
- `ViewStep`: a processor for each task, which keeps the contexts of the task;
- that every run of the one is a run of the other: each task goes on with what it had,
  whatever the others do in between;
- that a process in user mode is always interrupted on the kernel stack of its own page.

Does not own: which task is next, and what the C code computes. The addresses of frames and
the task that runs are kept beside the state; the code does not read them.
-/

namespace ZyOs.Thread.Contexts

open ZyOs.Lib ZyOs.Kernel

/-! ### The kernel -/

/-- `sizeof(struct task_struct)`. -/
def pcbSize : Nat := 280

/-- The processor and its TSS; the tasks, by their PCBs, with their page directories; and
the interrupt frames on the stack of each, the last one in front. -/
structure KernelState where
  cpu : Cpu
  tss : Tss
  cur : Word
  tasks : List Word
  pgdir : Word → Word
  frames : Word → List Word

/-- A byte of the part of a kernel stack that is in use. -/
def InStack (m : Memory) (t x : Word) : Prop := (load m t).toNat ≤ x.toNat ∧ x.toNat < t.toNat + 4096

/-- What `switch_to` gives back to a task: the registers of the callee, and its stack. -/
structure Saved where
  ebp : Word
  ebx : Word
  edi : Word
  esi : Word
  eip : Word
  esp : Word
  stack : Memory

/-- The bytes from `esp` to the end of the page. -/
def stackBytes (m : Memory) (t esp : Word) : Memory :=
  fun x => if esp.toNat ≤ x.toNat ∧ x.toNat < t.toNat + 4096 then m x else 0

/-- What a task has on the processor. -/
def savedOn (c : Cpu) (t : Word) : Saved :=
  ⟨c.reg .ebp, c.reg .ebx, c.reg .edi, c.reg .esi, c.eip, c.reg .esp, stackBytes c.mem t (c.reg .esp)⟩

/-- What the stack of a task that does not run has for it. -/
def savedIn (m : Memory) (t : Word) : Saved :=
  let sp := load m t
  ⟨load m sp, load m (sp + 4), load m (sp + 8), load m (sp + 12), load m (sp + 16), sp + 20,
    stackBytes m t (sp + 20)⟩

/-- The last interrupt frame, or the end of the page. -/
def framesEnd (t : Word) : List Word → Nat
  | [] => t.toNat + 4096
  | frame :: _ => frame.toNat

namespace KernelState

/-- The code of the kernel runs. -/
def InKernel (k : KernelState) : Prop := k.cpu.seg .cs = 8

/-- Where the code that runs has its stack: up to the last interrupt frame. -/
def stackEnd (k : KernelState) : Nat := framesEnd k.cur (k.frames k.cur)

/-- Compiled code: it writes neither to the stacks of other tasks nor above its own, and
leaves its stack pointer in its page; in user mode it stays there. -/
structure Runs (k : KernelState) (c : Cpu) : Prop where
  others : ∀ t ∈ k.tasks, t ≠ k.cur → ∀ x, Inside t 4 x ∨ InStack k.cpu.mem t x → c.mem x = k.cpu.mem x
  frames : ∀ frame ∈ (k.frames k.cur).head?, ∀ x : Word, frame.toNat + 4 ≤ x.toNat →
    x.toNat < k.cur.toNat + 4096 → c.mem x = k.cpu.mem x
  kernel : k.InKernel → c.seg .cs = 8 ∧ c.seg .ss = k.cpu.seg .ss ∧
    k.cur.toNat + pcbSize ≤ (c.reg .esp).toNat ∧ (c.reg .esp).toNat ≤ k.stackEnd
  user : rpl (k.cpu.seg .cs) = 3 → rpl (c.seg .cs) = 3

end KernelState

/-- The ways into the kernel that build a whole frame. -/
inductive Entry where
  | vector (vec : Nat) (mark : ErrorMark) (error? : Option Word) (errCode : Word)
      (isFrame : mark.words ++ error?.toList = [errCode])
  | syscall

def Entry.enter (entry : Entry) (c : Cpu) (tss : Tss) (gate : Gate) : Cpu :=
  match entry with
  | .vector vec mark error? _ _ => run (vectorEntry vec mark) (c.interrupt tss gate error?)
  | .syscall => run syscallSave (c.interrupt tss gate none)

/-- `update_tss_esp`, for user processes. -/
def processActivate (tss : Tss) (pgdir : Word → Word) (next : Word) : Tss :=
  if pgdir next = 0 then tss else { tss with esp0 := next + 4096 }

/-- What happens to the contexts. -/
inductive Event where
  | code
  | interrupt (t : Word) (ctx : Context)
  | answer (t result : Word)
  | leave (t : Word) (ctx : Context)
  | switch (t : Word) (saved : Saved) (next : Word) (saved' : Saved)
  | create (t kernelThread function funcArg : Word) (saved : Saved)
  | fork (t child intrExitAddr : Word) (saved : Saved)
  | start (t : Word) (ctx : Context)

/-- A page for a PCB. -/
def IsPage (t : Word) : Prop := t.toNat % 4096 = 0 ∧ t.toNat + 4096 < 2 ^ 32

/-- The step of the kernel. -/
inductive KernelStep (k : KernelState) : Event → KernelState → Prop where
  | code {c : Cpu} (runs : k.Runs c) : KernelStep k .code { k with cpu := c }
  | interrupt {entry : Entry} {offset : Word}
      (room : k.InKernel → k.cur.toNat + pcbSize + 68 ≤ (k.cpu.reg .esp).toNat) :
      KernelStep k (.interrupt k.cur k.cpu.context)
        { k with
          cpu := entry.enter k.cpu k.tss ⟨8, offset⟩
          frames := Function.update k.frames k.cur
            ((entry.enter k.cpu k.tss ⟨8, offset⟩).reg .esp :: k.frames k.cur) }
  | answer {frame : Word} {rest : List Word} (inKernel : k.InKernel) (isFrame : k.frames k.cur = frame :: rest)
      (isEsp : k.cpu.reg .esp + 12 = frame) :
      KernelStep k (.answer k.cur (k.cpu.reg .eax)) { k with cpu := run syscallAnswer k.cpu }
  | leave {frame : Word} {rest : List Word} (inKernel : k.InKernel) (isFrame : k.frames k.cur = frame :: rest)
      (isEsp : k.cpu.reg .esp = frame) :
      KernelStep k (.leave k.cur (run intrExit k.cpu).context)
        { k with cpu := run intrExit k.cpu, frames := Function.update k.frames k.cur rest }
  | switch {retaddr next : Word} (inKernel : k.InKernel) (isTask : next ∈ k.tasks)
      (args : WordsAt k.cpu.mem (k.cpu.reg .esp) [retaddr, runningThread (k.cpu.reg .esp), next])
      (room : k.cur.toNat + pcbSize + 16 ≤ (k.cpu.reg .esp).toNat)
      (inStack : (k.cpu.reg .esp).toNat + 12 ≤ k.stackEnd) :
      KernelStep k (.switch k.cur (savedOn k.cpu.ret k.cur) next (savedOn (run switchTo k.cpu) next))
        { k with cpu := run switchTo k.cpu, cur := next, tss := processActivate k.tss k.pgdir next }
  | create {t kernelThread function funcArg pgdir : Word} (inKernel : k.InKernel) (isNew : t ∉ k.tasks)
      (isPage : IsPage t) :
      KernelStep k
        (.create t kernelThread function funcArg
          (savedIn (threadCreate (initStack k.cpu.mem t) t kernelThread function funcArg) t))
        { k with
          cpu := { k.cpu with mem := threadCreate (initStack k.cpu.mem t) t kernelThread function funcArg }
          tasks := t :: k.tasks
          pgdir := Function.update k.pgdir t pgdir }
  | fork {child intrExitAddr pgdir frame : Word} {m : Memory} (inKernel : k.InKernel) (isNew : child ∉ k.tasks)
      (isPage : IsPage child) (isProcess : pgdir ≠ 0) (isFrame : k.frames k.cur = [frame])
      (fromUser : rpl ((load k.cpu.mem (frame + 60)).setWidth 16) = 3)
      (copied : ∀ i, pcbSize ≤ i → i < 4096 → m (child + BitVec.ofNat 32 i) = k.cpu.mem (k.cur + BitVec.ofNat 32 i))
      (others : ∀ x, ¬ Inside child 4096 x → m x = k.cpu.mem x) :
      KernelStep k (.fork k.cur child intrExitAddr (savedIn (buildChildStack m child intrExitAddr) child))
        { k with
          cpu := { k.cpu with mem := buildChildStack m child intrExitAddr }
          tasks := child :: k.tasks
          pgdir := Function.update k.pgdir child pgdir
          frames := Function.update k.frames child [child + 4020] }
  | start {function esp stack : Word} (inKernel : k.InKernel) (noFrame : k.frames k.cur = [])
      (isProcess : k.pgdir k.cur ≠ 0) (isStack : load k.cpu.mem k.cur + 128 = stack)
      (below : pcbSize ≤ (stack - k.cur).toNat) (above : (stack - k.cur).toNat + 76 ≤ 4096) :
      KernelStep k (.start k.cur (run intrExit (startProcess k.cpu k.cur function esp)).context)
        { k with cpu := run intrExit (startProcess k.cpu k.cur function esp) }

/-- The contexts of each task: those that an interrupt has saved, the last one in front,
and what it goes on with when it is switched to. -/
structure Views where
  cur : Word
  frames : Word → List Context
  saved : Word → Option Saved

variable {m m' : Memory} {t t' x : Word} {isProcess : Prop} {lo lo' : Nat} {frames : List Word}
  {ctxs : List Context} {ctx : Context} {espDummy errCode : Word}

/-- The interrupt frames of a kernel stack above `lo`, and the contexts in them. A frame of
user mode is the only one, at the end of the page. -/
inductive FramesAt (m : Memory) (t : Word) (isProcess : Prop) : Nat → List Word → List Context → Prop where
  | nil {lo : Nat} (inPage : lo ≤ t.toNat + 4096) : FramesAt m t isProcess lo [] []
  | inner {lo : Nat} {frame : Word} {frames : List Word} {ctx : Context} {ctxs : List Context} {espDummy errCode : Word}
      (above : lo ≤ frame.toNat) (words : WordsAt m (frame + 4) (frameWords ctx espDummy errCode false))
      (cs : ctx.seg .cs = 8) (ss : ctx.seg .ss = 0x10) (esp : ctx.reg .esp = frame + 68)
      (rest : FramesAt m t isProcess (frame.toNat + 68) frames ctxs) :
      FramesAt m t isProcess lo (frame :: frames) (ctx :: ctxs)
  | outer {lo : Nat} {frame : Word} {ctx : Context} {espDummy errCode : Word} (above : lo ≤ frame.toNat)
      (words : WordsAt m (frame + 4) (frameWords ctx espDummy errCode true)) (level : rpl (ctx.seg .cs) = 3)
      (process : isProcess) (isTop : frame = t + 4020) : FramesAt m t isProcess lo [frame] [ctx]

/-- The end of a page, in front of it and behind. -/
theorem IsPage.toNat_add {n : Nat} (isPage : IsPage t) (small : n ≤ 4096) :
    (t + BitVec.ofNat 32 n).toNat = t.toNat + n := by
  have bound := isPage.2
  bv_omega

theorem FramesAt.le (framesAt : FramesAt m t isProcess lo frames ctxs) (isPage : IsPage t) : lo ≤ t.toNat + 4096 := by
  induction framesAt with
  | nil inPage => exact inPage
  | inner above _ _ _ _ _ inductionHypothesis => omega
  | @outer _ frame _ _ _ above _ _ _ isTop =>
      have top := isPage.toNat_add (n := 4020) (by decide)
      have isTop : frame.toNat = t.toNat + 4020 := by rw [isTop]; exact top
      omega

theorem FramesAt.mono (framesAt : FramesAt m t isProcess lo frames ctxs) (le : lo' ≤ lo) :
    FramesAt m t isProcess lo' frames ctxs := by
  cases framesAt with
  | nil inPage => exact .nil (Nat.le_trans le inPage)
  | inner above words cs ss esp rest => exact .inner (Nat.le_trans le above) words cs ss esp rest
  | outer above words level process isTop => exact .outer (Nat.le_trans le above) words level process isTop

/-- The words of a frame, whatever is written outside. -/
theorem frameWords_congr {frame : Word} {outer : Bool} {size : Nat}
    (isSize : 4 * (frameWords ctx espDummy errCode outer).length + 4 = size) (fits : frame.toNat + size ≤ t.toNat + 4096)
    (isPage : IsPage t) (same : ∀ x, frame.toNat + 4 ≤ x.toNat → x.toNat < t.toNat + 4096 → m' x = m x)
    (words : WordsAt m (frame + 4) (frameWords ctx espDummy errCode outer)) :
    WordsAt m' (frame + 4) (frameWords ctx espDummy errCode outer) := by
  have bound := isPage.2
  refine words.congr (by omega) fun x inside => ?_
  unfold Inside at inside
  exact same x (by bv_omega) (by bv_omega)

theorem FramesAt.congr (framesAt : FramesAt m t isProcess lo frames ctxs) (isPage : IsPage t)
    (same : ∀ x : Word, lo + 4 ≤ x.toNat → x.toNat < t.toNat + 4096 → m' x = m x) :
    FramesAt m' t isProcess lo frames ctxs := by
  induction framesAt with
  | nil inPage => exact .nil inPage
  | inner above words cs ss esp rest inductionHypothesis =>
      have fits := rest.le isPage
      refine .inner above (frameWords_congr rfl ?_ isPage ?_ words) cs ss esp (inductionHypothesis ?_)
      · exact fits
      · exact fun x behind inPage => same x (by omega) inPage
      · exact fun x behind inPage => same x (by omega) inPage
  | outer above words level process isTop =>
      have top := isPage.toNat_add (n := 4020) (by decide)
      refine .outer above (frameWords_congr rfl ?_ isPage ?_ words) level process isTop
      · rw [isTop]
        show (t + BitVec.ofNat 32 4020).toNat + 76 ≤ _
        omega
      · exact fun x behind inPage => same x (by omega) inPage

/-- The code below the frames may write where it likes. -/
theorem FramesAt.move (framesAt : FramesAt m t isProcess lo frames ctxs) (isPage : IsPage t)
    (below : lo' ≤ framesEnd t frames)
    (same : ∀ frame ∈ frames.head?, ∀ x : Word, frame.toNat + 4 ≤ x.toNat → x.toNat < t.toNat + 4096 → m' x = m x) :
    FramesAt m' t isProcess lo' frames ctxs := by
  cases framesAt with
  | nil inPage => exact .nil below
  | inner above words cs ss esp rest =>
      have isFirst : FramesAt m t isProcess _ _ _ := .inner (Nat.le_refl _) words cs ss esp rest
      exact (isFirst.congr isPage (same _ rfl)).mono below
  | outer above words level process isTop =>
      have isFirst : FramesAt m t isProcess _ _ _ := .outer (Nat.le_refl _) words level process isTop
      exact (isFirst.congr isPage (same _ rfl)).mono below

/-- The first frame is inside the page. -/
theorem FramesAt.inPage {frame : Word} (framesAt : FramesAt m t isProcess lo (frame :: frames) ctxs)
    (isPage : IsPage t) : lo ≤ frame.toNat ∧ frame.toNat + 68 ≤ t.toNat + 4096 := by
  cases framesAt with
  | inner above words cs ss esp rest => exact ⟨above, rest.le isPage⟩
  | outer above words level process isTop =>
      have top := isPage.toNat_add (n := 4020) (by decide)
      refine ⟨above, ?_⟩
      rw [isTop]
      show (t + BitVec.ofNat 32 4020).toNat + 68 ≤ _
      omega

theorem setContextReg_esp (ctx : Context) (w : Word) : (setContextReg ctx .eax w).reg .esp = ctx.reg .esp := by
  simp [setContextReg]

theorem words_cs {frame : Word} {outer : Bool} (words : WordsAt m (frame + 4) (frameWords ctx espDummy errCode outer)) :
    load m (frame + 60) = (ctx.seg .cs).setWidth 32 := by
  have returns : WordsAt m (frame + 4 + 48) (errCode :: returnWords ctx outer) := (WordsAt.append.mp words).2
  simp only [returnWords, List.cons_append, WordsAt] at returns
  obtain ⟨_, _, isCs, _⟩ := returns
  rw [← isCs]
  congr 1
  bv_omega

theorem words_answer {frame : Word} {outer : Bool}
    (words : WordsAt m (frame + 4) (frameWords ctx espDummy errCode outer)) (w : Word) :
    WordsAt (store m (frame + 32) w) (frame + 4) (frameWords (setContextReg ctx .eax w) espDummy errCode outer) := by
  have isSlot : frame + 32 = frame + 4 + BitVec.ofNat 32 (4 * 7) := by bv_omega
  have few := length_frameWords ctx espDummy errCode outer
  have hasSlot : 7 < (frameWords ctx espDummy errCode outer).length := by
    cases outer <;> simp [frameWords, registerWords, returnWords]
  rw [isSlot, ← frameWords_set]
  exact words.set (by omega) hasSlot w

/-- Another value for the `eax` of the last frame. -/
theorem FramesAt.answer {frame : Word} (framesAt : FramesAt m t isProcess lo (frame :: frames) (ctx :: ctxs))
    (isPage : IsPage t) (w : Word) :
    FramesAt (store m (frame + 32) w) t isProcess frame.toNat (frame :: frames) (setContextReg ctx .eax w :: ctxs) := by
  cases framesAt with
  | inner above words cs ss esp rest =>
      have bound := isPage.2
      have inPage := rest.le isPage
      refine .inner (Nat.le_refl _) (words_answer words w) cs ss (setContextReg_esp ctx w ▸ esp) ?_
      refine rest.congr isPage fun x behind before => store_apart ?_
      bv_omega
  | outer above words level process isTop =>
      exact .outer (Nat.le_refl _) (words_answer words w) level process isTop

/-- A task that does not run: its stack has what it goes on with, below its frames. -/
structure Suspended (m : Memory) (t : Word) (isProcess : Prop) (frames : List Word) (ctxs : List Context)
    (saved : Option Saved) : Prop where
  above : t.toNat + pcbSize ≤ (load m t).toNat
  framesAt : FramesAt m t isProcess ((load m t).toNat + 20) frames ctxs
  isSaved : saved = some (savedIn m t)

theorem stackBytes_inside {esp : Word} (inStack : esp.toNat ≤ x.toNat ∧ x.toNat < t.toNat + 4096) :
    stackBytes m t esp x = m x := if_pos inStack

theorem stackBytes_congr {esp : Word}
    (same : ∀ x : Word, esp.toNat ≤ x.toNat → x.toNat < t.toNat + 4096 → m' x = m x) :
    stackBytes m' t esp = stackBytes m t esp := by
  funext x
  unfold stackBytes
  split
  · rename_i inside
    exact same x inside.1 inside.2
  · rfl

theorem savedIn_congr (inPage : (load m t).toNat + 20 ≤ t.toNat + 4096) (isPage : IsPage t)
    (same : ∀ x, Inside t 4 x ∨ InStack m t x → m' x = m x) : savedIn m' t = savedIn m t := by
  have bound := isPage.2
  have isStack : load m' t = load m t := load_congr fun x inside => same x (.inl inside)
  have word : ∀ i < 17, load m' (load m t + BitVec.ofNat 32 i) = load m (load m t + BitVec.ofNat 32 i) := by
    intro i small
    refine load_congr fun x inside => same x (.inr ?_)
    unfold Inside at inside
    unfold InStack
    bv_omega
  have first : load m' (load m t) = load m (load m t) := by simpa using word 0 (by decide)
  have second : load m' (load m t + 4) = load m (load m t + 4) := word 4 (by decide)
  have third : load m' (load m t + 8) = load m (load m t + 8) := word 8 (by decide)
  have fourth : load m' (load m t + 12) = load m (load m t + 12) := word 12 (by decide)
  have fifth : load m' (load m t + 16) = load m (load m t + 16) := word 16 (by decide)
  have bytes : stackBytes m' t (load m t + 20) = stackBytes m t (load m t + 20) := by
    refine stackBytes_congr fun x behind before => same x (.inr ⟨?_, before⟩)
    bv_omega
  unfold savedIn
  dsimp only
  rw [isStack, first, second, third, fourth, fifth, bytes]

theorem Suspended.congr {saved : Option Saved} (suspended : Suspended m t isProcess frames ctxs saved) (isPage : IsPage t)
    (same : ∀ x, Inside t 4 x ∨ InStack m t x → m' x = m x) : Suspended m' t isProcess frames ctxs saved := by
  have isStack : load m' t = load m t := load_congr fun x inside => same x (.inl inside)
  have inPage := suspended.framesAt.le isPage
  refine ⟨by rw [isStack]; exact suspended.above, ?_, ?_⟩
  · rw [isStack]
    exact suspended.framesAt.congr isPage fun x behind before => same x (.inr ⟨by omega, before⟩)
  · rw [savedIn_congr inPage isPage same]
    exact suspended.isSaved

theorem wordsAt_loads (m : Memory) (a : Word) :
    WordsAt m a [load m a, load m (a + 4), load m (a + 8), load m (a + 12), load m (a + 16)] := by
  have second : a + 4 + 4 = a + 8 := by bv_omega
  have third : a + 8 + 4 = a + 12 := by bv_omega
  have fourth : a + 12 + 4 = a + 16 := by bv_omega
  simp only [WordsAt, second, third, fourth, and_self]

theorem savedIn_of_words {sp ebp ebx edi esi eip : Word} (isStack : load m t = sp)
    (words : WordsAt m sp [ebp, ebx, edi, esi, eip]) :
    savedIn m t = ⟨ebp, ebx, edi, esi, eip, sp + 20, stackBytes m t (sp + 20)⟩ := by
  have second : sp + 4 + 4 = sp + 8 := by bv_omega
  have third : sp + 8 + 4 = sp + 12 := by bv_omega
  have fourth : sp + 12 + 4 = sp + 16 := by bv_omega
  simp only [WordsAt, second, third, fourth] at words
  obtain ⟨isEbp, isEbx, isEdi, isEsi, isEip, _⟩ := words
  unfold savedIn
  dsimp only
  rw [isStack, isEbp, isEbx, isEdi, isEsi, isEip]

/-- `switch_to` has on the processor what was in memory. -/
theorem savedOn_switchTo {c : Cpu} {cur next retaddr : Word} (args : WordsAt c.mem (c.reg .esp) [retaddr, cur, next])
    (apart : ∀ x, Inside cur 4 x → ¬ Inside (c.reg .esp - 16) 28 x) :
    savedOn (run switchTo c) next = savedIn (savedMem c cur) next := by
  obtain ⟨ebp, ebx, edi, esi, eip, esp, _, mem⟩ := switchTo_spec args apart (wordsAt_loads _ _)
  unfold savedOn savedIn
  rw [ebp, ebx, edi, esi, eip, esp, mem]

/-- Two pages have no byte in common. -/
theorem page_apart (isPage : IsPage t) (isPage' : IsPage t') (ne : t ≠ t') (inside : Inside t 4096 x) :
    ¬ Inside t' 4096 x := by
  obtain ⟨aligned, bound⟩ := isPage
  obtain ⟨aligned', bound'⟩ := isPage'
  have ne : t.toNat ≠ t'.toNat := fun same => ne (BitVec.eq_of_toNat_eq same)
  unfold Inside at inside ⊢
  bv_omega

/-- What is written in another page. -/
theorem Suspended.otherPage {saved : Option Saved} (suspended : Suspended m t isProcess frames ctxs saved)
    (isPage : IsPage t) (isPage' : IsPage t') (ne : t ≠ t') (same : ∀ x, ¬ Inside t' 4096 x → m' x = m x) :
    Suspended m' t isProcess frames ctxs saved := by
  have above := suspended.above
  have bound := isPage.2
  refine suspended.congr isPage fun x inside => same x (page_apart isPage isPage' ne ?_)
  unfold pcbSize at above
  unfold Inside at *
  rcases inside with inside | ⟨behind, before⟩
  · omega
  · bv_omega

/-- What the entry leaves on the stack of the handler. -/
theorem Entry.enter_spec (entry : Entry) (c : Cpu) (tss : Tss) (gate : Gate) :
    ∃ vec espDummy errCode,
      Stacked (c.onStack tss gate) (entry.enter c tss gate)
        (vec :: frameWords c.context espDummy errCode (c.rises gate)) ∧
      (entry.enter c tss gate).seg .cs = gate.selector ∧
      (entry.enter c tss gate).seg .ss = if c.rises gate then tss.ss0 else c.seg .ss := by
  cases entry with
  | vector vec mark error? errCode isFrame =>
      obtain ⟨espDummy, stacked⟩ := @vectorEntry_frame errCode vec mark error? c tss gate isFrame
      refine ⟨_, espDummy, errCode, stacked, ?_, ?_⟩
      · show (run (vectorEntry vec mark) _).seg .cs = _
        rw [vectorEntry_seg, Cpu.interrupt_cs]
      · show (run (vectorEntry vec mark) _).seg .ss = _
        rw [vectorEntry_seg, Cpu.interrupt_ss]
  | syscall =>
      obtain ⟨espDummy, stacked⟩ := syscallSave_stacked c tss gate
      obtain ⟨_, seg, _⟩ := syscallSave_kept (c.interrupt tss gate none)
      refine ⟨_, espDummy, 0, stacked, ?_, ?_⟩
      · show (run syscallSave _).seg .cs = _
        rw [seg, Cpu.interrupt_cs]
      · show (run syscallSave _).seg .ss = _
        rw [seg, Cpu.interrupt_ss]

/-! ### The processor and the views -/

/-- The task that runs, in the kernel or in user mode. -/
inductive Mode (c : Cpu) (cur : Word) (isProcess : Prop) (frames : List Word) (ctxs : List Context) : Prop where
  | kernel (cs : c.seg .cs = 8) (ss : c.seg .ss = 0x10) (above : cur.toNat + pcbSize ≤ (c.reg .esp).toNat)
      (framesAt : FramesAt c.mem cur isProcess (c.reg .esp).toNat frames ctxs)
  | user (cs : rpl (c.seg .cs) = 3) (noFrame : frames = []) (noContext : ctxs = []) (process : isProcess)

/-- The processor has the contexts of the task that runs, and the memory those of the
others. -/
structure Related (k : KernelState) (v : Views) : Prop where
  cur : v.cur = k.cur
  isTask : k.cur ∈ k.tasks
  pages : ∀ t ∈ k.tasks, IsPage t
  ss0 : k.tss.ss0 = 0x10
  esp0 : k.pgdir k.cur ≠ 0 → k.tss.esp0 = k.cur + 4096
  mode : Mode k.cpu k.cur (k.pgdir k.cur ≠ 0) (k.frames k.cur) (v.frames k.cur)
  suspended : ∀ t ∈ k.tasks, t ≠ k.cur →
    Suspended k.cpu.mem t (k.pgdir t ≠ 0) (k.frames t) (v.frames t) (v.saved t)
  fresh : ∀ t, t ∉ k.tasks → v.saved t = none ∧ v.frames t = [] ∧ k.frames t = []

namespace Related

variable {k k' : KernelState} {v : Views} {c : Cpu} {frame : Word} {rest : List Word}

theorem page (related : Related k v) : IsPage k.cur := related.pages _ related.isTask

theorem code (related : Related k v) (runs : k.Runs c) : Related { k with cpu := c } v where
  cur := related.cur
  isTask := related.isTask
  pages := related.pages
  ss0 := related.ss0
  esp0 := related.esp0
  mode := by
    cases related.mode with
    | kernel cs ss above framesAt =>
        obtain ⟨cs', ss', above', below'⟩ := runs.kernel cs
        exact .kernel cs' (ss'.trans ss) above' (framesAt.move related.page below' runs.frames)
    | user cs noFrame noContext process => exact .user (runs.user cs) noFrame noContext process
  suspended t isTask ne :=
    (related.suspended t isTask ne).congr (related.pages t isTask) (runs.others t isTask ne)
  fresh := related.fresh

/-- The task goes on, and only its page is written. -/
theorem ofCur (related : Related k v) (outside : ∀ x, ¬ Inside k.cur 4096 x → c.mem x = k.cpu.mem x)
    (mode : Mode c k.cur (k.pgdir k.cur ≠ 0) frames ctxs) :
    Related { k with cpu := c, frames := Function.update k.frames k.cur frames }
      { v with frames := Function.update v.frames v.cur ctxs } where
  cur := related.cur
  isTask := related.isTask
  pages := related.pages
  ss0 := related.ss0
  esp0 := related.esp0
  mode := by
    dsimp only
    rw [related.cur, Function.update_self, Function.update_self]
    exact mode
  suspended t isTask ne := by
    dsimp only at isTask ne ⊢
    rw [related.cur, Function.update_of_ne ne, Function.update_of_ne ne]
    exact (related.suspended t isTask ne).otherPage (related.pages t isTask) related.page ne outside
  fresh t notTask := by
    have ne : t ≠ k.cur := fun isCur => notTask (isCur ▸ related.isTask)
    obtain ⟨noSaved, noContext, noFrame⟩ := related.fresh t notTask
    dsimp only
    rw [related.cur, Function.update_of_ne ne, Function.update_of_ne ne]
    exact ⟨noSaved, noContext, noFrame⟩

/-- From user mode the frame is at the end of the page of the process. -/
theorem enter_user (related : Related k v) (entry : Entry) (offset : Word) (cs : rpl (k.cpu.seg .cs) = 3)
    (process : k.pgdir k.cur ≠ 0) :
    ∃ espDummy errCode,
      WordsAt (entry.enter k.cpu k.tss ⟨8, offset⟩).mem ((entry.enter k.cpu k.tss ⟨8, offset⟩).reg .esp + 4)
        (frameWords k.cpu.context espDummy errCode true) ∧
      (entry.enter k.cpu k.tss ⟨8, offset⟩).seg .cs = 8 ∧
      (entry.enter k.cpu k.tss ⟨8, offset⟩).seg .ss = 0x10 ∧
      (entry.enter k.cpu k.tss ⟨8, offset⟩).reg .esp = k.cur + 4020 ∧
      ∀ x, ¬ Inside k.cur 4096 x → (entry.enter k.cpu k.tss ⟨8, offset⟩).mem x = k.cpu.mem x := by
  obtain ⟨vec, espDummy, errCode, stacked, isCs, isSs⟩ := entry.enter_spec k.cpu k.tss ⟨8, offset⟩
  have rises : k.cpu.rises ⟨8, offset⟩ = true := by
    unfold Cpu.rises
    rw [cs]
    exact decide_eq_true (show rpl 8 < 3 by decide)
  rw [rises] at stacked isSs
  have base : (k.cpu.onStack k.tss ⟨8, offset⟩).reg .esp = k.cur + 4096 ∧
      (k.cpu.onStack k.tss ⟨8, offset⟩).mem = k.cpu.mem := by
    unfold Cpu.onStack
    rw [rises, related.esp0 process]
    exact ⟨by simp [Cpu.setReg, Cpu.setSeg], rfl⟩
  have isEsp : (entry.enter k.cpu k.tss ⟨8, offset⟩).reg .esp = k.cur + 4020 := by
    rw [stacked.esp, base.1]
    show k.cur + 4096 - 76 = _
    bv_omega
  refine ⟨espDummy, errCode, stacked.words.2, isCs, isSs.trans related.ss0, isEsp, fun x outside => ?_⟩
  rw [← base.2]
  apply stacked.mem
  rw [isEsp]
  show ¬ Inside (k.cur + 4020) 76 x
  unfold Inside at outside ⊢
  bv_omega

/-- A frame below those that are there. -/
theorem interrupt (related : Related k v) (entry : Entry) (offset : Word)
    (room : k.InKernel → k.cur.toNat + pcbSize + 68 ≤ (k.cpu.reg .esp).toNat) :
    Related
      { k with
        cpu := entry.enter k.cpu k.tss ⟨8, offset⟩
        frames := Function.update k.frames k.cur
          ((entry.enter k.cpu k.tss ⟨8, offset⟩).reg .esp :: k.frames k.cur) }
      { v with frames := Function.update v.frames v.cur (k.cpu.context :: v.frames k.cur) } := by
  obtain ⟨vec, espDummy, errCode, stacked, isCs, isSs⟩ := entry.enter_spec k.cpu k.tss ⟨8, offset⟩
  have page := related.page
  have bound := page.2
  cases related.mode with
  | kernel cs ss above framesAt =>
      have notRises : k.cpu.rises ⟨8, offset⟩ = false := by
        unfold Cpu.rises
        rw [cs]
        rfl
      have isBase : k.cpu.onStack k.tss ⟨8, offset⟩ = k.cpu := by
        unfold Cpu.onStack
        rw [notRises]
        rfl
      rw [notRises, isBase] at stacked
      rw [notRises] at isSs
      have isEsp : (entry.enter k.cpu k.tss ⟨8, offset⟩).reg .esp = k.cpu.reg .esp - 68 := stacked.esp
      have room := room cs
      have inPage := framesAt.le page
      unfold pcbSize at room above
      have toNat : (k.cpu.reg .esp - 68).toNat = (k.cpu.reg .esp).toNat - 68 := by bv_omega
      have isTop : k.cpu.reg .esp = k.cpu.reg .esp - 68 + 68 := by bv_omega
      have written : ∀ x, ¬ Inside (k.cpu.reg .esp - 68) 68 x →
          (entry.enter k.cpu k.tss ⟨8, offset⟩).mem x = k.cpu.mem x := by
        intro x outside
        apply stacked.mem
        rw [isEsp]
        exact outside
      refine related.ofCur (fun x outside => written x ?_) (.kernel isCs (isSs.trans ss) ?_ ?_)
      · unfold Inside at outside ⊢
        bv_omega
      · rw [isEsp, toNat]
        unfold pcbSize
        omega
      · rw [isEsp]
        have words := stacked.words.2
        rw [isEsp] at words
        refine .inner (Nat.le_refl _) words cs ss isTop ?_
        rw [toNat, Nat.sub_add_cancel (by omega)]
        refine framesAt.congr page fun x behind before => written x ?_
        unfold Inside
        bv_omega
  | user cs noFrame noContext process =>
      obtain ⟨espDummy, errCode, words, isCs, isSs, isEsp, written⟩ := related.enter_user entry offset cs process
      refine related.ofCur written (.kernel isCs isSs ?_ ?_)
      · have toNat := page.toNat_add (n := 4020) (by decide)
        rw [isEsp]
        show k.cur.toNat + 280 ≤ (k.cur + BitVec.ofNat 32 4020).toNat
        omega
      · rw [noFrame, noContext]
        exact .outer (Nat.le_refl _) words cs process isEsp

theorem framesAt (related : Related k v) (inKernel : k.InKernel) :
    FramesAt k.cpu.mem k.cur (k.pgdir k.cur ≠ 0) (k.cpu.reg .esp).toNat (k.frames k.cur) (v.frames k.cur) ∧
      k.cpu.seg .ss = 0x10 ∧ k.cur.toNat + pcbSize ≤ (k.cpu.reg .esp).toNat := by
  cases related.mode with
  | kernel _ ss above framesAt => exact ⟨framesAt, ss, above⟩
  | user cs =>
      rw [show k.cpu.seg .cs = 8 from inKernel] at cs
      exact absurd cs (by decide)

/-- The result of a system call goes to the frame that its caller is given back. -/
theorem answer (related : Related k v) (inKernel : k.InKernel) (isFrame : k.frames k.cur = frame :: rest)
    (isEsp : k.cpu.reg .esp + 12 = frame) :
    ∃ ctx ctxs, v.frames k.cur = ctx :: ctxs ∧
      Related { k with cpu := run syscallAnswer k.cpu }
        { v with
          frames := Function.update v.frames v.cur (setContextReg ctx .eax (k.cpu.reg .eax) :: ctxs) } := by
  obtain ⟨framesAt, ss, above⟩ := related.framesAt inKernel
  obtain ⟨esp', mem', seg'⟩ := syscallAnswer_spec k.cpu
  have page := related.page
  have bound := page.2
  rw [isEsp] at esp' mem'
  rw [isFrame] at framesAt
  have inFrame := framesAt.inPage page
  unfold pcbSize at above
  cases isContexts : v.frames k.cur with
  | nil =>
      rw [isContexts] at framesAt
      cases framesAt
  | cons ctx ctxs =>
      rw [isContexts] at framesAt
      refine ⟨ctx, ctxs, rfl, ?_⟩
      have answered := framesAt.answer page (k.cpu.reg .eax)
      have unchanged : Function.update k.frames k.cur (frame :: rest) = k.frames := by
        rw [← isFrame, Function.update_eq_self]
      rw [← mem', ← esp'] at answered
      have result := @ofCur _ _ k v (run syscallAnswer k.cpu) related ?_ (.kernel ?_ ?_ ?_ answered)
      · rw [esp', unchanged] at result
        exact result
      · intro x outside
        rw [mem']
        refine store_apart ?_
        unfold Inside at outside
        bv_omega
      · rw [seg']
        exact inKernel
      · rw [seg']
        exact ss
      · rw [esp']
        unfold pcbSize
        omega

/-- `intr_exit` gives back the last context. -/
theorem leave (related : Related k v) (inKernel : k.InKernel) (isFrame : k.frames k.cur = frame :: rest)
    (isEsp : k.cpu.reg .esp = frame) :
    ∃ ctxs, v.frames k.cur = (run intrExit k.cpu).context :: ctxs ∧
      Related { k with cpu := run intrExit k.cpu, frames := Function.update k.frames k.cur rest }
        { v with frames := Function.update v.frames v.cur ctxs } := by
  obtain ⟨framesAt, ss, above⟩ := related.framesAt inKernel
  have page := related.page
  have bound := page.2
  have inFrame := (isFrame ▸ framesAt : FramesAt _ _ _ _ (frame :: rest) _).inPage page
  generalize isContexts : v.frames k.cur = ctxs at framesAt
  rw [isFrame] at framesAt
  cases framesAt with
  | @inner _ _ _ ctx ctxs _ _ lower words cs ss' esp framesAt =>
      rw [← isEsp] at words esp
      have sameLevel : rpl (ctx.seg .cs) = rpl (k.cpu.seg .cs) := congrArg rpl (cs.trans inKernel.symm)
      obtain ⟨isContext, isMem⟩ := intrExit_inner words (Nat.le_of_eq sameLevel) (ss.trans ss'.symm) esp.symm
      have isStack : (run intrExit k.cpu).reg .esp = k.cpu.reg .esp + 68 :=
        (congrArg (fun ctx => ctx.reg .esp) isContext).trans esp
      have toNat : ((run intrExit k.cpu).reg .esp).toNat = frame.toNat + 68 := by
        rw [isStack]
        subst isEsp
        bv_omega
      refine ⟨ctxs, by rw [isContext], related.ofCur (fun x _ => by rw [isMem]) (.kernel ?_ ?_ ?_ ?_)⟩
      · exact (congrArg (fun ctx => ctx.seg .cs) isContext).trans cs
      · exact (congrArg (fun ctx => ctx.seg .ss) isContext).trans ss'
      · rw [toNat]
        omega
      · rw [toNat, isMem]
        exact framesAt
  | @outer _ _ ctx _ _ lower words level process isTop =>
      rw [← isEsp] at words
      obtain ⟨isContext, isMem⟩ := intrExit_outer words (by
        rw [level, show k.cpu.seg .cs = 8 from inKernel]
        decide)
      refine ⟨[], by rw [isContext], related.ofCur (fun x _ => by rw [isMem]) (.user ?_ rfl rfl process)⟩
      exact (congrArg (fun ctx => rpl (ctx.seg .cs)) isContext).trans level

section Switching

variable {retaddr next : Word} (related : Related k v) (inKernel : k.InKernel)
  (args : WordsAt k.cpu.mem (k.cpu.reg .esp) [retaddr, runningThread (k.cpu.reg .esp), next])
  (room : k.cur.toNat + pcbSize + 16 ≤ (k.cpu.reg .esp).toNat) (inStack : (k.cpu.reg .esp).toNat + 12 ≤ k.stackEnd)

include related inKernel inStack

theorem inPage : (k.cpu.reg .esp).toNat + 12 ≤ k.cur.toNat + 4096 := by
  obtain ⟨framesAt, _⟩ := related.framesAt inKernel
  refine Nat.le_trans inStack ?_
  unfold KernelState.stackEnd
  cases isFrame : k.frames k.cur with
  | nil => exact Nat.le_refl _
  | cons frame rest =>
      rw [isFrame] at framesAt
      have inFrame := framesAt.inPage related.page
      show frame.toNat ≤ _
      omega

include room

/-- The PCB that `switch_to` is given is that of the task that runs. -/
theorem runningThread_cur : runningThread (k.cpu.reg .esp) = k.cur := by
  have inPage := related.inPage inKernel inStack
  exact runningThread_eq related.page.1 (by omega) (by omega)

theorem field_apart (x : Word) (field : Inside k.cur 4 x) : ¬ Inside (k.cpu.reg .esp - 16) 28 x := by
  have inPage := related.inPage inKernel inStack
  have bound := related.page.2
  unfold pcbSize at room
  unfold Inside at field ⊢
  bv_omega

include args

/-- The task that runs until the switch. -/
theorem curSuspended :
    Suspended (savedMem k.cpu k.cur) k.cur (k.pgdir k.cur ≠ 0) (k.frames k.cur) (v.frames k.cur)
      (some (savedOn k.cpu.ret k.cur)) := by
  have bound := related.page.2
  have inPage := related.inPage inKernel inStack
  obtain ⟨framesAt, _⟩ := related.framesAt inKernel
  rw [related.runningThread_cur inKernel room inStack] at args
  have isReturn : load k.cpu.mem (k.cpu.reg .esp) = retaddr := args.1
  obtain ⟨isStack, words, other⟩ := savedMem_spec args (related.field_apart inKernel room inStack)
  unfold pcbSize at room
  have isBehind : k.cpu.reg .esp - 16 + 20 = k.cpu.reg .esp + 4 := by bv_omega
  have behindStack : ∀ x : Word, (k.cpu.reg .esp).toNat ≤ x.toNat → x.toNat < k.cur.toNat + 4096 →
      savedMem k.cpu k.cur x = k.cpu.mem x := by
    intro x behind before
    refine other x ?_ ?_
    · unfold Inside
      bv_omega
    · unfold Inside
      bv_omega
  refine ⟨?_, ?_, ?_⟩
  · rw [isStack]
    unfold pcbSize
    bv_omega
  · rw [isStack]
    unfold KernelState.stackEnd at inStack
    refine framesAt.move related.page (by bv_omega) fun frame isFrame x behind before => behindStack x ?_ before
    cases isFrames : k.frames k.cur with
    | nil =>
        rw [isFrames] at isFrame
        cases isFrame
    | cons first rest =>
        rw [isFrames] at isFrame inStack
        cases isFrame
        have inStack : (k.cpu.reg .esp).toNat + 12 ≤ frame.toNat := inStack
        omega
  · have callee : WordsAt _ _ [k.cpu.reg .ebp, k.cpu.reg .ebx, k.cpu.reg .edi, k.cpu.reg .esi, retaddr] :=
      (WordsAt.append.mp words).1
    rw [savedIn_of_words isStack callee, isBehind]
    have isEsp : k.cpu.ret.reg .esp = k.cpu.reg .esp + 4 := by simp [Cpu.ret]
    have bytes : stackBytes (savedMem k.cpu k.cur) k.cur (k.cpu.reg .esp + 4) =
        stackBytes k.cpu.mem k.cur (k.cpu.reg .esp + 4) := by
      refine stackBytes_congr fun x behind before => behindStack x ?_ before
      bv_omega
    rw [bytes]
    unfold savedOn
    rw [isEsp]
    simp [Cpu.ret, Cpu.top, isReturn]

/-- Every task, the one that ran among them, waits for a switch to it. -/
theorem allSuspended (t : Word) (isTask : t ∈ k.tasks) :
    Suspended (savedMem k.cpu k.cur) t (k.pgdir t ≠ 0) (k.frames t) (v.frames t)
      (Function.update v.saved v.cur (some (savedOn k.cpu.ret k.cur)) t) := by
  rw [related.cur]
  by_cases isCur : t = k.cur
  · subst isCur
    rw [Function.update_self]
    exact related.curSuspended inKernel args room inStack
  · rw [Function.update_of_ne isCur]
    refine (related.suspended t isTask isCur).otherPage (related.pages t isTask) related.page isCur fun x outside => ?_
    have bound := related.page.2
    have inPage := related.inPage inKernel inStack
    rw [related.runningThread_cur inKernel room inStack] at args
    obtain ⟨_, _, other⟩ := savedMem_spec args (related.field_apart inKernel room inStack)
    unfold pcbSize at room
    unfold Inside at outside
    refine other x ?_ ?_
    · unfold Inside
      omega
    · unfold Inside
      bv_omega

/-- The next task goes on where it was. -/
theorem switch (isTask : next ∈ k.tasks) :
    Function.update v.saved v.cur (some (savedOn k.cpu.ret k.cur)) next = some (savedOn (run switchTo k.cpu) next) ∧
      Related { k with cpu := run switchTo k.cpu, cur := next, tss := processActivate k.tss k.pgdir next }
        { v with cur := next, saved := Function.update v.saved v.cur (some (savedOn k.cpu.ret k.cur)) } := by
  have all := fun t isTask => related.allSuspended inKernel args room inStack t isTask
  obtain ⟨_, ss, _⟩ := related.framesAt inKernel
  have apart := related.field_apart inKernel room inStack
  rw [related.runningThread_cur inKernel room inStack] at args
  have isSaved := savedOn_switchTo args apart
  obtain ⟨_, _, _, _, _, esp, seg, mem⟩ := switchTo_spec args apart (wordsAt_loads _ _)
  generalize run switchTo k.cpu = c at isSaved esp seg mem ⊢
  have bound := (related.pages next isTask).2
  have suspended := all next isTask
  have above := suspended.above
  have inPage := suspended.framesAt.le (related.pages next isTask)
  have toNat : (c.reg .esp).toNat = (load (savedMem k.cpu k.cur) next).toNat + 20 := by
    rw [esp]
    bv_omega
  refine ⟨suspended.isSaved.trans (congrArg some isSaved.symm), rfl, isTask, related.pages, ?_, ?_, ?_, ?_, ?_⟩
  · show (processActivate k.tss k.pgdir next).ss0 = _
    unfold processActivate
    split
    · exact related.ss0
    · exact related.ss0
  · intro isProcess
    show (processActivate k.tss k.pgdir next).esp0 = _
    unfold processActivate
    rw [if_neg isProcess]
  · refine .kernel ?_ ?_ ?_ ?_
    · rw [seg]
      exact inKernel
    · rw [seg]
      exact ss
    · rw [toNat]
      exact Nat.le_trans above (Nat.le_add_right _ _)
    · rw [toNat, mem]
      exact suspended.framesAt
  · intro t isTask _
    show Suspended c.mem t _ _ _ _
    rw [mem]
    exact all t isTask
  · intro t notTask
    have ne : t ≠ k.cur := fun isCur => notTask (isCur ▸ related.isTask)
    show Function.update v.saved v.cur _ t = none ∧ _
    rw [related.cur, Function.update_of_ne ne]
    exact related.fresh t notTask

end Switching

section NewTasks

variable {t pgdir : Word} {m : Memory} {frames : List Word} {ctxs : List Context} {saved : Saved}

/-- A task is added, with nothing written outside its page. -/
theorem newTask (related : Related k v) (inKernel : k.InKernel) (isNew : t ∉ k.tasks) (isPage : IsPage t)
    (others : ∀ x, ¬ Inside t 4096 x → m x = k.cpu.mem x)
    (suspended : Suspended m t (pgdir ≠ 0) frames ctxs (some saved)) :
    Related
      { k with
        cpu := { k.cpu with mem := m }
        tasks := t :: k.tasks
        pgdir := Function.update k.pgdir t pgdir
        frames := Function.update k.frames t frames }
      { v with
        frames := Function.update v.frames t ctxs
        saved := Function.update v.saved t (some saved) } := by
  have isOld : ∀ t' ∈ k.tasks, t' ≠ t := fun t' isTask isT => isNew (isT ▸ isTask)
  have curOld := isOld k.cur related.isTask
  obtain ⟨framesAt, ss, above⟩ := related.framesAt inKernel
  refine ⟨related.cur, List.mem_cons_of_mem _ related.isTask, ?_, related.ss0, ?_, ?_, ?_, ?_⟩
  · intro t' isTask
    cases isTask with
    | head => exact isPage
    | tail _ isTask => exact related.pages t' isTask
  · show Function.update k.pgdir t pgdir k.cur ≠ 0 → _
    rw [Function.update_of_ne curOld]
    exact related.esp0
  · dsimp only
    rw [Function.update_of_ne curOld, Function.update_of_ne curOld, Function.update_of_ne curOld]
    refine .kernel inKernel ss above (framesAt.congr related.page fun x behind before => others x ?_)
    have bound := related.page.2
    refine page_apart related.page isPage curOld ?_
    unfold Inside
    bv_omega
  · intro t' isTask ne
    dsimp only at isTask ne ⊢
    cases isTask with
    | head =>
        rw [Function.update_self, Function.update_self, Function.update_self, Function.update_self]
        exact suspended
    | tail _ isTask =>
        have old := isOld t' isTask
        rw [Function.update_of_ne old, Function.update_of_ne old, Function.update_of_ne old, Function.update_of_ne old]
        exact (related.suspended t' isTask ne).otherPage (related.pages t' isTask) isPage old others
  · intro t' notTask
    dsimp only at notTask ⊢
    have ne : t' ≠ t := fun isT => notTask (isT ▸ List.mem_cons_self)
    rw [Function.update_of_ne ne, Function.update_of_ne ne, Function.update_of_ne ne]
    exact related.fresh t' fun isTask => notTask (List.mem_cons_of_mem _ isTask)

/-- A thread that waits for its first run. -/
theorem create (related : Related k v) (inKernel : k.InKernel) (isNew : t ∉ k.tasks) (isPage : IsPage t)
    (isThread : threadCreate (initStack k.cpu.mem t) t kernelThread function funcArg = m) :
    (savedIn m t).eip = kernelThread ∧
      WordsAt (savedIn m t).stack ((savedIn m t).esp + 4) [function, funcArg] ∧
      Related
        { k with
          cpu := { k.cpu with mem := m }
          tasks := t :: k.tasks
          pgdir := Function.update k.pgdir t pgdir }
        { v with saved := Function.update v.saved t (some (savedIn m t)) } := by
  have bound := isPage.2
  obtain ⟨isStack, words, args, others⟩ := threadCreate_spec k.cpu.mem t kernelThread function funcArg
  rw [isThread] at isStack words args others
  obtain ⟨_, noContext, noFrame⟩ := related.fresh t isNew
  have isEsp : t + 3664 + 20 = t + 3684 := by bv_omega
  have isArgs : t + 3684 + 4 = t + 3688 := by bv_omega
  have toNat : (t + 3664).toNat = t.toNat + 3664 := by bv_omega
  have isSaved := savedIn_of_words isStack words
  rw [isEsp] at isSaved
  have suspended : Suspended m t (pgdir ≠ 0) [] [] (some (savedIn m t)) := by
    refine ⟨?_, .nil ?_, rfl⟩
    · rw [isStack, toNat]
      unfold pcbSize
      omega
    · rw [isStack, toNat]
      omega
  refine ⟨by rw [isSaved], ?_, ?_⟩
  · rw [isSaved]
    dsimp only
    rw [isArgs]
    refine args.congr (by simp) fun x inside => ?_
    simp only [Inside, List.length_cons, List.length_nil] at inside
    have inStack : (t + 3684).toNat ≤ x.toNat ∧ x.toNat < t.toNat + 4096 := by bv_omega
    exact stackBytes_inside inStack
  · have result := related.newTask inKernel isNew isPage others suspended
    have sameFrames : Function.update k.frames t [] = k.frames := by rw [← noFrame, Function.update_eq_self]
    have sameContexts : Function.update v.frames t [] = v.frames := by rw [← noContext, Function.update_eq_self]
    rw [sameFrames, sameContexts] at result
    exact result

/-- A child has the context of its parent, with 0 for the result. -/
theorem fork (related : Related k v) (inKernel : k.InKernel) (isNew : t ∉ k.tasks) (isPage : IsPage t)
    (isProcess : pgdir ≠ 0) (isFrame : k.frames k.cur = [frame])
    (fromUser : rpl ((load k.cpu.mem (frame + 60)).setWidth 16) = 3)
    (copied : ∀ i, pcbSize ≤ i → i < 4096 → m (t + BitVec.ofNat 32 i) = k.cpu.mem (k.cur + BitVec.ofNat 32 i))
    (others : ∀ x, ¬ Inside t 4096 x → m x = k.cpu.mem x) (intrExitAddr : Word) :
    (savedIn (buildChildStack m t intrExitAddr) t).eip = intrExitAddr ∧
      ∃ ctx, v.frames k.cur = [ctx] ∧
        Related
          { k with
            cpu := { k.cpu with mem := buildChildStack m t intrExitAddr }
            tasks := t :: k.tasks
            pgdir := Function.update k.pgdir t pgdir
            frames := Function.update k.frames t [t + 4020] }
          { v with
            frames := Function.update v.frames t [setContextReg ctx .eax 0]
            saved := Function.update v.saved t (some (savedIn (buildChildStack m t intrExitAddr) t)) } := by
  have bound := isPage.2
  obtain ⟨framesAt, _⟩ := related.framesAt inKernel
  rw [isFrame] at framesAt
  generalize isContexts : v.frames k.cur = ctxs at framesAt
  cases framesAt with
  | @inner _ _ _ ctx _ _ _ _ words cs =>
      rw [words_cs words, cs] at fromUser
      exact absurd fromUser (by decide)
  | @outer _ _ ctx espDummy errCode _ words level process isTop =>
      have isBehind : k.cur + 4020 + 4 = k.cur + 4024 := by bv_omega
      rw [isTop, isBehind] at words
      have copy : WordsAt m (t + 4024) (frameWords ctx espDummy errCode true) := by
        refine words.copy fun i small => ?_
        have small : i < 72 := small
        have isByte : ∀ c : Word, c + 4024 + BitVec.ofNat 32 i = c + BitVec.ofNat 32 (4024 + i) := fun c => by bv_omega
        rw [isByte, isByte]
        refine copied (4024 + i) ?_ (by omega)
        unfold pcbSize
        omega
      obtain ⟨isStack, words, isChild, inPage⟩ := buildChildStack_spec copy intrExitAddr
      generalize buildChildStack m t intrExitAddr = m' at isStack words isChild inPage ⊢
      have isEsp : t + 4000 + 20 = t + 4020 := by bv_omega
      have isBehind : t + 4020 + 4 = t + 4024 := by bv_omega
      have toNat : (t + 4000).toNat = t.toNat + 4000 := by bv_omega
      have toNat' : (t + 4020).toNat = t.toNat + 4020 := by bv_omega
      refine ⟨by rw [savedIn_of_words isStack words], ctx, rfl, ?_⟩
      refine related.newTask inKernel isNew isPage (fun x outside => (inPage x outside).trans (others x outside)) ?_
      rw [← isBehind] at isChild
      refine ⟨?_, .outer ?_ isChild level isProcess rfl, rfl⟩
      · rw [isStack, toNat]
        unfold pcbSize
        omega
      · have isNat := congrArg BitVec.toNat isStack
        omega

/-- A process begins in user mode. -/
theorem start (related : Related k v) (inKernel : k.InKernel) (noFrame : k.frames k.cur = [])
    (isProcess : k.pgdir k.cur ≠ 0) {stack : Word} (isStack : load k.cpu.mem k.cur + 128 = stack)
    (below : pcbSize ≤ (stack - k.cur).toNat) (above : (stack - k.cur).toNat + 76 ≤ 4096) (function esp : Word) :
    v.frames k.cur = [] ∧
      (run intrExit (startProcess k.cpu k.cur function esp)).context = processContext function esp ∧
      Related { k with cpu := run intrExit (startProcess k.cpu k.cur function esp) } v := by
  obtain ⟨framesAt, _⟩ := related.framesAt inKernel
  rw [noFrame] at framesAt
  unfold pcbSize at below
  obtain ⟨isContext, others⟩ := startProcess_spec isStack (by omega) above inKernel function esp
  generalize isContexts : v.frames k.cur = ctxs at framesAt
  cases framesAt with
  | nil =>
      refine ⟨rfl, isContext, ?_⟩
      have level : rpl ((run intrExit (startProcess k.cpu k.cur function esp)).seg .cs) = 3 :=
        (congrArg (fun ctx => rpl (ctx.seg .cs)) isContext).trans (show rpl 0x2b = 3 by decide)
      have result := related.ofCur others (.user level rfl rfl isProcess)
      have sameFrames : Function.update k.frames k.cur [] = k.frames := by rw [← noFrame, Function.update_eq_self]
      have sameContexts : Function.update v.frames v.cur [] = v.frames := by
        rw [related.cur, ← isContexts, Function.update_eq_self]
      rw [sameFrames, sameContexts] at result
      exact result

end NewTasks

end Related

/-! ### Runs -/

variable {k k' : KernelState} {trace : List Event}

/-- Before the first other thread is there: `main` runs on the stack of its own PCB. -/
structure Booted (k : KernelState) : Prop where
  tasks : k.tasks = [k.cur]
  page : IsPage k.cur
  noProcess : k.pgdir k.cur = 0
  noFrames : ∀ t, k.frames t = []
  cs : k.cpu.seg .cs = 8
  ss : k.cpu.seg .ss = 0x10
  ss0 : k.tss.ss0 = 0x10
  above : k.cur.toNat + pcbSize ≤ (k.cpu.reg .esp).toNat
  inPage : (k.cpu.reg .esp).toNat ≤ k.cur.toNat + 4096

/-- No task has saved anything. -/
def bootedViews (cur : Word) : Views := ⟨cur, fun _ => [], fun _ => none⟩

theorem Booted.related (booted : Booted k) : Related k (bootedViews k.cur) where
  cur := rfl
  isTask := by
    rw [booted.tasks]
    exact List.mem_singleton_self _
  pages t isTask := by
    rw [booted.tasks, List.mem_singleton] at isTask
    exact isTask ▸ booted.page
  ss0 := booted.ss0
  esp0 isProcess := absurd booted.noProcess isProcess
  mode := by
    rw [booted.noFrames]
    exact .kernel booted.cs booted.ss booted.above (.nil booted.inPage)
  suspended t isTask ne := by
    rw [booted.tasks, List.mem_singleton] at isTask
    exact absurd isTask ne
  fresh t _ := ⟨rfl, rfl, booted.noFrames t⟩

end ZyOs.Thread.Contexts
