import ZyOs.Kernel.InterruptEntry
import ZyOs.Lib.Masks

/-!
Contract: the kernel stacks of tasks: `switch_to`, and the stacks of tasks that have not
run yet.

Owns:
- `thread/switch.S`, instruction by instruction, and what it saves and loads;
- `running_thread`, and the stacks that `thread_create`, `build_child_stack` and
  `start_process` write;
- what `switch_to` and `intr_exit` make of these stacks.

Does not own: which task is next. A PCB is named by its address.
-/

namespace ZyOs.Thread

open ZyOs.Lib ZyOs.Kernel

/-! ### `switch.S` -/

def saveCallee : List Instr := [.pushReg .esi, .pushReg .edi, .pushReg .ebx, .pushReg .ebp]

/-- `self_kstack` is the first field of a PCB. -/
def swapStacks : List Instr := [.load .eax .esp 20, .store .eax 0 .esp, .load .eax .esp 24, .load .esp .eax 0]

def restoreCallee : List Instr := [.popReg .ebp, .popReg .ebx, .popReg .edi, .popReg .esi, .ret]

/-- `switch_to`. -/
def switchTo : List Instr := saveCallee ++ swapStacks ++ restoreCallee

/-- `running_thread`, for a stack pointer. -/
def runningThread (esp : Word) : Word := esp &&& 0xfffff000

variable {c : Cpu} {cur next sp : Word} {x : Word}

theorem saveCallee_stacked (c : Cpu) :
    Stacked c (run saveCallee c) [c.reg .ebp, c.reg .ebx, c.reg .edi, c.reg .esi] := by
  have pushed := ((((Stacked.refl c).push (by simp) (c.reg .esi)).push (by simp) (c.reg .edi)).push (by simp)
    (c.reg .ebx)).push (by simp) (c.reg .ebp)
  have isRun : run saveCallee c = (((c.push (c.reg .esi)).push (c.reg .edi)).push (c.reg .ebx)).push (c.reg .ebp) := by
    simp [run, saveCallee, Instr.exec]
  rw [isRun]
  exact pushed

theorem swapStacks_spec (c : Cpu) :
    (run swapStacks c).mem = store c.mem (load c.mem (c.reg .esp + 20)) (c.reg .esp) ∧
      (run swapStacks c).reg .esp =
        load (store c.mem (load c.mem (c.reg .esp + 20)) (c.reg .esp))
          (load (store c.mem (load c.mem (c.reg .esp + 20)) (c.reg .esp)) (c.reg .esp + 24)) ∧
      (run swapStacks c).seg = c.seg := by
  simp [run, swapStacks, Instr.exec, Cpu.setReg]

/-- The words that `switch_to` takes from the stack of the next task. -/
theorem restoreCallee_spec {ebp ebx edi esi eip : Word}
    (words : WordsAt c.mem (c.reg .esp) [ebp, ebx, edi, esi, eip]) :
    (run restoreCallee c).reg .ebp = ebp ∧ (run restoreCallee c).reg .ebx = ebx ∧
      (run restoreCallee c).reg .edi = edi ∧ (run restoreCallee c).reg .esi = esi ∧
      (run restoreCallee c).eip = eip ∧ (run restoreCallee c).reg .esp = c.reg .esp + 20 ∧
      (run restoreCallee c).seg = c.seg ∧ (run restoreCallee c).mem = c.mem := by
  simp only [WordsAt] at words
  obtain ⟨isEbp, isEbx, isEdi, isEsi, isEip, _⟩ := words
  simp only [run, restoreCallee, List.foldl_cons, List.foldl_nil, Instr.exec]
  refine ⟨?_, ?_, ?_, ?_, ?_, ?_, rfl, rfl⟩
  · simpa [Cpu.top] using isEbp
  · simpa [Cpu.top] using isEbx
  · simpa [Cpu.top] using isEdi
  · simpa [Cpu.top] using isEsi
  · simpa [Cpu.top] using isEip
  · show c.reg .esp + 4 + 4 + 4 + 4 + 4 = _
    bv_omega

/-- The memory once the current stack is saved. -/
def savedMem (c : Cpu) (cur : Word) : Memory := store (run saveCallee c).mem cur (c.reg .esp - 16)

variable {retaddr : Word}

theorem saveCallee_other (c : Cpu) : ∀ x, ¬ Inside (c.reg .esp - 16) 16 x → (run saveCallee c).mem x = c.mem x := by
  intro x outside
  have stacked := saveCallee_stacked c
  have isEsp : (run saveCallee c).reg .esp = c.reg .esp - 16 := stacked.esp
  apply stacked.mem
  rw [isEsp]
  exact outside

/-- The registers are saved on top of the return address and the arguments. -/
theorem saveCallee_words (args : WordsAt c.mem (c.reg .esp) [retaddr, cur, next]) :
    WordsAt (run saveCallee c).mem (c.reg .esp - 16)
      ([c.reg .ebp, c.reg .ebx, c.reg .edi, c.reg .esi] ++ [retaddr, cur, next]) := by
  have stacked := saveCallee_stacked c
  have isEsp : (run saveCallee c).reg .esp = c.reg .esp - 16 := stacked.esp
  refine WordsAt.append.mpr ⟨?_, ?_⟩
  · rw [← isEsp]
    exact stacked.words
  · have isStart : c.reg .esp - 16 + BitVec.ofNat 32 (4 * 4) = c.reg .esp := by bv_omega
    show WordsAt _ (c.reg .esp - 16 + BitVec.ofNat 32 (4 * 4)) _
    rw [isStart]
    refine args.congr (by simp) fun x inside => saveCallee_other c x ?_
    simp only [Inside, List.length_cons, List.length_nil] at inside ⊢
    bv_omega

/-- What `switch_to` saves is a stack that it can load. -/
theorem savedMem_spec (args : WordsAt c.mem (c.reg .esp) [retaddr, cur, next])
    (apart : ∀ x, Inside cur 4 x → ¬ Inside (c.reg .esp - 16) 28 x) :
    load (savedMem c cur) cur = c.reg .esp - 16 ∧
      WordsAt (savedMem c cur) (c.reg .esp - 16) [c.reg .ebp, c.reg .ebx, c.reg .edi, c.reg .esi, retaddr, cur, next] ∧
      ∀ x, ¬ Inside cur 4 x → ¬ Inside (c.reg .esp - 16) 16 x → savedMem c cur x = c.mem x := by
  refine ⟨load_store _ _ _, ?_, fun x notField outside => ?_⟩
  · exact (saveCallee_words args).congr (by simp) fun x inside => store_other fun field => apart x field inside
  · exact (store_other notField).trans (saveCallee_other c x outside)

/-- `switch_to` goes on with what the stack of the next task has saved. -/
theorem switchTo_spec {ebp ebx edi esi eip : Word} (args : WordsAt c.mem (c.reg .esp) [retaddr, cur, next])
    (apart : ∀ x, Inside cur 4 x → ¬ Inside (c.reg .esp - 16) 28 x)
    (words : WordsAt (savedMem c cur) (load (savedMem c cur) next) [ebp, ebx, edi, esi, eip]) :
    (run switchTo c).reg .ebp = ebp ∧ (run switchTo c).reg .ebx = ebx ∧ (run switchTo c).reg .edi = edi ∧
      (run switchTo c).reg .esi = esi ∧ (run switchTo c).eip = eip ∧
      (run switchTo c).reg .esp = load (savedMem c cur) next + 20 ∧ (run switchTo c).seg = c.seg ∧
      (run switchTo c).mem = savedMem c cur := by
  have isEsp : (run saveCallee c).reg .esp = c.reg .esp - 16 := (saveCallee_stacked c).esp
  have isSeg : (run saveCallee c).seg = c.seg := by
    simp [run, saveCallee, Instr.exec]
  obtain ⟨_, _, _, _, _, isCur, _⟩ := saveCallee_words args
  obtain ⟨_, ⟨_, _, _, _, _, _, isNext, _⟩, _⟩ := savedMem_spec args apart
  have isCur : load (run saveCallee c).mem ((run saveCallee c).reg .esp + 20) = cur := by
    rw [isEsp, ← isCur]
    congr 1
    bv_omega
  have isNext : load (savedMem c cur) ((run saveCallee c).reg .esp + 24) = next := by
    rw [isEsp]
    refine Eq.trans ?_ isNext
    congr 1
    bv_omega
  obtain ⟨swapMem, swapEsp, swapSeg⟩ := swapStacks_spec (run saveCallee c)
  have isSaved : store (run saveCallee c).mem cur ((run saveCallee c).reg .esp) = savedMem c cur := by
    rw [isEsp]
    rfl
  rw [isCur, isSaved] at swapMem swapEsp
  rw [isNext] at swapEsp
  rw [← swapEsp, ← swapMem] at words
  obtain ⟨ebp', ebx', edi', esi', eip', esp', seg', mem'⟩ := restoreCallee_spec words
  have isRun : run switchTo c = run restoreCallee (run swapStacks (run saveCallee c)) := by
    rw [switchTo, run_append, run_append]
  rw [isRun]
  exact ⟨ebp', ebx', edi', esi', eip', by rw [esp', swapEsp], by rw [seg', swapSeg, isSeg], mem'.trans swapMem⟩

/-- The page of the stack is that of the PCB. -/
theorem runningThread_eq {esp : Word} (aligned : cur.toNat % 4096 = 0) (above : cur.toNat ≤ esp.toNat)
    (below : esp.toNat < cur.toNat + 4096) : runningThread esp = cur := by
  apply BitVec.eq_of_toNat_eq
  have isMask : (0xfffff000 : Word).toNat = (2 ^ 20 - 1) <<< 12 := by decide
  have small := esp.isLt
  unfold runningThread
  rw [BitVec.toNat_and, isMask, and_field]
  omega

/-! ### New stacks -/

/-- `init_thread`, of the stack. -/
def initStack (m : Memory) (thread : Word) : Memory := store m thread (thread + 4096)

/-- `self_kstack -= size`, in `uint32_t*`. -/
def reserve (m : Memory) (thread size : Word) : Memory := store m thread (load m thread - 4 * size)

/-- `struct thread_stack` of `thread_create`: `ebp` to `eip`, and behind `unused_retaddr` the
arguments of `kernel_thread`. -/
def putThreadStack (m : Memory) (stack kernelThread function funcArg : Word) : Memory :=
  storeWords (storeWords m (stack + 24) [function, funcArg]) stack [0, 0, 0, 0, kernelThread]

/-- `thread_create`; `struct intr_stack` has 76 bytes and `struct thread_stack` 32. -/
def threadCreate (m : Memory) (thread kernelThread function funcArg : Word) : Memory :=
  let m := reserve (reserve m thread 76) thread 32
  putThreadStack m (load m thread) kernelThread function funcArg

/-- `build_child_stack`: the `eax` of the frame, `ebp` to the return address below the
frame, and `self_kstack`. -/
def buildChildStack (m : Memory) (child intrExitAddr : Word) : Memory :=
  let intr0Stack := child + 4096 - 76
  let m := store m (intr0Stack + 32) 0
  let m := storeWords m (intr0Stack - 20) [0, 0, 0, 0, intrExitAddr]
  store m child (intr0Stack - 20)

/-- The context that `start_process` makes up. -/
def processContext (function esp : Word) : Context where
  reg := Function.update (fun _ => 0) .esp esp
  seg := fun
    | .cs => 0x2b
    | .gs => 0
    | .ss => 0x33
    | .ds => 0x33
    | .es => 0x33
    | .fs => 0x33
  eip := function
  eflags := 0x202

/-- `start_process`, up to the jump: `vec_no` and `err_code` are left as they are. -/
def startProcess (c : Cpu) (cur function esp : Word) : Cpu :=
  let m := store c.mem cur (load c.mem cur + 4 * 32)
  let procStack := load m cur
  let m := storeWords m (procStack + 4) (registerWords (processContext function esp) 0)
  let m := storeWords m (procStack + 56) (returnWords (processContext function esp) true)
  { c.setReg .esp procStack with mem := m }

/-! ### What is on the new stacks -/

section NewStacks

variable {m : Memory} {thread kernelThread function funcArg : Word}

/-- The stack of a thread that waits for its first run. -/
theorem putThreadStack_spec (m : Memory) (stack kernelThread function funcArg : Word) :
    WordsAt (putThreadStack m stack kernelThread function funcArg) stack [0, 0, 0, 0, kernelThread] ∧
      WordsAt (putThreadStack m stack kernelThread function funcArg) (stack + 24) [function, funcArg] ∧
      ∀ x, ¬ Inside stack 32 x → putThreadStack m stack kernelThread function funcArg x = m x := by
  unfold putThreadStack
  refine ⟨storeWords_words _ _ (by simp), ?_, fun x outside => ?_⟩
  · refine (storeWords_words m (stack + 24) (by simp)).congr (by simp) fun x inside => ?_
    refine storeWords_other (by simp) ?_
    simp only [Inside, List.length_cons, List.length_nil] at inside ⊢
    bv_omega
  · unfold Inside at outside
    rw [storeWords_other (by simp), storeWords_other (by simp)]
    · simp only [Inside, List.length_cons, List.length_nil]
      bv_omega
    · simp only [Inside, List.length_cons, List.length_nil]
      omega

/-- A thread that was created starts 432 bytes below the end of its page. -/
theorem threadCreate_spec (m : Memory) (thread kernelThread function funcArg : Word) :
    load (threadCreate (initStack m thread) thread kernelThread function funcArg) thread = thread + 3664 ∧
      WordsAt (threadCreate (initStack m thread) thread kernelThread function funcArg) (thread + 3664)
        [0, 0, 0, 0, kernelThread] ∧
      WordsAt (threadCreate (initStack m thread) thread kernelThread function funcArg) (thread + 3688)
        [function, funcArg] ∧
      ∀ x, ¬ Inside thread 4096 x →
        threadCreate (initStack m thread) thread kernelThread function funcArg x = m x := by
  have isStack : load (reserve (reserve (initStack m thread) thread 76) thread 32) thread = thread + 3664 := by
    unfold reserve initStack
    rw [load_store, load_store, load_store]
    bv_omega
  obtain ⟨words, args, other⟩ := putThreadStack_spec (reserve (reserve (initStack m thread) thread 76) thread 32)
    (thread + 3664) kernelThread function funcArg
  have isArgs : thread + 3664 + 24 = thread + 3688 := by bv_omega
  rw [isArgs] at args
  unfold threadCreate
  dsimp only
  rw [isStack]
  refine ⟨?_, words, args, fun x outside => ?_⟩
  · rw [← isStack]
    refine load_congr fun x inside => ?_
    rw [isStack]
    refine other x ?_
    unfold Inside at inside ⊢
    bv_omega
  · unfold Inside at outside
    rw [other x (by unfold Inside; bv_omega)]
    unfold reserve initStack
    rw [store_apart (by omega), store_apart (by omega), store_apart (by omega)]

/-- The frame of a child is the one that it was copied from, with 0 for the result. -/
theorem buildChildStack_spec {ctx : Context} {espDummy errCode : Word} {outer : Bool} {child : Word}
    (frame : WordsAt m (child + 4024) (frameWords ctx espDummy errCode outer)) (intrExitAddr : Word) :
    load (buildChildStack m child intrExitAddr) child = child + 4000 ∧
      WordsAt (buildChildStack m child intrExitAddr) (child + 4000) [0, 0, 0, 0, intrExitAddr] ∧
      WordsAt (buildChildStack m child intrExitAddr) (child + 4024)
        (frameWords (setContextReg ctx .eax 0) espDummy errCode outer) ∧
      ∀ x, ¬ Inside child 4096 x → buildChildStack m child intrExitAddr x = m x := by
  have isFrame : child + 4096 - 76 = child + 4020 := by bv_omega
  have isSlot : child + 4020 + 32 = child + 4024 + BitVec.ofNat 32 (4 * 7) := by bv_omega
  have isStack : child + 4020 - 20 = child + 4000 := by bv_omega
  unfold buildChildStack
  dsimp only
  rw [isFrame, isSlot, isStack]
  have few := length_frameWords ctx espDummy errCode outer
  have fewSet := length_frameWords (setContextReg ctx .eax 0) espDummy errCode outer
  have hasSlot : 7 < (frameWords ctx espDummy errCode outer).length := by
    cases outer <;> simp [frameWords, registerWords, returnWords]
  have answered := frame.set (by omega) hasSlot 0
  rw [frameWords_set] at answered
  refine ⟨load_store _ _ _, ?_, ?_, fun x outside => ?_⟩
  · refine (storeWords_words (store m (child + 4024 + BitVec.ofNat 32 (4 * 7)) 0) (child + 4000) (by simp)).congr
      (by simp) fun x inside => ?_
    refine store_apart ?_
    simp only [Inside, List.length_cons, List.length_nil] at inside
    bv_omega
  · refine answered.congr (by omega) fun x inside => ?_
    unfold Inside at inside
    rw [store_apart (by bv_omega), storeWords_other (by simp)]
    simp only [Inside, List.length_cons, List.length_nil]
    bv_omega
  · unfold Inside at outside
    rw [store_apart (by omega), storeWords_other (by simp), store_apart (by bv_omega)]
    simp only [Inside, List.length_cons, List.length_nil]
    bv_omega

/-- A process starts with the context that `start_process` makes up, as long as the frame is
in the page of its PCB, behind `self_kstack`. -/
theorem startProcess_spec {stack : Word} (isStack : load c.mem cur + 128 = stack) (below : 8 ≤ (stack - cur).toNat)
    (above : (stack - cur).toNat + 76 ≤ 4096) (level : c.seg .cs = 8) (function esp : Word) :
    (run intrExit (startProcess c cur function esp)).context = processContext function esp ∧
      ∀ x, ¬ Inside cur 4096 x → (run intrExit (startProcess c cur function esp)).mem x = c.mem x := by
  have isProcStack : load (store c.mem cur (load c.mem cur + 4 * 32)) cur = stack :=
    (load_store _ _ _).trans isStack
  generalize isFirst : store c.mem cur (load c.mem cur + 4 * 32) = m₁ at isProcStack
  generalize isSecond : storeWords m₁ (stack + 4) (registerWords (processContext function esp) 0) = m₂
  generalize isThird : storeWords m₂ (stack + 56) (returnWords (processContext function esp) true) = m₃
  have isStart : startProcess c cur function esp = { c.setReg .esp stack with mem := m₃ } := by
    unfold startProcess
    dsimp only
    rw [isFirst, isProcStack, isSecond, isThird]
  have registers : WordsAt m₃ (stack + 4) (registerWords (processContext function esp) 0) := by
    have written : WordsAt m₂ (stack + 4) (registerWords (processContext function esp) 0) := by
      rw [← isSecond]
      exact storeWords_words _ _ (by simp [registerWords])
    refine written.congr (by simp [registerWords]) fun x inside => ?_
    rw [← isThird, storeWords_other (by simp [returnWords])]
    have inside : (x - (stack + 4)).toNat < 48 := inside
    show ¬ (x - (stack + 56)).toNat < 20
    bv_omega
  have returns : WordsAt m₃ (stack + 56) (returnWords (processContext function esp) true) := by
    rw [← isThird]
    exact storeWords_words _ _ (by simp [returnWords])
  have frame : WordsAt m₃ (stack + 4) (frameWords (processContext function esp) 0 (load m₃ (stack + 52)) true) := by
    refine WordsAt.append.mpr ⟨registers, ?_, ?_⟩
    · show load m₃ (stack + 4 + 48) = _
      rw [show stack + 4 + 48 = stack + 52 by bv_omega]
    · show WordsAt m₃ (stack + 4 + 48 + 4) _
      rw [show stack + 4 + 48 + 4 = stack + 56 by bv_omega]
      exact returns
  have isEsp : (startProcess c cur function esp).reg .esp = stack := by
    rw [isStart]
    simp [Cpu.setReg]
  have isMem : (startProcess c cur function esp).mem = m₃ := by rw [isStart]
  have isSeg : (startProcess c cur function esp).seg = c.seg := by
    rw [isStart]
    rfl
  rw [← isMem, ← isEsp] at frame
  obtain ⟨isContext, sameMem⟩ := intrExit_outer frame (by
    rw [isSeg, level]
    show rpl 8 < rpl 0x2b
    decide)
  refine ⟨isContext, fun x outside => ?_⟩
  unfold Inside at outside
  rw [sameMem, isMem, ← isThird, storeWords_other (by simp [returnWords]), ← isSecond,
    storeWords_other (by simp [registerWords]), ← isFirst,
    store_apart (by omega)]
  · show ¬ (x - (stack + 4)).toNat < 48
    bv_omega
  · show ¬ (x - (stack + 56)).toNat < 20
    bv_omega

end NewStacks

end ZyOs.Thread
