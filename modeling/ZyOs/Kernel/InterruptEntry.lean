import ZyOs.Lib.Processor

/-!
Contract: `kernel/kernel.S`: the ways into an interrupt handler and a system call, and
`intr_exit`.

Owns:
- `VECTOR` with its table, `syscall_handler` and `intr_exit`, instruction by instruction;
- `struct intr_stack`, as the words that the entry leaves and the exit takes;
- for which vectors the exit gives back every context that the entry has saved;
- what a system call changes of the registers of its caller.

Does not own: the handlers, but for what they leave of the stack.
-/

namespace ZyOs.Kernel

open ZyOs.Lib

/-! ### The code -/

/-- `ZERO` and `ERROR_CODE`. -/
inductive ErrorMark where
  | zero
  | errorCode
deriving DecidableEq, Repr

def ErrorMark.instr : ErrorMark → Instr
  | .zero => .pushImm 0
  | .errorCode => .nop

def saveContext : List Instr := [.pushSeg .ds, .pushSeg .es, .pushSeg .fs, .pushSeg .gs, .pushad]

/-- `VECTOR vec, mark`, up to the `call`. -/
def vectorEntry (vec : Nat) (mark : ErrorMark) : List Instr :=
  [mark.instr] ++ saveContext ++ [.movAl 0x20, .out, .out, .pushImm (BitVec.ofNat 32 vec)]

/-- The second arguments of `VECTOR`, from vector 0 on. -/
def vectorMarks : List ErrorMark :=
  [.zero, .zero, .zero, .zero, .zero, .zero, .zero, .zero,
    .errorCode, .zero, .errorCode, .errorCode, .zero, .errorCode, .errorCode, .zero,
    .zero, .errorCode, .zero, .zero, .zero, .zero, .zero, .zero,
    .errorCode, .zero, .errorCode, .errorCode, .zero, .errorCode, .errorCode, .zero] ++
    List.replicate 16 .zero

/-- `intr_exit`, up to its `iretd`. -/
def intrExitPops : List Instr :=
  [.addEsp 4, .popad, .popSeg .gs, .popSeg .fs, .popSeg .es, .popSeg .ds, .addEsp 4]

/-- `intr_exit`. -/
def intrExit : List Instr := intrExitPops ++ [.iretd]

/-- `syscall_handler`, up to `vec_no`. -/
def syscallSave : List Instr := [.pushImm 0] ++ saveContext ++ [.pushImm 0x80]

/-- `syscall_handler`, up to the `call`. -/
def syscallEntry : List Instr := syscallSave ++ [.pushReg .edx, .pushReg .ecx, .pushReg .ebx]

/-- `syscall_handler`, behind the `call`: the result goes to the `eax` of the frame. -/
def syscallAnswer : List Instr := [.addEsp 12, .store .esp 32 .eax]

def syscallExit : List Instr := syscallAnswer ++ intrExit

/-! ### The frame -/

/-- `struct intr_stack` from `edi` to `ds`. -/
def registerWords (ctx : Context) (espDummy : Word) : List Word :=
  [ctx.reg .edi, ctx.reg .esi, ctx.reg .ebp, espDummy, ctx.reg .ebx, ctx.reg .edx, ctx.reg .ecx, ctx.reg .eax,
    (ctx.seg .gs).setWidth 32, (ctx.seg .fs).setWidth 32, (ctx.seg .es).setWidth 32, (ctx.seg .ds).setWidth 32]

/-- `struct intr_stack` behind `vec_no`. -/
def frameWords (ctx : Context) (espDummy errCode : Word) (outer : Bool) : List Word :=
  registerWords ctx espDummy ++ errCode :: returnWords ctx outer

variable {base c c' : Cpu} {ctx : Context} {espDummy errCode : Word} {ws : List Word}

/-! ### The entry -/

/-- The registers are saved in the order of `struct intr_stack`. -/
theorem saveContext_stacked (stacked : Stacked base c ws) (few : ws.length ≤ 1000) :
    Stacked base (run saveContext c) (registerWords c.context (c.reg .esp - 16) ++ ws) := by
  have segments := (((stacked.push (by omega) ((c.seg .ds).setWidth 32)).push (by simp; omega)
    ((c.seg .es).setWidth 32)).push (by simp; omega) ((c.seg .fs).setWidth 32)).push (by simp; omega)
    ((c.seg .gs).setWidth 32)
  have saved := (((((((segments.push (by simp; omega) (c.reg .eax)).push (by simp; omega) (c.reg .ecx)).push
    (by simp; omega) (c.reg .edx)).push (by simp; omega) (c.reg .ebx)).push (by simp; omega)
    (c.reg .esp - 16)).push (by simp; omega) (c.reg .ebp)).push (by simp; omega) (c.reg .esi)).push
    (by simp; omega) (c.reg .edi)
  have isEsp : c.reg .esp - 4 - 4 - 4 - 4 = c.reg .esp - 16 := by bv_omega
  rw [← isEsp] at saved ⊢
  exact saved

theorem saveContext_kept (c : Cpu) : (∀ r, r ≠ .esp → (run saveContext c).reg r = c.reg r) ∧
    (run saveContext c).seg = c.seg ∧ (run saveContext c).eflags = c.eflags := by
  refine ⟨fun r ne => ?_, rfl, rfl⟩
  simp [run, saveContext, Instr.exec, Cpu.pushad, Cpu.pushSeg, ne]

theorem run_intrExit (c : Cpu) : run intrExit c = (run intrExitPops c).iretd := run_append _ _ _

/-! ### The exit -/

/-- The pops of `intr_exit` give the registers back. -/
theorem intrExitPops_restored (words : WordsAt c.mem (c.reg .esp + 4) (registerWords ctx espDummy)) :
    Restored (run intrExitPops c) ctx := by
  simp only [WordsAt, registerWords] at words
  obtain ⟨edi, esi, ebp, _, ebx, edx, ecx, eax, gs, fs, es, ds, _⟩ := words
  simp only [run, intrExitPops, List.foldl_cons, List.foldl_nil, Instr.exec, Cpu.popad]
  constructor
  · intro r ne
    cases r with
    | esp => exact absurd rfl ne
    | eax => simpa [Cpu.top] using eax
    | ecx => simpa [Cpu.top] using ecx
    | edx => simpa [Cpu.top] using edx
    | ebx => simpa [Cpu.top] using ebx
    | ebp => simpa [Cpu.top] using ebp
    | esi => simpa [Cpu.top] using esi
    | edi => simpa [Cpu.top] using edi
  · intro s notCs notSs
    cases s with
    | cs => exact absurd rfl notCs
    | ss => exact absurd rfl notSs
    | ds => simpa [Cpu.top] using setWidth_of_eq ds
    | es => simpa [Cpu.top] using setWidth_of_eq es
    | fs => simpa [Cpu.top] using setWidth_of_eq fs
    | gs => simpa [Cpu.top] using setWidth_of_eq gs

theorem intrExitPops_esp (c : Cpu) : (run intrExitPops c).reg .esp = c.reg .esp + 56 := by
  show c.reg .esp + 4 + 4 + 4 + 4 + 4 + 4 + 4 + 4 + 4 + 4 + 4 + 4 + 4 + 4 = _
  bv_omega

theorem intrExitPops_kept (c : Cpu) : (run intrExitPops c).seg .cs = c.seg .cs ∧
    (run intrExitPops c).seg .ss = c.seg .ss ∧ (run intrExitPops c).mem = c.mem :=
  ⟨rfl, rfl, rfl⟩

/-- The words behind those of the registers. -/
theorem intrExitPops_words (words : WordsAt c.mem (c.reg .esp + 4) (registerWords ctx espDummy ++ errCode :: ws)) :
    WordsAt (run intrExitPops c).mem ((run intrExitPops c).reg .esp) ws := by
  obtain ⟨_, _, rest⟩ := WordsAt.append.mp words
  rw [intrExitPops_esp, (intrExitPops_kept c).2.2]
  have isEnd : c.reg .esp + 4 + BitVec.ofNat 32 (4 * (registerWords ctx espDummy).length) + 4 = c.reg .esp + 56 := by
    show c.reg .esp + 4 + 48 + 4 = _
    bv_omega
  rw [← isEnd]
  exact rest

/-- `intr_exit` to an outer level. -/
theorem intrExit_outer (words : WordsAt c.mem (c.reg .esp + 4) (frameWords ctx espDummy errCode true))
    (level : rpl (c.seg .cs) < rpl (ctx.seg .cs)) :
    (run intrExit c).context = ctx ∧ (run intrExit c).mem = c.mem := by
  obtain ⟨sameCs, _, sameMem⟩ := intrExitPops_kept c
  have restored : Restored (run intrExitPops c) ctx := intrExitPops_restored (WordsAt.append.mp words).1
  obtain ⟨isContext, isMem⟩ := restored.iretd_outer (intrExitPops_words words) (by rw [sameCs]; exact level)
  rw [run_intrExit]
  exact ⟨isContext, isMem.trans sameMem⟩

/-- `intr_exit` to the level that the code has. -/
theorem intrExit_inner (words : WordsAt c.mem (c.reg .esp + 4) (frameWords ctx espDummy errCode false))
    (level : rpl (ctx.seg .cs) ≤ rpl (c.seg .cs)) (ss : c.seg .ss = ctx.seg .ss)
    (esp : c.reg .esp + 68 = ctx.reg .esp) :
    (run intrExit c).context = ctx ∧ (run intrExit c).mem = c.mem := by
  obtain ⟨sameCs, sameSs, sameMem⟩ := intrExitPops_kept c
  have restored : Restored (run intrExitPops c) ctx := intrExitPops_restored (WordsAt.append.mp words).1
  have isEsp : (run intrExitPops c).reg .esp + 12 = ctx.reg .esp := by
    rw [intrExitPops_esp, ← esp]
    bv_omega
  obtain ⟨isContext, isMem⟩ := restored.iretd_inner (intrExitPops_words words) (by rw [sameCs]; exact level)
    (sameSs.trans ss) isEsp
  rw [run_intrExit]
  exact ⟨isContext, isMem.trans sameMem⟩

/-- Where `intr_exit` returns to. -/
theorem intrExit_eip {eip : Word} (words : WordsAt c.mem (c.reg .esp + 4)
    (registerWords ctx espDummy ++ errCode :: eip :: ws)) : (run intrExit c).eip = eip := by
  obtain ⟨isEip, _⟩ := intrExitPops_words words
  rw [run_intrExit]
  unfold Cpu.iretd
  dsimp only
  split <;> exact isEip

/-! ### Interrupts -/

def ErrorMark.words : ErrorMark → List Word
  | .zero => [0]
  | .errorCode => []

theorem ErrorMark.exec_stacked (mark : ErrorMark) (stacked : Stacked base c ws) (few : ws.length ≤ 1000) :
    Stacked base (mark.instr.exec c) (mark.words ++ ws) := by
  cases mark with
  | zero => exact stacked.push (by omega) 0
  | errorCode => exact stacked

theorem registerWords_congr {ctx' : Context} (reg : ∀ r, r ≠ .esp → ctx'.reg r = ctx.reg r)
    (seg : ∀ s, s ≠ .cs → s ≠ .ss → ctx'.seg s = ctx.seg s) (espDummy : Word) :
    registerWords ctx' espDummy = registerWords ctx espDummy := by
  unfold registerWords
  rw [reg .edi (by decide), reg .esi (by decide), reg .ebp (by decide), reg .ebx (by decide), reg .edx (by decide),
    reg .ecx (by decide), reg .eax (by decide), seg .gs (by decide) (by decide), seg .fs (by decide) (by decide),
    seg .es (by decide) (by decide), seg .ds (by decide) (by decide)]

theorem run_vectorEntry (vec : Nat) (mark : ErrorMark) (c : Cpu) : run (vectorEntry vec mark) c =
    ((Instr.movAl 0x20).exec (run saveContext (mark.instr.exec c))).push (BitVec.ofNat 32 vec) := by
  rw [vectorEntry, run_append, run_append]
  rfl

/-- The stack of a handler, above its return address: `struct intr_stack`, if the mark
agrees with the processor. -/
theorem vectorEntry_stacked (c : Cpu) (tss : Tss) (gate : Gate) (vec : Nat) (mark : ErrorMark)
    (errCode : Option Word) : ∃ espDummy,
      Stacked (c.onStack tss gate) (run (vectorEntry vec mark) (c.interrupt tss gate errCode))
        (BitVec.ofNat 32 vec :: (registerWords c.context espDummy ++
          (mark.words ++ (errCode.toList ++ returnWords c.context (c.rises gate))))) := by
  have few : (errCode.toList ++ returnWords c.context (c.rises gate)).length ≤ 6 := by
    cases errCode <;> cases c.rises gate <;> simp [returnWords]
  have marked := mark.exec_stacked (Stacked.interrupt c tss gate errCode) (by omega)
  have fewMarked : (mark.words ++ (errCode.toList ++ returnWords c.context (c.rises gate))).length ≤ 7 := by
    rw [List.length_append]
    cases mark <;> simp only [ErrorMark.words, List.length_cons, List.length_nil] <;> omega
  have saved := saveContext_stacked marked (by omega)
  have markKept : ∀ r, r ≠ .esp → (mark.instr.exec (c.interrupt tss gate errCode)).reg r = c.reg r := by
    intro r ne
    cases mark with
    | zero => exact (Cpu.push_reg ne).trans (Cpu.interrupt_reg ne)
    | errorCode => exact Cpu.interrupt_reg ne
  have markSeg : ∀ s, s ≠ .cs → s ≠ .ss → (mark.instr.exec (c.interrupt tss gate errCode)).seg s = c.seg s := by
    intro s notCs notSs
    cases mark <;> exact Cpu.interrupt_seg notCs notSs
  rw [@registerWords_congr c.context (mark.instr.exec (c.interrupt tss gate errCode)).context markKept markSeg]
    at saved
  have fits : 4 * ((registerWords c.context ((mark.instr.exec (c.interrupt tss gate errCode)).reg .esp - 16) ++
      (mark.words ++ (errCode.toList ++ returnWords c.context (c.rises gate)))).length + 1) ≤ 2 ^ 32 := by
    rw [List.length_append]
    show 4 * (12 + _ + 1) ≤ _
    omega
  rw [run_vectorEntry]
  generalize run saveContext (mark.instr.exec (c.interrupt tss gate errCode)) = c₁ at saved
  have moved : Stacked (c.onStack tss gate) ((Instr.movAl 0x20).exec c₁) _ :=
    saved.congr (Cpu.setReg_reg (by decide)) rfl
  exact ⟨_, moved.push fits _⟩

/-- The level of the handler, and its stack segment. -/
theorem vectorEntry_seg (c : Cpu) (tss : Tss) (gate : Gate) (vec : Nat) (mark : ErrorMark)
    (errCode : Option Word) :
    (run (vectorEntry vec mark) (c.interrupt tss gate errCode)).seg = (c.interrupt tss gate errCode).seg := by
  cases mark <;> rfl

/-- A handler was called and has returned: above its argument the stack is as it was. -/
structure Handled (c c' : Cpu) : Prop where
  esp : c'.reg .esp = c.reg .esp
  cs : c'.seg .cs = c.seg .cs
  ss : c'.seg .ss = c.seg .ss
  mem : ∀ x, Inside (c.reg .esp + 4) 76 x → c'.mem x = c.mem x

/-- Whatever is interrupted, and whatever the handler does, `intr_exit` gives back the
registers that there were. -/
def Restores (vec : Nat) (mark : ErrorMark) (pushesError : Bool) : Prop :=
  ∀ (c c' : Cpu) (tss : Tss) (gate : Gate) (errCode : Option Word), errCode.isSome = pushesError →
    Handled (run (vectorEntry vec mark) (c.interrupt tss gate errCode)) c' → (run intrExit c').context = c.context

theorem Handled.words (handled : Handled c c') (few : ws.length ≤ 19) (words : WordsAt c.mem (c.reg .esp + 4) ws) :
    WordsAt c'.mem (c'.reg .esp + 4) ws := by
  rw [handled.esp]
  refine words.congr (by omega) fun x inside => handled.mem x ?_
  unfold Inside at inside ⊢
  omega

/-- A frame with all its words. -/
theorem vectorEntry_frame {vec : Nat} {mark : ErrorMark} {error? : Option Word} (c : Cpu) (tss : Tss) (gate : Gate)
    (isFrame : mark.words ++ error?.toList = [errCode]) : ∃ espDummy,
      Stacked (c.onStack tss gate) (run (vectorEntry vec mark) (c.interrupt tss gate error?))
        (BitVec.ofNat 32 vec :: frameWords c.context espDummy errCode (c.rises gate)) := by
  obtain ⟨espDummy, stacked⟩ := vectorEntry_stacked c tss gate vec mark error?
  rw [← List.append_assoc mark.words, isFrame] at stacked
  exact ⟨espDummy, stacked⟩

theorem restores_of_frame {vec : Nat} {mark : ErrorMark} {tss : Tss} {gate : Gate} {error? : Option Word}
    (isFrame : mark.words ++ error?.toList = [errCode])
    (handled : Handled (run (vectorEntry vec mark) (c.interrupt tss gate error?)) c') :
    (run intrExit c').context = c.context := by
  obtain ⟨espDummy, stacked⟩ := @vectorEntry_frame errCode vec mark error? c tss gate isFrame
  have isCs : c'.seg .cs = gate.selector := by
    rw [handled.cs, vectorEntry_seg, Cpu.interrupt_cs]
  have isSs : c'.seg .ss = if c.rises gate then tss.ss0 else c.seg .ss := by
    rw [handled.ss, vectorEntry_seg, Cpu.interrupt_ss]
  cases rises : c.rises gate with
  | true =>
      rw [rises] at stacked
      have words : WordsAt c'.mem (c'.reg .esp + 4) (frameWords c.context espDummy errCode true) :=
        handled.words (by simp [frameWords, registerWords, returnWords]) stacked.words.2
      refine (intrExit_outer words ?_).1
      rw [isCs]
      exact of_decide_eq_true rises
  | false =>
      rw [rises] at stacked isSs
      have isBase : c.onStack tss gate = c := by
        unfold Cpu.onStack
        rw [rises]
        rfl
      rw [isBase] at stacked
      have words : WordsAt c'.mem (c'.reg .esp + 4) (frameWords c.context espDummy errCode false) :=
        handled.words (by simp [frameWords, registerWords, returnWords]) stacked.words.2
      refine (intrExit_inner words ?_ isSs ?_).1
      · rw [isCs]
        exact Nat.not_lt.mp (of_decide_eq_false rises)
      · rw [handled.esp, stacked.esp]
        show c.reg .esp - 68 + 68 = _
        rw [BitVec.sub_add_cancel]
        rfl

/-- A processor whose next instruction is at address 1. -/
def atOne : Cpu := ⟨fun _ => 0, fun _ => 8, 1, 0, fun _ => 0⟩

theorem Handled.refl (c : Cpu) : Handled c c := ⟨rfl, rfl, rfl, fun _ _ => rfl⟩

/-- Where a frame is one word too long, or too short, `intr_exit` returns to another address. -/
theorem not_restores_of_words {vec : Nat} {mark : ErrorMark} {error? : Option Word} {first eip : Word}
    (isFrame : mark.words ++ (error?.toList ++ returnWords atOne.context false) = first :: eip :: ws) (ne : eip ≠ 1) :
    ¬ Restores vec mark error?.isSome := by
  intro restores
  obtain ⟨espDummy, stacked⟩ := vectorEntry_stacked atOne ⟨0, 0⟩ ⟨8, 0⟩ vec mark error?
  have notRises : atOne.rises ⟨8, 0⟩ = false := by decide
  rw [notRises, isFrame] at stacked
  have isEip := intrExit_eip stacked.words.2
  have isContext := restores atOne _ ⟨0, 0⟩ ⟨8, 0⟩ error? rfl (Handled.refl _)
  exact ne (isEip.symm.trans (congrArg Context.eip isContext))

/-- The mark of a vector is right exactly when it says what the processor does. -/
theorem restores_iff (vec : Nat) (mark : ErrorMark) (pushesError : Bool) :
    Restores vec mark pushesError ↔ (mark = .errorCode ↔ pushesError = true) := by
  cases mark with
  | zero =>
      cases pushesError with
      | false =>
          refine iff_of_true (fun c c' tss gate error? isError handled => ?_) (by decide)
          rw [Option.isSome_eq_false_iff, Option.isNone_iff_eq_none] at isError
          subst isError
          exact restores_of_frame rfl handled
      | true =>
          exact iff_of_false (@not_restores_of_words _ vec .zero (some 0) 0 0 rfl (by decide)) (by decide)
  | errorCode =>
      cases pushesError with
      | true =>
          refine iff_of_true (fun c c' tss gate error? isError handled => ?_) (by decide)
          obtain ⟨errCode, rfl⟩ := Option.isSome_iff_exists.mp isError
          exact restores_of_frame rfl handled
      | false =>
          exact iff_of_false (@not_restores_of_words _ vec .errorCode none 1 8 rfl (by decide)) (by decide)

/-- The vectors for which the processor pushes an error code: #DF, #TS, #NP, #SS, #GP, #PF
and #AC. -/
def pushesErrorCode (vec : Nat) : Bool := vec ∈ [8, 10, 11, 12, 13, 14, 17]

/-- `kernel.S` is right for all vectors but the stack fault, for which the table has `ZERO`,
and five reserved ones with `ERROR_CODE`. -/
theorem vector_table_restores (vec : Nat) (inTable : vec < 48) :
    Restores vec (vectorMarks.getD vec .zero) (pushesErrorCode vec) ↔
      vec ∉ [0x0c, 0x18, 0x1a, 0x1b, 0x1d, 0x1e] := by
  rw [restores_iff]
  revert vec
  decide

theorem vector_table_restores_timer :
    Restores 0x20 (vectorMarks.getD 0x20 .zero) (pushesErrorCode 0x20) ↔
      0x20 ∉ [0x0c, 0x18, 0x1a, 0x1b, 0x1d, 0x1e] :=
  vector_table_restores 0x20 (by decide)

/-! ### System calls -/

/-- `_syscall3`, in front of `int $0x80`. -/
def loadCall (c : Cpu) (number arg1 arg2 arg3 : Word) : Cpu :=
  (((c.setReg .eax number).setReg .ebx arg1).setReg .ecx arg2).setReg .edx arg3

/-- A context with another value in a register. -/
def setContextReg (ctx : Context) (r : Reg) (w : Word) : Context := { ctx with reg := Function.update ctx.reg r w }

theorem length_frameWords (ctx : Context) (espDummy errCode : Word) (outer : Bool) :
    (frameWords ctx espDummy errCode outer).length ≤ 18 := by
  cases outer <;> simp [frameWords, registerWords, returnWords]

theorem run_syscallSave (c : Cpu) : run syscallSave c = (run saveContext (c.push 0)).push 0x80 := by
  rw [syscallSave, run_append, run_append]
  rfl

theorem syscallSave_kept (c : Cpu) : (∀ r, r ≠ .esp → (run syscallSave c).reg r = c.reg r) ∧
    (run syscallSave c).seg = c.seg ∧ (run syscallSave c).eflags = c.eflags := by
  obtain ⟨reg, seg, eflags⟩ := saveContext_kept (c.push 0)
  rw [run_syscallSave, Cpu.push_seg, Cpu.push_eflags, seg, eflags]
  refine ⟨fun r ne => ?_, rfl, rfl⟩
  rw [Cpu.push_reg ne, reg r ne, Cpu.push_reg ne]

/-- The frame of a system call is like that of an interrupt with `ZERO`. -/
theorem syscallSave_stacked (c : Cpu) (tss : Tss) (gate : Gate) : ∃ espDummy,
    Stacked (c.onStack tss gate) (run syscallSave (c.interrupt tss gate none))
      (0x80 :: frameWords c.context espDummy 0 (c.rises gate)) := by
  have interrupted : Stacked (c.onStack tss gate) (c.interrupt tss gate none)
      (returnWords c.context (c.rises gate)) := Stacked.interrupt c tss gate none
  have fewReturn : (returnWords c.context (c.rises gate)).length ≤ 5 := by
    cases c.rises gate <;> simp [returnWords]
  have zeroed := interrupted.push (by omega) 0
  have saved := saveContext_stacked zeroed (by rw [List.length_cons]; omega)
  have reg : ∀ r, r ≠ .esp → ((c.interrupt tss gate none).push 0).reg r = c.reg r :=
    fun r ne => (Cpu.push_reg ne).trans (Cpu.interrupt_reg ne)
  rw [@registerWords_congr c.context ((c.interrupt tss gate none).push 0).context reg
    fun s notCs notSs => Cpu.interrupt_seg notCs notSs] at saved
  rw [run_syscallSave]
  generalize run saveContext ((c.interrupt tss gate none).push 0) = c₁ at saved
  generalize ((c.interrupt tss gate none).push 0).reg .esp - 16 = espDummy at saved
  have isFrame : Stacked (c.onStack tss gate) c₁ (frameWords c.context espDummy 0 (c.rises gate)) := saved
  have few := length_frameWords c.context espDummy 0 (c.rises gate)
  exact ⟨espDummy, isFrame.push (by omega) 0x80⟩

/-- `int $0x80`, up to the call through `syscall_table`. -/
def enterSyscall (c : Cpu) (tss : Tss) (gate : Gate) : Cpu := run syscallEntry (c.interrupt tss gate none)

/-- The function of the table was called and has returned: its arguments are its own, and
the frame above is as it was. -/
structure Served (c c' : Cpu) : Prop where
  esp : c'.reg .esp = c.reg .esp
  cs : c'.seg .cs = c.seg .cs
  ss : c'.seg .ss = c.seg .ss
  mem : ∀ x, Inside (c.reg .esp + 12) 76 x → c'.mem x = c.mem x

theorem run_syscallEntry (c : Cpu) : run syscallEntry c =
    (((run syscallSave c).push ((run syscallSave c).reg .edx)).push ((run syscallSave c).reg .ecx)).push
      ((run syscallSave c).reg .ebx) := by
  rw [syscallEntry, run_append]
  generalize run syscallSave c = c₁
  simp only [run, List.foldl_cons, List.foldl_nil, Instr.exec, Cpu.push_reg, ne_eq, reduceCtorEq, not_false_eq_true]

/-- The stack of a function of `syscall_table`, above its return address. -/
theorem syscallEntry_stacked (c : Cpu) (tss : Tss) (gate : Gate) : ∃ espDummy,
    Stacked (c.onStack tss gate) (enterSyscall c tss gate)
      (c.reg .ebx :: c.reg .ecx :: c.reg .edx :: 0x80 :: frameWords c.context espDummy 0 (c.rises gate)) := by
  obtain ⟨espDummy, saved⟩ := syscallSave_stacked c tss gate
  obtain ⟨kept, _⟩ := syscallSave_kept (c.interrupt tss gate none)
  have few := length_frameWords c.context espDummy 0 (c.rises gate)
  rw [enterSyscall, run_syscallEntry, kept .edx (by decide), kept .ecx (by decide), kept .ebx (by decide),
    Cpu.interrupt_reg (by decide), Cpu.interrupt_reg (by decide), Cpu.interrupt_reg (by decide)]
  exact ⟨espDummy, ((saved.push (by rw [List.length_cons]; omega) (c.reg .edx)).push
    (by rw [List.length_cons, List.length_cons]; omega) (c.reg .ecx)).push
    (by rw [List.length_cons, List.length_cons, List.length_cons]; omega) (c.reg .ebx)⟩

theorem enterSyscall_kept (c : Cpu) (tss : Tss) (gate : Gate) :
    (enterSyscall c tss gate).reg .eax = c.reg .eax ∧
      (enterSyscall c tss gate).seg = (c.interrupt tss gate none).seg ∧
      (enterSyscall c tss gate).eflags = c.eflags &&& ~~~gateFlags := by
  obtain ⟨kept, seg, eflags⟩ := syscallSave_kept (c.interrupt tss gate none)
  refine ⟨?_, ?_, ?_⟩
  · rw [enterSyscall, run_syscallEntry, Cpu.push_reg (by decide), Cpu.push_reg (by decide), Cpu.push_reg (by decide),
      kept .eax (by decide), Cpu.interrupt_reg (by decide)]
  · rw [enterSyscall, run_syscallEntry, Cpu.push_seg, Cpu.push_seg, Cpu.push_seg, seg]
  · rw [enterSyscall, run_syscallEntry, Cpu.push_eflags, Cpu.push_eflags, Cpu.push_eflags, eflags]
    rfl

/-- The frame with the result of a call in the place of `eax`. -/
theorem frameWords_set (ctx : Context) (espDummy errCode : Word) (outer : Bool) (w : Word) :
    (frameWords ctx espDummy errCode outer).set 7 w = frameWords (setContextReg ctx .eax w) espDummy errCode outer := by
  cases outer <;> simp [frameWords, registerWords, returnWords, setContextReg]

theorem run_syscallExit (c : Cpu) : run syscallExit c = run intrExit (run syscallAnswer c) := run_append _ _ _

theorem syscallAnswer_spec (c : Cpu) : (run syscallAnswer c).reg .esp = c.reg .esp + 12 ∧
    (run syscallAnswer c).mem = store c.mem (c.reg .esp + 12 + 32) (c.reg .eax) ∧
    (run syscallAnswer c).seg = c.seg := by
  simp [run, syscallAnswer, Instr.exec]

theorem enterSyscall_args (c : Cpu) (tss : Tss) (gate : Gate) :
    WordsAt (enterSyscall c tss gate).mem ((enterSyscall c tss gate).reg .esp)
      [c.reg .ebx, c.reg .ecx, c.reg .edx] := by
  obtain ⟨espDummy, stacked⟩ := syscallEntry_stacked c tss gate
  obtain ⟨first, second, third, _⟩ := stacked.words
  exact ⟨first, second, third, trivial⟩

/-- A function that has returned its result in `eax` to a caller with the other registers. -/
theorem syscallExit_context (c : Cpu) (tss : Tss) (gate : Gate) (served : Served (enterSyscall c tss gate) c') :
    (run syscallExit c').context = setContextReg c.context .eax (c'.reg .eax) := by
  obtain ⟨espDummy, stacked⟩ := syscallEntry_stacked c tss gate
  obtain ⟨_, seg, _⟩ := enterSyscall_kept c tss gate
  have few := length_frameWords c.context espDummy 0 (c.rises gate)
  have words : WordsAt c'.mem (c'.reg .esp + 12 + 4) (frameWords c.context espDummy 0 (c.rises gate)) := by
    rw [served.esp]
    have above : WordsAt (enterSyscall c tss gate).mem ((enterSyscall c tss gate).reg .esp + 4 + 4 + 4 + 4)
        (frameWords c.context espDummy 0 (c.rises gate)) := stacked.words.2.2.2.2
    have isAddr : (enterSyscall c tss gate).reg .esp + 4 + 4 + 4 + 4 = (enterSyscall c tss gate).reg .esp + 12 + 4 := by
      bv_omega
    rw [isAddr] at above
    refine above.congr (by omega) fun x inside => served.mem x ?_
    unfold Inside at inside ⊢
    bv_omega
  have isSlot : c'.reg .esp + 12 + 32 = c'.reg .esp + 12 + 4 + BitVec.ofNat 32 (4 * 7) := by bv_omega
  have hasSlot : 7 < (frameWords c.context espDummy 0 (c.rises gate)).length := by
    cases c.rises gate <;> simp [frameWords, registerWords, returnWords]
  have stored := words.set (by omega) hasSlot (c'.reg .eax)
  rw [frameWords_set, ← isSlot] at stored
  have isCs : c'.seg .cs = gate.selector := by
    rw [served.cs, seg, Cpu.interrupt_cs]
  have isSs : c'.seg .ss = if c.rises gate then tss.ss0 else c.seg .ss := by
    rw [served.ss, seg, Cpu.interrupt_ss]
  rw [run_syscallExit]
  obtain ⟨isEsp, isMem, isSeg⟩ := syscallAnswer_spec c'
  rw [← isMem, ← isEsp] at stored
  cases rises : c.rises gate with
  | true =>
      rw [rises] at stored
      refine (intrExit_outer stored ?_).1
      rw [isSeg, isCs]
      exact of_decide_eq_true rises
  | false =>
      rw [rises] at stored isSs stacked
      have isBase : c.onStack tss gate = c := by
        unfold Cpu.onStack
        rw [rises]
        rfl
      rw [isBase] at stacked
      refine (intrExit_inner stored ?_ ?_ ?_).1
      · rw [isSeg, isCs]
        exact Nat.not_lt.mp (of_decide_eq_false rises)
      · rw [isSeg]
        exact isSs
      · rw [isEsp, served.esp, stacked.esp]
        show c.reg .esp - 80 + 12 + 68 = c.reg .esp
        bv_omega

/-- A system call: the function of the table finds the arguments in their order, with the
interrupts off, and its result is all that the caller sees of it. -/
theorem system_call_returns (c : Cpu) (tss : Tss) (gate : Gate) (number arg1 arg2 arg3 : Word) (c' : Cpu)
    (served : Served (enterSyscall (loadCall c number arg1 arg2 arg3) tss gate) c') :
    WordsAt (enterSyscall (loadCall c number arg1 arg2 arg3) tss gate).mem
        ((enterSyscall (loadCall c number arg1 arg2 arg3) tss gate).reg .esp) [arg1, arg2, arg3] ∧
      (enterSyscall (loadCall c number arg1 arg2 arg3) tss gate).reg .eax = number ∧
      (enterSyscall (loadCall c number arg1 arg2 arg3) tss gate).eflags &&& 0x200 = 0 ∧
      (run syscallExit c').context =
        setContextReg (loadCall c number arg1 arg2 arg3).context .eax (c'.reg .eax) := by
  have args := enterSyscall_args (loadCall c number arg1 arg2 arg3) tss gate
  obtain ⟨eax, _, eflags⟩ := enterSyscall_kept (loadCall c number arg1 arg2 arg3) tss gate
  refine ⟨?_, ?_, ?_, syscallExit_context _ tss gate served⟩
  · simpa [loadCall] using args
  · simpa [loadCall] using eax
  · rw [eflags, BitVec.and_assoc]
    have noFlag : ~~~gateFlags &&& 0x200 = 0 := by decide
    rw [noFlag]
    exact BitVec.and_zero

theorem system_call_returns_atOne :
    WordsAt (enterSyscall (loadCall atOne 1 2 3 4) ⟨0, 0⟩ ⟨8, 0⟩).mem
        ((enterSyscall (loadCall atOne 1 2 3 4) ⟨0, 0⟩ ⟨8, 0⟩).reg .esp) [2, 3, 4] ∧
      (enterSyscall (loadCall atOne 1 2 3 4) ⟨0, 0⟩ ⟨8, 0⟩).reg .eax = 1 ∧
      (enterSyscall (loadCall atOne 1 2 3 4) ⟨0, 0⟩ ⟨8, 0⟩).eflags &&& 0x200 = 0 ∧
      (run syscallExit (enterSyscall (loadCall atOne 1 2 3 4) ⟨0, 0⟩ ⟨8, 0⟩)).context =
        setContextReg (loadCall atOne 1 2 3 4).context .eax
          ((enterSyscall (loadCall atOne 1 2 3 4) ⟨0, 0⟩ ⟨8, 0⟩).reg .eax) :=
  system_call_returns atOne ⟨0, 0⟩ ⟨8, 0⟩ 1 2 3 4 _ ⟨rfl, rfl, rfl, fun _ _ => rfl⟩

end ZyOs.Kernel
