import Mathlib.Logic.Function.Basic
import ZyOs.Lib.Words

/-!
Contract: the part of a 32-bit x86 processor that saves and restores contexts.

Owns:
- the registers, and the instructions that move them to the stack and back;
- the stack at an interrupt, with and without a change of the privilege level, and `iretd`;
- `Stacked`: words that were put on a stack.

Does not own: the checks on selectors and pages, and what interrupts the processor.
-/

namespace ZyOs.Lib

/-- The general registers. -/
inductive Reg where
  | eax | ecx | edx | ebx | esp | ebp | esi | edi
deriving DecidableEq, Repr

/-- The segment registers. -/
inductive SegReg where
  | cs | ss | ds | es | fs | gs
deriving DecidableEq, Repr

structure Cpu where
  reg : Reg → Word
  seg : SegReg → BitVec 16
  eip : Word
  eflags : Word
  mem : Memory

/-- What a task sees of the processor. -/
structure Context where
  reg : Reg → Word
  seg : SegReg → BitVec 16
  eip : Word
  eflags : Word

/-- The instructions of straight code. -/
inductive Instr where
  | nop
  | pushImm (w : Word)
  | pushReg (r : Reg)
  | pushSeg (s : SegReg)
  | popReg (r : Reg)
  | popSeg (s : SegReg)
  | pushad
  | popad
  | addEsp (n : Word)
  | movAl (b : BitVec 8)
  | out
  | load (dst base : Reg) (off : Word)
  | store (base : Reg) (off : Word) (src : Reg)
  | ret
  | iretd
deriving DecidableEq, Repr

/-- The privilege level in a selector. -/
def rpl (selector : BitVec 16) : Nat := selector.toNat % 4

namespace Cpu

def context (c : Cpu) : Context := ⟨c.reg, c.seg, c.eip, c.eflags⟩

def setReg (c : Cpu) (r : Reg) (w : Word) : Cpu := { c with reg := Function.update c.reg r w }

def setSeg (c : Cpu) (s : SegReg) (sel : BitVec 16) : Cpu := { c with seg := Function.update c.seg s sel }

def push (c : Cpu) (w : Word) : Cpu :=
  { c with
    reg := Function.update c.reg .esp (c.reg .esp - 4)
    mem := Lib.store c.mem (c.reg .esp - 4) w }

def pushSeg (c : Cpu) (s : SegReg) : Cpu := c.push ((c.seg s).setWidth 32)

/-- The word on the stack. -/
def top (c : Cpu) : Word := Lib.load c.mem (c.reg .esp)

def drop (c : Cpu) : Cpu := c.setReg .esp (c.reg .esp + 4)

def popReg (c : Cpu) (r : Reg) : Cpu := c.drop.setReg r c.top

def popSeg (c : Cpu) (s : SegReg) : Cpu := c.drop.setSeg s (c.top.setWidth 16)

def pushad (c : Cpu) : Cpu :=
  ((((((((c.push (c.reg .eax)).push (c.reg .ecx)).push (c.reg .edx)).push (c.reg .ebx)).push (c.reg .esp)).push
    (c.reg .ebp)).push (c.reg .esi)).push (c.reg .edi))

/-- The stack pointer that was saved is passed over. -/
def popad (c : Cpu) : Cpu :=
  (((((((c.popReg .edi).popReg .esi).popReg .ebp).drop.popReg .ebx).popReg .edx).popReg .ecx).popReg .eax)

def ret (c : Cpu) : Cpu := { c.drop with eip := c.top }

def popFlags (c : Cpu) : Cpu := { c.drop with eflags := c.top }

/-- The stack pointer and the stack segment come back on a return to an outer level. -/
def iretd (c : Cpu) : Cpu :=
  let back := (c.ret.popSeg .cs).popFlags
  if rpl (c.seg .cs) < rpl (back.seg .cs) then
    (back.drop.popSeg .ss).setReg .esp back.top
  else
    back

end Cpu

def Instr.exec : Instr → Cpu → Cpu
  | .nop, c => c
  | .pushImm w, c => c.push w
  | .pushReg r, c => c.push (c.reg r)
  | .pushSeg s, c => c.pushSeg s
  | .popReg r, c => c.popReg r
  | .popSeg s, c => c.popSeg s
  | .pushad, c => c.pushad
  | .popad, c => c.popad
  | .addEsp n, c => c.setReg .esp (c.reg .esp + n)
  | .movAl b, c => c.setReg .eax ((c.reg .eax).extractLsb' 8 24 ++ b)
  | .out, c => c
  | .load dst base off, c => c.setReg dst (Lib.load c.mem (c.reg base + off))
  | .store base off src, c => { c with mem := Lib.store c.mem (c.reg base + off) (c.reg src) }
  | .ret, c => c.ret
  | .iretd, c => c.iretd

/-- Straight code. -/
def run (code : List Instr) (c : Cpu) : Cpu := code.foldl (fun c instr => instr.exec c) c

theorem run_append (first second : List Instr) (c : Cpu) : run (first ++ second) c = run second (run first c) :=
  List.foldl_append

/-! ### Interrupts -/

/-- The stack for level 0. -/
structure Tss where
  esp0 : Word
  ss0 : BitVec 16

/-- An interrupt gate. -/
structure Gate where
  selector : BitVec 16
  offset : Word

/-- The flags TF, IF, NT, RF and VM. -/
def gateFlags : Word := 0x34300

/-- The level changes on the way to the handler. -/
def Cpu.rises (c : Cpu) (gate : Gate) : Bool := decide (rpl gate.selector < rpl (c.seg .cs))

/-- The stack of the handler. -/
def Cpu.onStack (c : Cpu) (tss : Tss) (gate : Gate) : Cpu :=
  if c.rises gate then (c.setReg .esp tss.esp0).setSeg .ss tss.ss0 else c

/-- The old stack is saved where the level changes. -/
def Cpu.enterStack (c : Cpu) (tss : Tss) (gate : Gate) : Cpu :=
  if c.rises gate then
    (((c.onStack tss gate).push ((c.seg .ss).setWidth 32)).push (c.reg .esp))
  else
    c.onStack tss gate

def Cpu.pushError (c : Cpu) : Option Word → Cpu
  | none => c
  | some errCode => c.push errCode

/-- The processor takes an interrupt, with an error code for some vectors. -/
def Cpu.interrupt (c : Cpu) (tss : Tss) (gate : Gate) (errCode : Option Word) : Cpu :=
  let saved := (((c.enterStack tss gate).push c.eflags).pushSeg .cs).push c.eip
  let saved := saved.pushError errCode
  { saved.setSeg .cs gate.selector with eflags := c.eflags &&& ~~~gateFlags, eip := gate.offset }

/-! ### What is on the stack -/

/-- The words are on the stack, above the one that was there, and nothing else was
written. -/
structure Stacked (base c : Cpu) (ws : List Word) : Prop where
  esp : c.reg .esp = base.reg .esp - BitVec.ofNat 32 (4 * ws.length)
  words : WordsAt c.mem (c.reg .esp) ws
  mem : ∀ x, ¬ Inside (c.reg .esp) (4 * ws.length) x → c.mem x = base.mem x

variable {base c c' : Cpu} {ws : List Word} {w : Word} {r : Reg}

theorem Stacked.refl (c : Cpu) : Stacked c c [] where
  esp := by simp
  words := trivial
  mem _ _ := rfl

theorem Stacked.push (stacked : Stacked base c ws) (fits : 4 * (ws.length + 1) ≤ 2 ^ 32) (w : Word) :
    Stacked base (c.push w) (w :: ws) where
  esp := by
    show c.reg .esp - 4 = _
    rw [stacked.esp, List.length_cons]
    bv_omega
  words := by
    show WordsAt (store c.mem (c.reg .esp - 4) w) (c.reg .esp - 4) (w :: ws)
    apply WordsAt.store_cons fits
    rw [BitVec.sub_add_cancel]
    exact stacked.words
  mem x outside := by
    have outside : ¬ Inside (c.reg .esp - 4) (4 * (ws.length + 1)) x := outside
    show store c.mem (c.reg .esp - 4) w x = _
    unfold Inside at outside
    rw [store_other (by unfold Inside; omega)]
    apply stacked.mem
    unfold Inside
    bv_omega

/-- What does not move the stack. -/
theorem Stacked.congr (stacked : Stacked base c ws) (esp : c'.reg .esp = c.reg .esp) (mem : c'.mem = c.mem) :
    Stacked base c' ws where
  esp := esp.trans stacked.esp
  words := by
    rw [esp, mem]
    exact stacked.words
  mem := by
    rw [esp, mem]
    exact stacked.mem

/-! ### Registers -/

namespace Cpu

variable {r' : Reg} {s s' : SegReg}

@[simp] theorem push_reg (ne : r ≠ .esp) : (c.push w).reg r = c.reg r := Function.update_of_ne ne _ _

@[simp] theorem push_seg : (c.push w).seg = c.seg := rfl

@[simp] theorem push_eflags : (c.push w).eflags = c.eflags := rfl

@[simp] theorem push_eip : (c.push w).eip = c.eip := rfl

theorem interrupt_reg {tss : Tss} {gate : Gate} {errCode : Option Word} (ne : r ≠ .esp) :
    (c.interrupt tss gate errCode).reg r = c.reg r := by
  have entered : (c.enterStack tss gate).reg r = c.reg r := by
    unfold enterStack onStack
    split <;> simp [ne, setSeg, setReg]
  cases errCode <;> simpa [interrupt, pushError, setSeg, pushSeg, ne] using entered

theorem interrupt_seg {tss : Tss} {gate : Gate} {errCode : Option Word} (notCs : s ≠ .cs) (notSs : s ≠ .ss) :
    (c.interrupt tss gate errCode).seg s = c.seg s := by
  have entered : (c.enterStack tss gate).seg s = c.seg s := by
    unfold enterStack onStack
    split <;> simp [notSs, setSeg, setReg]
  cases errCode <;> simpa [interrupt, pushError, setSeg, pushSeg, notCs] using entered

theorem interrupt_cs {tss : Tss} {gate : Gate} {errCode : Option Word} :
    (c.interrupt tss gate errCode).seg .cs = gate.selector := by
  simp [interrupt, setSeg]

theorem interrupt_ss {tss : Tss} {gate : Gate} {errCode : Option Word} :
    (c.interrupt tss gate errCode).seg .ss = if c.rises gate then tss.ss0 else c.seg .ss := by
  have entered : (c.enterStack tss gate).seg .ss = if c.rises gate then tss.ss0 else c.seg .ss := by
    unfold enterStack onStack
    split <;> simp [setSeg, setReg]
  cases errCode <;> simpa [interrupt, pushError, setSeg, pushSeg] using entered

@[simp] theorem drop_reg (ne : r ≠ .esp) : c.drop.reg r = c.reg r := Function.update_of_ne ne _ _

@[simp] theorem drop_esp : c.drop.reg .esp = c.reg .esp + 4 := by
  simp only [drop, setReg, Function.update_self]

@[simp] theorem drop_seg : c.drop.seg = c.seg := rfl

@[simp] theorem drop_mem : c.drop.mem = c.mem := rfl

@[simp] theorem popReg_self : (c.popReg r).reg r = c.top := by
  simp only [popReg, setReg, Function.update_self]

@[simp] theorem popReg_reg (ne : r' ≠ r) : (c.popReg r).reg r' = c.drop.reg r' := Function.update_of_ne ne _ _

@[simp] theorem popReg_seg : (c.popReg r).seg = c.seg := rfl

@[simp] theorem popReg_mem : (c.popReg r).mem = c.mem := rfl

@[simp] theorem popSeg_reg : (c.popSeg s).reg = c.drop.reg := rfl

@[simp] theorem popSeg_self : (c.popSeg s).seg s = c.top.setWidth 16 := by
  simp only [popSeg, setSeg, Function.update_self]

@[simp] theorem popSeg_seg (ne : s' ≠ s) : (c.popSeg s).seg s' = c.seg s' := Function.update_of_ne ne _ _

@[simp] theorem popSeg_mem : (c.popSeg s).mem = c.mem := rfl

@[simp] theorem setReg_self : (c.setReg r w).reg r = w := by
  simp only [setReg, Function.update_self]

@[simp] theorem setReg_reg (ne : r' ≠ r) : (c.setReg r w).reg r' = c.reg r' := Function.update_of_ne ne _ _

@[simp] theorem ret_reg : c.ret.reg = c.drop.reg := rfl

@[simp] theorem ret_seg : c.ret.seg = c.seg := rfl

@[simp] theorem ret_eip : c.ret.eip = c.top := rfl

@[simp] theorem ret_mem : c.ret.mem = c.mem := rfl

@[simp] theorem popFlags_reg : c.popFlags.reg = c.drop.reg := rfl

@[simp] theorem popFlags_seg : c.popFlags.seg = c.seg := rfl

@[simp] theorem popFlags_mem : c.popFlags.mem = c.mem := rfl

@[simp] theorem setReg_seg : (c.setReg r w).seg = c.seg := rfl

@[simp] theorem setReg_mem : (c.setReg r w).mem = c.mem := rfl

end Cpu

/-! ### Returns -/

/-- What an interrupt leaves for `iretd`: `eip` to `eflags`, and the stack of an outer
level. -/
def returnWords (ctx : Context) (outer : Bool) : List Word :=
  [ctx.eip, (ctx.seg .cs).setWidth 32, ctx.eflags] ++
    if outer then [ctx.reg .esp, (ctx.seg .ss).setWidth 32] else []

theorem Stacked.enterStack (c : Cpu) (tss : Tss) (gate : Gate) :
    Stacked (c.onStack tss gate) (c.enterStack tss gate)
      (if c.rises gate then [c.reg .esp, (c.seg .ss).setWidth 32] else []) := by
  unfold Cpu.enterStack
  split
  · exact ((Stacked.refl _).push (by simp) _).push (by simp) _
  · exact Stacked.refl _

/-- The words that an interrupt puts on the stack of its handler. -/
theorem Stacked.interrupt (c : Cpu) (tss : Tss) (gate : Gate) (errCode : Option Word) :
    Stacked (c.onStack tss gate) (c.interrupt tss gate errCode)
      (errCode.toList ++ returnWords c.context (c.rises gate)) := by
  have entered := Stacked.enterStack c tss gate
  have sameCs : (c.enterStack tss gate).seg .cs = c.seg .cs := by
    unfold Cpu.enterStack Cpu.onStack
    split <;> rfl
  have few : (if c.rises gate then [c.reg .esp, (c.seg .ss).setWidth 32] else []).length ≤ 2 := by
    split <;> simp
  have saved := ((entered.push (by omega) c.eflags).push (by simp only [List.length_cons]; omega)
    (((c.enterStack tss gate).seg .cs).setWidth 32)).push (by simp only [List.length_cons]; omega) c.eip
  have words : returnWords c.context (c.rises gate) = c.eip :: ((c.enterStack tss gate).seg .cs).setWidth 32 ::
      c.eflags :: (if c.rises gate then [c.reg .esp, (c.seg .ss).setWidth 32] else []) := by
    rw [sameCs]
    rfl
  rw [words]
  cases errCode with
  | none => exact saved.congr rfl rfl
  | some errCode => exact (saved.push (by simp only [List.length_cons]; omega) errCode).congr rfl rfl

theorem setWidth_segment (sel : BitVec 16) : (sel.setWidth 32).setWidth 16 = sel := by
  rw [BitVec.setWidth_setWidth_of_le _ (by decide), BitVec.setWidth_eq]

theorem setWidth_of_eq {sel : BitVec 16} (isWord : w = sel.setWidth 32) : w.setWidth 16 = sel := by
  rw [isWord, setWidth_segment]

variable {ctx : Context}

/-- The context, up to what `iretd` gives back. -/
structure Restored (c : Cpu) (ctx : Context) : Prop where
  reg : ∀ r, r ≠ .esp → c.reg r = ctx.reg r
  seg : ∀ s, s ≠ .cs → s ≠ .ss → c.seg s = ctx.seg s

theorem Context.ext_of {ctx ctx' : Context} (reg : ∀ r, ctx.reg r = ctx'.reg r) (seg : ∀ s, ctx.seg s = ctx'.seg s)
    (eip : ctx.eip = ctx'.eip) (eflags : ctx.eflags = ctx'.eflags) : ctx = ctx' := by
  cases ctx
  cases ctx'
  simp only [Context.mk.injEq]
  exact ⟨funext reg, funext seg, eip, eflags⟩

theorem Restored.iretd_outer (restored : Restored c ctx) (words : WordsAt c.mem (c.reg .esp) (returnWords ctx true))
    (level : rpl (c.seg .cs) < rpl (ctx.seg .cs)) : c.iretd.context = ctx ∧ c.iretd.mem = c.mem := by
  obtain ⟨eip, cs, eflags, esp, ss, _⟩ := words
  have isCs : ((c.ret.popSeg .cs).popFlags).seg .cs = ctx.seg .cs := by
    simpa [Cpu.top] using setWidth_of_eq cs
  unfold Cpu.iretd
  dsimp only
  rw [isCs, if_pos level]
  refine ⟨Context.ext_of (fun r => ?_) (fun s => ?_) eip eflags, rfl⟩
  · by_cases isEsp : r = .esp
    · subst isEsp
      simpa [Cpu.context, Cpu.top] using esp
    · simpa [Cpu.context, isEsp] using restored.reg r isEsp
  · by_cases isSs : s = .ss
    · subst isSs
      simpa [Cpu.context, Cpu.top] using setWidth_of_eq ss
    by_cases isCs' : s = .cs
    · subst isCs'
      simpa [Cpu.context] using isCs
    · simpa [Cpu.context, isSs, isCs'] using restored.seg s isCs' isSs

theorem Restored.iretd_inner (restored : Restored c ctx) (words : WordsAt c.mem (c.reg .esp) (returnWords ctx false))
    (level : rpl (ctx.seg .cs) ≤ rpl (c.seg .cs)) (ss : c.seg .ss = ctx.seg .ss)
    (esp : c.reg .esp + 12 = ctx.reg .esp) : c.iretd.context = ctx ∧ c.iretd.mem = c.mem := by
  obtain ⟨eip, cs, eflags, _⟩ := words
  have isCs : ((c.ret.popSeg .cs).popFlags).seg .cs = ctx.seg .cs := by
    simpa [Cpu.top] using setWidth_of_eq cs
  unfold Cpu.iretd
  dsimp only
  rw [isCs, if_neg (Nat.not_lt.mpr level)]
  refine ⟨Context.ext_of (fun r => ?_) (fun s => ?_) eip eflags, rfl⟩
  · by_cases isEsp : r = .esp
    · subst isEsp
      rw [← esp]
      show c.reg .esp + 4 + 4 + 4 = _
      bv_omega
    · simpa [Cpu.context, isEsp] using restored.reg r isEsp
  · by_cases isSs : s = .ss
    · subst isSs
      simpa [Cpu.context] using ss
    by_cases isCs' : s = .cs
    · subst isCs'
      simpa [Cpu.context] using isCs
    · simpa [Cpu.context, isSs, isCs'] using restored.seg s isCs' isSs

end ZyOs.Lib
