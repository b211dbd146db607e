import ZyOs.Kernel.InterruptEntry

/-!
Contract: the interrupt descriptor table of `kernel/interrupt.c`, and where the processor
goes by it.

Owns:
- `make_idt_desc` and `idt_desc_init` over memory, and the operand of `lidt`;
- the choice of a gate: its limit, kind, level and presence, and the fault that follows;
- where each exception, each interrupt of the controllers and each `int n` of a user task goes.

Does not own: the code behind the gates. `intr_entry_table` has 48 entries, and `idt_desc_init`
reads on behind them: the gates from 0x30 on hold what is there.
-/

namespace ZyOs.Kernel

open ZyOs.Lib

/-! ### The table -/

/-- `struct gate_desc`. -/
structure GateDesc where
  funcOffsetLowWord : BitVec 16
  selector : BitVec 16
  dcount : BitVec 8
  attr : BitVec 8
  funcOffsetHighWord : BitVec 16
deriving DecidableEq, Repr

def selectorKCode : BitVec 16 := 1 <<< 3

def idtDescCnt : Nat := 0x81

/-- `IDT_DESC_ATTR_DPL0` and `IDT_DESC_ATTR_DPL3`. -/
def idtDescAttr (dpl : BitVec 8) : BitVec 8 := 1 <<< 7 + dpl <<< 5 + 0xe

def makeIdtDesc (attr : BitVec 8) (function : Word) : GateDesc where
  funcOffsetLowWord := (function &&& 0x0000ffff).setWidth 16
  selector := selectorKCode
  dcount := 0
  attr := attr
  funcOffsetHighWord := ((function &&& 0xffff0000) >>> 16).setWidth 16

/-- The two words of a descriptor. -/
def GateDesc.low (desc : GateDesc) : Word := desc.selector ++ desc.funcOffsetLowWord

def GateDesc.high (desc : GateDesc) : Word := desc.funcOffsetHighWord ++ desc.attr ++ desc.dcount

def storeDesc (m : Memory) (p : Word) (desc : GateDesc) : Memory := store (store m p desc.low) (p + 4) desc.high

/-- `&idt[i]`. -/
def gateAddr (idt : Word) (i : Nat) : Word := idt + BitVec.ofNat 32 (8 * i)

/-- `intr_entry_table[i]`. -/
def entryOf (m : Memory) (intrEntryTable : Word) (i : Nat) : Word := load m (intrEntryTable + BitVec.ofNat 32 (4 * i))

/-- The loop of `idt_desc_init`, with `left` gates to make. -/
def idtDescInitLoop (idt intrEntryTable : Word) : (left : Nat) → (i : Nat) → Memory → Memory
  | 0, _, m => m
  | left + 1, i, m =>
      idtDescInitLoop idt intrEntryTable left (i + 1)
        (storeDesc m (gateAddr idt i) (makeIdtDesc (idtDescAttr 0) (entryOf m intrEntryTable i)))

def idtDescInit (idt intrEntryTable syscallHandler : Word) (m : Memory) : Memory :=
  let m := idtDescInitLoop idt intrEntryTable idtDescCnt 0 m
  storeDesc m (gateAddr idt (idtDescCnt - 1)) (makeIdtDesc (idtDescAttr 3) syscallHandler)

/-- `idt_operand` of `idt_init`. -/
def idtOperand (idt : Word) : BitVec 64 := BitVec.ofNat 64 (8 * idtDescCnt - 1) ||| idt.setWidth 64 <<< 16

/-! ### The processor -/

structure Idtr where
  limit : Nat
  base : Word
deriving DecidableEq, Repr

def lidt (operand : BitVec 64) : Idtr := ⟨(operand.extractLsb' 0 16).toNat, operand.extractLsb' 16 32⟩

/-- What a descriptor says: bits 0 to 4 of its attribute are the kind of gate. -/
structure Descriptor where
  gate : Gate
  kind : BitVec 5
  dpl : Nat
  present : Bool

def decode (low high : Word) : Descriptor where
  gate := ⟨low.extractLsb' 16 16, high.extractLsb' 16 16 ++ low.extractLsb' 0 16⟩
  kind := high.extractLsb' 8 5
  dpl := (high.extractLsb' 13 2).toNat
  present := high.getLsbD 15

def descriptorAt (m : Memory) (idtr : Idtr) (vec : Nat) : Option Descriptor :=
  if 8 * vec + 7 ≤ idtr.limit then
    some (decode (load m (gateAddr idtr.base vec)) (load m (gateAddr idtr.base vec + 4)))
  else none

/-- What raises an interrupt: an instruction at a level, or the processor and its controllers. -/
inductive Cause where
  | instruction (cpl : Nat)
  | event

def Cause.mayUse : Cause → Descriptor → Prop
  | .instruction cpl, descriptor => cpl ≤ descriptor.dpl
  | .event, _ => True

instance (cause : Cause) (descriptor : Descriptor) : Decidable (cause.mayUse descriptor) := by
  cases cause
  · exact inferInstanceAs (Decidable (_ ≤ _))
  · exact inferInstanceAs (Decidable True)

/-- The error code of a fault on the way through gate `vec`. -/
def Cause.errorCode (cause : Cause) (vec : Nat) : Word :=
  match cause with
  | .instruction _ => BitVec.ofNat 32 (8 * vec + 2)
  | .event => BitVec.ofNat 32 (8 * vec + 3)

/-- The gate for a vector, or the fault that comes instead. Gates other than those for 32-bit
interrupts are not made here. -/
def gateFor (m : Memory) (idtr : Idtr) (cause : Cause) (vec : Nat) : Except Nat Gate :=
  match descriptorAt m idtr vec with
  | none => .error 13
  | some descriptor =>
      if descriptor.kind ≠ 0xe ∨ ¬ cause.mayUse descriptor then .error 13
      else if descriptor.present then .ok descriptor.gate
      else .error 11

/-- The vector, gate and error code with which the processor goes to a handler; `none` is a
double fault. -/
def dispatch (m : Memory) (idtr : Idtr) (cause : Cause) (vec : Nat) (errCode : Option Word) :
    Option (Nat × Gate × Option Word) :=
  match gateFor m idtr cause vec with
  | .ok gate => some (vec, gate, errCode)
  | .error fault =>
      match gateFor m idtr .event fault with
      | .ok gate => some (fault, gate, some (cause.errorCode vec))
      | .error _ => none

/-! ### What the table says -/

variable {m m' : Memory} {idt intrEntryTable syscallHandler p x : Word} {left i k vec : Nat}

theorem lidt_operand (idt : Word) : lidt (idtOperand idt) = ⟨8 * idtDescCnt - 1, idt⟩ := by
  have isLimit : (idtOperand idt).extractLsb' 0 16 = BitVec.ofNat 16 (8 * idtDescCnt - 1) := by
    have bits : ∀ i < 16, (BitVec.ofNat 64 (8 * idtDescCnt - 1)).getLsbD i =
        (BitVec.ofNat 16 (8 * idtDescCnt - 1)).getLsbD i := by decide
    ext i small
    rw [idtOperand, BitVec.getElem_extractLsb', BitVec.getLsbD_or, BitVec.getLsbD_shiftLeft, Nat.zero_add, bits i small,
      ← BitVec.getLsbD_eq_getElem]
    simp [small]
  have isBase : (idtOperand idt).extractLsb' 16 32 = idt := by
    have bits : ∀ i < 32, (BitVec.ofNat 64 (8 * idtDescCnt - 1)).getLsbD (16 + i) = false := by decide
    ext i small
    rw [idtOperand, BitVec.getElem_extractLsb', BitVec.getLsbD_or, BitVec.getLsbD_shiftLeft, bits i small,
      ← BitVec.getLsbD_eq_getElem]
    simp [show 16 + i < 64 by omega, show i < 64 by omega]
  rw [lidt, isLimit, isBase]
  rfl

theorem lowWord (function : Word) : (function &&& 0x0000ffff).setWidth 16 = function.extractLsb' 0 16 := by
  have bits : ∀ i < 16, (0x0000ffff : Word).getLsbD i = true := by decide
  ext i small
  simp only [BitVec.getElem_setWidth, BitVec.getLsbD_and, BitVec.getElem_extractLsb', bits i small, Bool.and_true,
    Nat.zero_add]

theorem highWord (function : Word) :
    ((function &&& 0xffff0000) >>> 16).setWidth 16 = function.extractLsb' 16 16 := by
  have bits : ∀ i < 16, (0xffff0000 : Word).getLsbD (16 + i) = true := by decide
  ext i small
  simp only [BitVec.getElem_setWidth, BitVec.getLsbD_ushiftRight, BitVec.getLsbD_and, BitVec.getElem_extractLsb',
    bits i small, Bool.and_true]

/-- A descriptor says what was put into it. -/
theorem decode_makeIdtDesc (attr : BitVec 8) (function : Word) :
    decode (makeIdtDesc attr function).low (makeIdtDesc attr function).high =
      ⟨⟨selectorKCode, function⟩, attr.extractLsb' 0 5, (attr.extractLsb' 5 2).toNat, attr.getLsbD 7⟩ := by
  have isSelector : (makeIdtDesc attr function).low.extractLsb' 16 16 = selectorKCode :=
    BitVec.extractLsb'_append_eq_left
  have isLow : (makeIdtDesc attr function).low.extractLsb' 0 16 = function.extractLsb' 0 16 :=
    BitVec.extractLsb'_append_eq_right.trans (lowWord function)
  have isHigh : (makeIdtDesc attr function).high.extractLsb' 16 16 = function.extractLsb' 16 16 :=
    ((BitVec.extractLsb'_append_eq_of_le (by decide)).trans BitVec.extractLsb'_append_eq_left).trans (highWord function)
  have isKind : (makeIdtDesc attr function).high.extractLsb' 8 5 = attr.extractLsb' 0 5 :=
    (BitVec.extractLsb'_append_eq_of_le (by decide)).trans (BitVec.extractLsb'_append_eq_of_add_le (by decide))
  have isDpl : (makeIdtDesc attr function).high.extractLsb' 13 2 = attr.extractLsb' 5 2 :=
    (BitVec.extractLsb'_append_eq_of_le (by decide)).trans (BitVec.extractLsb'_append_eq_of_add_le (by decide))
  have isPresent : (makeIdtDesc attr function).high.getLsbD 15 = attr.getLsbD 7 :=
    BitVec.getLsbD_append.trans BitVec.getLsbD_append
  rw [decode, isSelector, isHigh, isLow, BitVec.extractLsb'_append_extractLsb', isKind, isDpl, isPresent]

/-! ### What `idt_desc_init` leaves -/

theorem storeDesc_other {desc : GateDesc} (outside : ¬ Inside p 8 x) : storeDesc m p desc x = m x := by
  unfold Inside at outside
  rw [storeDesc, store_apart (by bv_omega), store_apart (by bv_omega)]

theorem load_storeDesc_low (m : Memory) (p : Word) (desc : GateDesc) : load (storeDesc m p desc) p = desc.low := by
  rw [storeDesc, load_store_apart (by bv_omega) (by bv_omega), load_store]

theorem load_storeDesc_high (m : Memory) (p : Word) (desc : GateDesc) :
    load (storeDesc m p desc) (p + 4) = desc.high :=
  load_store _ _ _

/-- Gate `k` in memory, by what decodes it. -/
def gateIn (m : Memory) (idt : Word) (k : Nat) : Descriptor :=
  decode (load m (gateAddr idt k)) (load m (gateAddr idt k + 4))

theorem gateIn_storeDesc (m : Memory) (idt function : Word) (k : Nat) (attr : BitVec 8) :
    gateIn (storeDesc m (gateAddr idt k) (makeIdtDesc attr function)) idt k =
      ⟨⟨selectorKCode, function⟩, attr.extractLsb' 0 5, (attr.extractLsb' 5 2).toNat, attr.getLsbD 7⟩ := by
  rw [gateIn, load_storeDesc_low, load_storeDesc_high, decode_makeIdtDesc]

theorem gateIn_congr (same : ∀ x, Inside (gateAddr idt k) 8 x → m' x = m x) : gateIn m' idt k = gateIn m idt k := by
  unfold Inside at same
  have sameLow : load m' (gateAddr idt k) = load m (gateAddr idt k) := by
    refine load_congr fun x inside => same x ?_
    unfold Inside at inside
    omega
  have sameHigh : load m' (gateAddr idt k + 4) = load m (gateAddr idt k + 4) := by
    refine load_congr fun x inside => same x ?_
    unfold Inside at inside
    bv_omega
  rw [gateIn, sameLow, sameHigh, gateIn]

theorem idtDescInitLoop_other (few : i + left ≤ idtDescCnt) (outside : ¬ Inside (gateAddr idt i) (8 * left) x) :
    idtDescInitLoop idt intrEntryTable left i m x = m x := by
  induction left generalizing i m with
  | zero => rfl
  | succ left inductionHypothesis =>
      unfold Inside gateAddr at outside inductionHypothesis
      unfold idtDescCnt at few inductionHypothesis
      rw [idtDescInitLoop, inductionHypothesis (by omega) (by bv_omega), storeDesc_other]
      unfold Inside gateAddr
      bv_omega

/-- Gate `i + k` of the loop holds what was in the entry table, unless that was overwritten before. -/
theorem idtDescInitLoop_gate (idt intrEntryTable : Word) (m : Memory) (few : i + left ≤ idtDescCnt)
    (small : k < left) : ∃ function,
    gateIn (idtDescInitLoop idt intrEntryTable left i m) idt (i + k) =
        ⟨⟨selectorKCode, function⟩, 0xe, 0, true⟩ ∧
      ((∀ x, Inside (intrEntryTable + BitVec.ofNat 32 (4 * (i + k))) 4 x → ¬ Inside idt (8 * idtDescCnt) x) →
        function = entryOf m intrEntryTable (i + k)) := by
  induction left generalizing m i k with
  | zero => exact absurd small (Nat.not_lt_zero k)
  | succ left inductionHypothesis =>
      rw [idtDescInitLoop]
      cases k with
      | zero =>
          refine ⟨entryOf m intrEntryTable i, ?_, fun _ => rfl⟩
          refine (gateIn_congr fun x inside => idtDescInitLoop_other (by omega) ?_).trans ?_
          · unfold Inside gateAddr at *
            unfold idtDescCnt at few
            bv_omega
          · rw [Nat.add_zero, gateIn_storeDesc, show (idtDescAttr 0).extractLsb' 0 5 = 0xe by decide,
              show ((idtDescAttr 0).extractLsb' 5 2).toNat = 0 by decide,
              show (idtDescAttr 0).getLsbD 7 = true by decide]
      | succ k =>
          obtain ⟨function, isGate, isEntry⟩ := inductionHypothesis (i := i + 1)
            (storeDesc m (gateAddr idt i) (makeIdtDesc (idtDescAttr 0) (entryOf m intrEntryTable i)))
            (by omega) (show k < left by omega)
          rw [show i + 1 + k = i + (k + 1) by omega] at isGate isEntry
          refine ⟨function, isGate, fun apart => (isEntry apart).trans ?_⟩
          refine load_congr fun x inside => storeDesc_other fun isHere => apart x inside ?_
          unfold Inside gateAddr at *
          unfold idtDescCnt at *
          bv_omega

/-- The entries of `VECTOR`. -/
def vectorCnt : Nat := vectorMarks.length

/-- The entry table of the vectors is not part of `idt`. -/
def TablesApart (idt intrEntryTable : Word) : Prop :=
  ∀ x, Inside intrEntryTable (4 * vectorCnt) x → ¬ Inside idt (8 * idtDescCnt) x

/-- The gates of level 0. -/
theorem idtDescInit_gate (idt intrEntryTable syscallHandler : Word) (m : Memory) (small : k < idtDescCnt - 1) :
    ∃ function, gateIn (idtDescInit idt intrEntryTable syscallHandler m) idt k =
        ⟨⟨selectorKCode, function⟩, 0xe, 0, true⟩ ∧
      (TablesApart idt intrEntryTable → k < vectorCnt → function = entryOf m intrEntryTable k) := by
  have few : k < idtDescCnt := by omega
  obtain ⟨function, isGate, isEntry⟩ :=
    idtDescInitLoop_gate idt intrEntryTable m (Nat.le_of_eq (Nat.zero_add idtDescCnt)) few
  rw [Nat.zero_add] at isGate isEntry
  refine ⟨function, ?_, fun apart isVector => isEntry fun x inside => apart x ?_⟩
  · refine (gateIn_congr fun x inside => storeDesc_other ?_).trans isGate
    unfold Inside gateAddr at *
    unfold idtDescCnt at *
    bv_omega
  · have isCnt : vectorCnt = 48 := rfl
    unfold Inside at *
    bv_omega

/-- The gate of the system calls. -/
theorem idtDescInit_syscall (idt intrEntryTable syscallHandler : Word) (m : Memory) :
    gateIn (idtDescInit idt intrEntryTable syscallHandler m) idt (idtDescCnt - 1) =
      ⟨⟨selectorKCode, syscallHandler⟩, 0xe, 3, true⟩ := by
  rw [idtDescInit, gateIn_storeDesc, show (idtDescAttr 3).extractLsb' 0 5 = 0xe by decide,
    show ((idtDescAttr 3).extractLsb' 5 2).toNat = 3 by decide, show (idtDescAttr 3).getLsbD 7 = true by decide]

/-! ### Where the processor goes -/

theorem descriptorAt_lidt (m : Memory) (idt : Word) (vec : Nat) :
    descriptorAt m (lidt (idtOperand idt)) vec = if vec < idtDescCnt then some (gateIn m idt vec) else none := by
  rw [lidt_operand, descriptorAt]
  refine if_congr ?_ rfl rfl
  show 8 * vec + 7 ≤ 8 * 0x81 - 1 ↔ vec < 0x81
  omega

theorem gateFor_of {descriptor : Descriptor} (cause : Cause) (small : vec < idtDescCnt)
    (isGate : gateIn m idt vec = descriptor) (isKind : descriptor.kind = 0xe) (present : descriptor.present = true) :
    gateFor m (lidt (idtOperand idt)) cause vec =
      if cause.mayUse descriptor then .ok descriptor.gate else .error 13 := by
  unfold gateFor
  rw [descriptorAt_lidt, if_pos small, isGate]
  by_cases mayUse : cause.mayUse descriptor <;> simp [isKind, present, mayUse]

/-- Where the processor goes after `idt_init`. -/
def dispatchBy (idt intrEntryTable syscallHandler : Word) (m : Memory) :
    Cause → (vec : Nat) → Option Word → Option (Nat × Gate × Option Word) :=
  dispatch (idtDescInit idt intrEntryTable syscallHandler m) (lidt (idtOperand idt))

theorem gateFor_event (apart : TablesApart idt intrEntryTable) (small : vec < vectorCnt) :
    gateFor (idtDescInit idt intrEntryTable syscallHandler m) (lidt (idtOperand idt)) .event vec =
      .ok ⟨selectorKCode, entryOf m intrEntryTable vec⟩ := by
  have isCnt : vectorCnt = 48 := rfl
  obtain ⟨function, isGate, isEntry⟩ := idtDescInit_gate idt intrEntryTable syscallHandler m
    (show vec < idtDescCnt - 1 by unfold idtDescCnt; omega)
  refine (gateFor_of .event (by unfold idtDescCnt; omega) isGate rfl rfl).trans ((if_pos trivial).trans ?_)
  rw [isEntry apart small]

/-- Gates of level 0, and what is behind the table, are not for a user task. -/
theorem gateFor_user (notSyscall : vec ≠ 0x80) :
    gateFor (idtDescInit idt intrEntryTable syscallHandler m) (lidt (idtOperand idt)) (.instruction 3) vec =
      .error 13 := by
  by_cases small : vec < idtDescCnt
  · obtain ⟨function, isGate, -⟩ := idtDescInit_gate idt intrEntryTable syscallHandler m
      (show vec < idtDescCnt - 1 by unfold idtDescCnt at *; omega)
    refine (gateFor_of (.instruction 3) small isGate rfl rfl).trans (if_neg ?_)
    show ¬ 3 ≤ 0
    omega
  · unfold gateFor
    rw [descriptorAt_lidt, if_neg small]

/-- After `idt_init`, whatever is in memory behind the entry table: an exception or an interrupt
of the controllers goes to the entry of its own vector, and an instruction of a user task to
the system calls at 0x80 and to the entry of the general protection fault at any other
vector. -/
theorem interrupt_gates (syscallHandler : Word) (m : Memory) (apart : TablesApart idt intrEntryTable) :
    (∀ vec < vectorCnt, ∀ errCode, dispatchBy idt intrEntryTable syscallHandler m .event vec errCode =
      some (vec, ⟨selectorKCode, entryOf m intrEntryTable vec⟩, errCode)) ∧
    ∀ vec, dispatchBy idt intrEntryTable syscallHandler m (.instruction 3) vec none =
      if vec = 0x80 then some (vec, ⟨selectorKCode, syscallHandler⟩, none)
      else some (13, ⟨selectorKCode, entryOf m intrEntryTable 13⟩, some (BitVec.ofNat 32 (8 * vec + 2))) := by
  refine ⟨fun vec small errCode => ?_, fun vec => ?_⟩
  · rw [dispatchBy, dispatch, gateFor_event apart small]
  · by_cases isSyscall : vec = 0x80
    · subst isSyscall
      have isGate := gateFor_of (.instruction 3) (show 0x80 < idtDescCnt by decide)
        (idtDescInit_syscall idt intrEntryTable syscallHandler m) rfl rfl
      rw [dispatchBy, dispatch, isGate]
      rfl
    · rw [if_neg isSyscall, dispatchBy, dispatch, gateFor_user isSyscall]
      dsimp only
      rw [gateFor_event apart (show 13 < vectorCnt by decide)]
      rfl

/-- A kernel whose table is 64 KiB above the entries. -/
theorem interrupt_gates_apart :
    (∀ vec < vectorCnt, ∀ errCode, dispatchBy 0xc0010000 0xc0000000 0xc0001000 (fun _ => 0) .event vec errCode =
      some (vec, ⟨selectorKCode, entryOf (fun _ => 0) 0xc0000000 vec⟩, errCode)) ∧
    ∀ vec, dispatchBy 0xc0010000 0xc0000000 0xc0001000 (fun _ => 0) (.instruction 3) vec none =
      if vec = 0x80 then some (vec, ⟨selectorKCode, 0xc0001000⟩, none)
      else some (13, ⟨selectorKCode, entryOf (fun _ => 0) 0xc0000000 13⟩, some (BitVec.ofNat 32 (8 * vec + 2))) := by
  refine interrupt_gates 0xc0001000 (fun _ => 0) fun x inside => ?_
  have isCnt : vectorCnt = 48 := rfl
  unfold Inside idtDescCnt at *
  bv_omega

end ZyOs.Kernel
