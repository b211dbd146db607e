import ZyOs.Fs.DescriptorTables

/-!
Contract: what stops `sys_read`, `sys_write`, `sys_lseek` and `sys_close` on their way
to a file, for any descriptor that a user passes.

Owns:
- the four calls with the reason for which they do not return, each the call of the
  model when the reason is left out;
- `FdLaw`: a descriptor that is not open gets -1 and changes nothing, and no call fails
  an `ASSERT`, leaves `fd_table` or `tmp_buf`, or goes through a `fd_inode` that is `NULL`;
- the calls for which the law holds, in every state of every run.

Does not own: what `file_read`, `file_write` and `file_close` meet once they have an
inode.
-/

namespace ZyOs.Fs.Calls

open ZyOs.Kernel ZyOs.Memory ZyOs.Lib

variable {s₀ s s' : State} {α β : Type} {globalFd : Nat}

/-! ### Calls that say why they stop -/

/-- Why a call does not return. `waits` is for characters, `inFile` for all that
happens once there is an inode. -/
inductive Halt where
  | assertion
  | fdTableIndex
  | nullInode
  | tmpBuf
  | waits
  | inFile
deriving DecidableEq, Repr

abbrev Traced (α : Type) := StateT State (Except Halt) α

/-- A call that halts for one reason only. -/
def Traced.of (halt : Halt) (call : Call α) : Traced α := fun s =>
  match call s with
  | none => .error halt
  | some result => .ok result

namespace Traced

/-- `fd_local2global`. -/
def fdLocal2global (localFd : Nat) : Traced Nat := do
  of .fdTableIndex (check (localFd < maxFilesOpenPerProc))
  let s ← get
  let globalFd ← of .assertion (deref (s.fdTable s.cur localFd))
  of .assertion (check (globalFd < maxFileOpen))
  return globalFd

/-- The first access through `fd_inode`, and what follows. -/
def throughInode (globalFd : Nat) (call : Call α) : Traced α := do
  let s ← get
  let _ ← of .nullInode (deref (s.fileTable globalFd).fdInode)
  of .inFile call

/-- `sys_close`. -/
def sysClose (fd : Int) : Traced Bool := do
  if fd > 2 then do
    let globalFd ← fdLocal2global fd.toNat
    throughInode globalFd do
      fileClose globalFd
      setFd fd.toNat none
      return true
  else
    return false

/-- `sys_write`. -/
def sysWrite (fd : Int) (buf : Buf) (count : UInt32) : Traced (Option UInt32) := do
  if fd < 0 then
    return none
  else if fd = 1 then do
    of .tmpBuf (check (count.toNat ≤ 1024))
    return some count
  else do
    let globalFd ← fdLocal2global fd.toNat
    let s ← get
    if opensForWriting (s.fileTable globalFd).fdFlag then
      throughInode globalFd (fileWrite globalFd buf count)
    else
      return none

/-- `sys_read`. -/
def sysRead (fd : Int) (count : UInt32) : Traced (Option (List UInt8)) := do
  if fd < 0 ∨ fd = 1 ∨ fd = 2 then
    return none
  else if fd = 0 then do
    let bytes ← of .waits (readKeys count.toNat)
    return if bytes = [] then none else some bytes
  else do
    let globalFd ← fdLocal2global fd.toNat
    throughInode globalFd (fileRead globalFd count)

/-- `sys_lseek`. -/
def sysLseek (fd : Int) (offset : Int32) (whence : Nat) : Traced (Option UInt32) := do
  if fd < 0 then
    return none
  else do
    of .assertion (check (0 < whence ∧ whence < 4))
    let globalFd ← fdLocal2global fd.toNat
    throughInode globalFd do
      let s ← get
      let pf := s.fileTable globalFd
      let ptr ← deref pf.fdInode
      let fileSize := (s.inode ptr).node.iSize.toInt32
      let newPos := seekPos whence pf.fdPos fileSize offset
      if newPos < 0 ∨ fileSize - 1 < newPos then
        return none
      else do
        setFile globalFd { pf with fdPos := newPos.toUInt32 }
        return some newPos.toUInt32

/-! ### The calls of the model -/

/-- The call is the other one without its reasons. -/
def Agrees (traced : Traced α) (call : Call α) : Prop := ∀ s, (traced s).toOption = call s

theorem agrees_of (halt : Halt) (call : Call α) : Agrees (of halt call) call := by
  intro s
  unfold of
  cases call s with
  | none => rfl
  | some result => rfl

theorem agrees_pure (a : α) : Agrees (pure a) (pure a) := fun _ => rfl

theorem agrees_get : Agrees get get := fun _ => rfl

theorem Agrees.bind {traced : Traced α} {call : Call α} {next : α → Traced β} {nextCall : α → Call β}
    (first : Agrees traced call) (rest : ∀ a, Agrees (next a) (nextCall a)) :
    Agrees (traced >>= next) (call >>= nextCall) := by
  intro s
  have isBind : (call >>= nextCall) s = (call s).bind fun result => nextCall result.1 result.2 := rfl
  have isTraced : (traced >>= next) s = (traced s).bind fun result => next result.1 result.2 := rfl
  rw [isBind, isTraced, ← first s]
  cases traced s with
  | error halt => rfl
  | ok result => exact rest result.1 result.2

theorem throughInode_eq (globalFd : Nat) (call : Call α) (s : State) :
    throughInode globalFd call s =
      if (s.fileTable globalFd).fdInode = none then .error .nullInode else of .inFile call s := by
  have isBind : throughInode globalFd call s =
      (of .nullInode (deref (s.fileTable globalFd).fdInode) s).bind fun result => of .inFile call result.2 := rfl
  rw [isBind]
  unfold of deref
  cases (s.fileTable globalFd).fdInode with
  | none => rfl
  | some ptr => rfl

/-- A call that goes through `fd_inode` itself. -/
theorem agrees_throughInode {call : Call α} (halts : ∀ s, (s.fileTable globalFd).fdInode = none → call s = none) :
    Agrees (throughInode globalFd call) call := by
  intro s
  rw [throughInode_eq]
  by_cases noInode : (s.fileTable globalFd).fdInode = none
  · rw [if_pos noInode, halts s noInode]
    rfl
  · rw [if_neg noInode]
    exact agrees_of .inFile call s

/-- The inode of a slot is read first. -/
theorem deref_first {next : State → Ptr → Call α} (isNone : (s.fileTable globalFd).fdInode = none) :
    (do
      let s ← get
      let ptr ← deref (s.fileTable globalFd).fdInode
      next s ptr : Call α) s = none := by
  have isBind : (do
      let s ← get
      let ptr ← deref (s.fileTable globalFd).fdInode
      next s ptr : Call α) s =
        (deref (s.fileTable globalFd).fdInode s).bind fun result => next s result.1 result.2 := rfl
  rw [isBind, isNone]
  rfl

theorem agrees_fdLocal2global (localFd : Nat) : Agrees (fdLocal2global localFd) (Calls.fdLocal2global localFd) :=
  (agrees_of _ _).bind fun _ => agrees_get.bind fun _ => (agrees_of _ _).bind fun globalFd =>
    (agrees_of _ _).bind fun _ => agrees_pure globalFd

theorem agrees_sysClose (fd : Int) : Agrees (sysClose fd) (Calls.sysClose fd) := by
  unfold sysClose Calls.sysClose
  split
  · refine (agrees_fdLocal2global fd.toNat).bind fun globalFd => ?_
    apply agrees_throughInode
    intro s isNone
    have closes : fileClose globalFd s = none := deref_first isNone
    have isBind : (do
        fileClose globalFd
        setFd fd.toNat none
        return true : Call Bool) s =
          (fileClose globalFd s).bind fun result => (do setFd fd.toNat none; return true : Call Bool) result.2 := rfl
    rw [isBind, closes]
    rfl
  · exact agrees_pure false

theorem agrees_sysWrite (fd : Int) (buf : Buf) (count : UInt32) :
    Agrees (sysWrite fd buf count) (Calls.sysWrite fd buf count) := by
  unfold sysWrite Calls.sysWrite
  split
  · exact agrees_pure none
  · split
    · exact (agrees_of _ _).bind fun _ => agrees_pure _
    · refine (agrees_fdLocal2global fd.toNat).bind fun globalFd => ?_
      refine agrees_get.bind fun read => ?_
      split
      · exact agrees_throughInode fun s isNone => deref_first isNone
      · exact agrees_pure none

theorem agrees_sysRead (fd : Int) (count : UInt32) : Agrees (sysRead fd count) (Calls.sysRead fd count) := by
  unfold sysRead Calls.sysRead
  split
  · exact agrees_pure none
  · split
    · exact (agrees_of _ _).bind fun bytes => agrees_pure _
    · refine (agrees_fdLocal2global fd.toNat).bind fun globalFd => ?_
      exact agrees_throughInode fun s isNone => deref_first isNone

theorem agrees_sysLseek (fd : Int) (offset : Int32) (whence : Nat) :
    Agrees (sysLseek fd offset whence) (Calls.sysLseek fd offset whence) := by
  unfold sysLseek Calls.sysLseek
  split
  · exact agrees_pure none
  · refine (agrees_of _ _).bind fun _ => ?_
    refine (agrees_fdLocal2global fd.toNat).bind fun globalFd => ?_
    exact agrees_throughInode fun s isNone => deref_first isNone

end Traced

/-! ### The law -/

/-- A call on a descriptor. -/
inductive FdCall where
  | sysRead (fd : Int) (count : UInt32)
  | sysWrite (fd : Int) (buf : Buf) (count : UInt32)
  | sysLseek (fd : Int) (offset : Int32) (whence : Nat)
  | sysClose (fd : Int)

def FdCall.fd : FdCall → Int
  | .sysRead fd _ => fd
  | .sysWrite fd _ _ => fd
  | .sysLseek fd _ _ => fd
  | .sysClose fd => fd

/-- What the call returns, `none` for -1. -/
def FdCall.traced : FdCall → Traced (Option UInt32)
  | .sysRead fd count => do
      let bytes ← Traced.sysRead fd count
      return bytes.map fun bytes => UInt32.ofNat bytes.length
  | .sysWrite fd buf count => Traced.sysWrite fd buf count
  | .sysLseek fd offset whence => Traced.sysLseek fd offset whence
  | .sysClose fd => do
      let closed ← Traced.sysClose fd
      return if closed then some 0 else none

/-- The running process has this descriptor open. -/
def HasOpen (s : State) (fd : Int) : Prop :=
  0 ≤ fd ∧ fd < maxFilesOpenPerProc ∧ s.fdTable s.cur fd.toNat ≠ none

/-- A call gets to a file, or needs none. -/
def Arrives (outcome : Except Halt α) : Prop :=
  ∀ halt, outcome = .error halt → halt = .waits ∨ halt = .inFile

/-- A call on a descriptor neither fails nor leaves an array on its way to a file. -/
structure FdLaw (call : FdCall) (s : State) : Prop where
  arrives : Arrives (call.traced s)
  notOpen : ¬ HasOpen s call.fd → call.traced s = .ok (none, s)

/-- A descriptor from 3 on leads to this slot. -/
def LeadsTo (s : State) (fd : Int) (globalFd : Nat) : Prop :=
  3 ≤ fd ∧ fd < maxFilesOpenPerProc ∧ s.fdTable s.cur fd.toNat = some globalFd

/-- A descriptor from 3 on leads to a slot that is open. -/
def IsLive (s : State) (fd : Int) : Prop :=
  ∃ globalFd, LeadsTo s fd globalFd ∧ (s.fileTable globalFd).fdInode ≠ none

/-- When the law holds. -/
def Allowed (s : State) : FdCall → Prop
  | .sysRead fd _ => fd ≤ 2 ∨ IsLive s fd
  | .sysWrite fd _ count => (fd ≤ 2 ∧ (fd = 1 → count.toNat ≤ 1024)) ∨
      ∃ globalFd, LeadsTo s fd globalFd ∧
        (opensForWriting (s.fileTable globalFd).fdFlag → (s.fileTable globalFd).fdInode ≠ none)
  | .sysLseek fd _ whence => fd < 0 ∨ (0 < whence ∧ whence < 4 ∧ IsLive s fd)
  | .sysClose fd => fd ≤ 2 ∨ IsLive s fd

/-! ### The way to a file -/

section Way

variable {fd : Int}

theorem arrives_ok (result : α) : Arrives (.ok result : Except Halt α) := by
  intro halt isError
  cases isError

theorem arrives_error_iff {halt : Halt} :
    Arrives (.error halt : Except Halt α) ↔ halt = .waits ∨ halt = .inFile := by
  constructor
  · exact fun arrives => arrives halt rfl
  · intro isHarmless other isError
    cases isError
    exact isHarmless

theorem arrives_of {halt : Halt} (isHarmless : halt = .waits ∨ halt = .inFile) (call : Call α) :
    Arrives (Traced.of halt call s) := by
  unfold Traced.of
  cases call s with
  | none => exact arrives_error_iff.mpr isHarmless
  | some result => exact arrives_ok result

/-- What is made of the result does not matter. -/
theorem arrives_map (traced : Traced α) (f : α → β) :
    Arrives ((do let a ← traced; return f a : Traced β) s) ↔ Arrives (traced s) := by
  have isBind : (do let a ← traced; return f a : Traced β) s =
      (traced s).bind fun result => .ok (f result.1, result.2) := rfl
  rw [isBind]
  cases traced s with
  | error halt => exact arrives_error_iff.trans arrives_error_iff.symm
  | ok result => exact iff_of_true (arrives_ok _) (arrives_ok _)

theorem arrives_throughInode (call : Call α) :
    Arrives (Traced.throughInode globalFd call s) ↔ (s.fileTable globalFd).fdInode ≠ none := by
  rw [Traced.throughInode_eq]
  by_cases noInode : (s.fileTable globalFd).fdInode = none
  · rw [if_pos noInode, arrives_error_iff]
    exact iff_of_false (by decide) fun isInode => isInode noInode
  · rw [if_neg noInode]
    exact iff_of_true (arrives_of (.inr rfl) call) noInode

/-- A condition whose failure is a fault. -/
theorem arrives_check {halt : Halt} (isFault : ¬ (halt = .waits ∨ halt = .inFile)) (condition : Prop)
    [Decidable condition] : Arrives (Traced.of halt (check condition) s) ↔ condition := by
  unfold Traced.of check
  by_cases holds : condition
  · rw [if_pos holds]
    exact iff_of_true (arrives_ok _) holds
  · rw [if_neg holds]
    exact iff_of_false (fun arrives => isFault (arrives_error_iff.mp arrives)) holds

theorem check_bind (halt : Halt) (condition : Prop) [Decidable condition] (next : Traced α) :
    (Traced.of halt (check condition) >>= fun _ => next) s = if condition then next s else .error halt := by
  have isBind : (Traced.of halt (check condition) >>= fun _ => next) s =
      (Traced.of halt (check condition) s).bind fun result => next result.2 := rfl
  rw [isBind]
  unfold Traced.of check
  by_cases holds : condition
  · rw [if_pos holds, if_pos holds]
    rfl
  · rw [if_neg holds, if_neg holds]
    rfl

/-- `sys_write` to a slot needs an inode only when the flags are for writing. -/
theorem arrives_writeSlot (buf : Buf) (count : UInt32) :
    Arrives ((do
      let s ← get
      if opensForWriting (s.fileTable globalFd).fdFlag then
        Traced.throughInode globalFd (fileWrite globalFd buf count)
      else
        return none : Traced (Option UInt32)) s) ↔
      (opensForWriting (s.fileTable globalFd).fdFlag → (s.fileTable globalFd).fdInode ≠ none) := by
  show Arrives ((if opensForWriting (s.fileTable globalFd).fdFlag then
    Traced.throughInode globalFd (fileWrite globalFd buf count) else return none : Traced (Option UInt32)) s) ↔ _
  by_cases forWriting : opensForWriting (s.fileTable globalFd).fdFlag
  · rw [if_pos forWriting, arrives_throughInode]
    exact ⟨fun isInode _ => isInode, fun isInode => isInode forWriting⟩
  · rw [if_neg forWriting]
    exact iff_of_true (arrives_ok _) fun isFlag => absurd isFlag forWriting

theorem fdLocal2global_bind (localFd : Nat) (next : Nat → Traced α) :
    (Traced.fdLocal2global localFd >>= next) s =
      if localFd < maxFilesOpenPerProc then
        match s.fdTable s.cur localFd with
        | none => .error .assertion
        | some globalFd => if globalFd < maxFileOpen then next globalFd s else .error .assertion
      else
        .error .fdTableIndex := by
  have isBind : (Traced.fdLocal2global localFd >>= next) s =
      (Traced.fdLocal2global localFd s).bind fun result => next result.1 result.2 := rfl
  have isFirst : Traced.fdLocal2global localFd s =
      (Traced.of .fdTableIndex (check (localFd < maxFilesOpenPerProc)) s).bind fun inside =>
        (Traced.of .assertion (deref (inside.2.fdTable inside.2.cur localFd)) inside.2).bind fun found =>
          (Traced.of .assertion (check (found.1 < maxFileOpen)) found.2).bind fun checked =>
            .ok (found.1, checked.2) := rfl
  rw [isBind, isFirst]
  unfold Traced.of check deref
  by_cases inside : localFd < maxFilesOpenPerProc
  · rw [if_pos inside, if_pos inside]
    dsimp only [Except.bind]
    cases s.fdTable s.cur localFd with
    | none => rfl
    | some globalFd =>
        by_cases inTable : globalFd < maxFileOpen
        · simp only [Option.map_some, if_pos inTable]
        · simp only [Option.map_some, if_neg inTable]
  · rw [if_neg inside, if_neg inside]
    rfl

theorem Reserved.bind_standard (reserved : Reserved s) {localFd : Nat} (below : localFd < 3)
    (next : Nat → Traced α) : (Traced.fdLocal2global localFd >>= next) s = next localFd s := by
  rw [fdLocal2global_bind, if_pos (below.trans (by decide)), reserved.standard s.cur localFd below]
  exact if_pos (below.trans (by decide))

/-- From 3 on a descriptor arrives only through its slot. -/
theorem Reserved.arrives_iff (reserved : Reserved s) (low : 3 ≤ fd) (next : Nat → Traced α) :
    Arrives ((Traced.fdLocal2global fd.toNat >>= next) s) ↔
      ∃ globalFd, LeadsTo s fd globalFd ∧ Arrives (next globalFd s) := by
  rw [fdLocal2global_bind]
  by_cases inside : fd.toNat < maxFilesOpenPerProc
  · rw [if_pos inside]
    cases isEntry : s.fdTable s.cur fd.toNat with
    | none =>
        refine iff_of_false (fun arrives => absurd (arrives_error_iff.mp arrives) (by decide)) ?_
        rintro ⟨globalFd, leads, _⟩
        rw [leads.2.2] at isEntry
        cases isEntry
    | some globalFd =>
        have inTable := (reserved.leads s.cur fd.toNat globalFd (by omega) inside isEntry).2
        dsimp only
        rw [if_pos inTable]
        constructor
        · exact fun arrives => ⟨globalFd, ⟨low, by omega, isEntry⟩, arrives⟩
        · rintro ⟨other, leads, arrives⟩
          rw [leads.2.2] at isEntry
          cases isEntry
          exact arrives
  · rw [if_neg inside]
    refine iff_of_false (fun arrives => absurd (arrives_error_iff.mp arrives) (by decide)) ?_
    rintro ⟨globalFd, ⟨_, small, _⟩, _⟩
    omega

theorem LeadsTo.hasOpen (leads : LeadsTo s fd globalFd) : HasOpen s fd :=
  ⟨by have := leads.1; omega, leads.2.1, by rw [leads.2.2]; exact Option.some_ne_none _⟩

/-! ### Each call -/

variable (reserved : Reserved s)

include reserved

theorem hasOpen_standard (notNegative : 0 ≤ fd) (below : fd < 3) : HasOpen s fd := by
  refine ⟨notNegative, below.trans (by decide), ?_⟩
  rw [reserved.standard s.cur fd.toNat (by omega)]
  exact Option.some_ne_none _

/-- A reserved slot has no inode. -/
theorem noInode_standard (below : fd < 3) : (s.fileTable fd.toNat).fdInode = none :=
  (reserved.unused fd.toNat (by omega)).1

theorem arrives_throughSlot (low : 3 ≤ fd) (call : Nat → Call α) :
    Arrives ((Traced.fdLocal2global fd.toNat >>= fun globalFd => Traced.throughInode globalFd (call globalFd)) s) ↔
      IsLive s fd := by
  rw [reserved.arrives_iff low]
  exact exists_congr fun globalFd => and_congr_right fun _ => arrives_throughInode _

theorem arrives_sysRead (count : UInt32) : Arrives (Traced.sysRead fd count s) ↔ fd ≤ 2 ∨ IsLive s fd := by
  unfold Traced.sysRead
  by_cases low : 3 ≤ fd
  · rw [if_neg (by omega), if_neg (by omega), arrives_throughSlot reserved low, or_iff_right (by omega)]
  · refine iff_of_true ?_ (.inl (by omega))
    split
    · exact arrives_ok _
    · rw [if_pos (by omega)]
      exact (arrives_map _ _).mpr (arrives_of (.inl rfl) _)

theorem arrives_sysClose : Arrives (Traced.sysClose fd s) ↔ fd ≤ 2 ∨ IsLive s fd := by
  unfold Traced.sysClose
  by_cases low : 3 ≤ fd
  · rw [if_pos (by omega), arrives_throughSlot reserved low, or_iff_right (by omega)]
  · rw [if_neg (by omega)]
    exact iff_of_true (arrives_ok _) (.inl (by omega))

theorem arrives_sysWrite (buf : Buf) (count : UInt32) :
    Arrives (Traced.sysWrite fd buf count s) ↔ (fd ≤ 2 ∧ (fd = 1 → count.toNat ≤ 1024)) ∨
      ∃ globalFd, LeadsTo s fd globalFd ∧
        (opensForWriting (s.fileTable globalFd).fdFlag → (s.fileTable globalFd).fdInode ≠ none) := by
  have noSlot : fd ≤ 2 → ¬ ∃ globalFd, LeadsTo s fd globalFd ∧
      (opensForWriting (s.fileTable globalFd).fdFlag → (s.fileTable globalFd).fdInode ≠ none) := by
    rintro atMost ⟨_, ⟨low, _⟩, _⟩
    omega
  unfold Traced.sysWrite
  by_cases negative : fd < 0
  · rw [if_pos negative]
    exact iff_of_true (arrives_ok _) (.inl ⟨by omega, by omega⟩)
  · rw [if_neg negative]
    by_cases isScreen : fd = 1
    · rw [if_pos isScreen, arrives_map, or_iff_left (noSlot (by omega)), arrives_check (by decide)]
      exact ⟨fun fits => ⟨by omega, fun _ => fits⟩, fun fits => fits.2 isScreen⟩
    · rw [if_neg isScreen]
      by_cases low : 3 ≤ fd
      · rw [reserved.arrives_iff low, or_iff_right (by omega)]
        exact exists_congr fun globalFd => and_congr_right fun _ => arrives_writeSlot buf count
      · rw [reserved.bind_standard (by omega), arrives_writeSlot, or_iff_left (noSlot (by omega))]
        have notForWriting : opensForWriting (s.fileTable fd.toNat).fdFlag = false := by
          rw [(reserved.unused fd.toNat (by omega)).2]
          rfl
        rw [notForWriting]
        exact iff_of_true (fun isTrue => by cases isTrue) ⟨by omega, fun isOne => absurd isOne isScreen⟩

theorem arrives_sysLseek (offset : Int32) (whence : Nat) :
    Arrives (Traced.sysLseek fd offset whence s) ↔ fd < 0 ∨ (0 < whence ∧ whence < 4 ∧ IsLive s fd) := by
  unfold Traced.sysLseek
  by_cases negative : fd < 0
  · rw [if_pos negative]
    exact iff_of_true (arrives_ok _) (.inl negative)
  · rw [if_neg negative, or_iff_right negative, ← and_assoc]
    rw [check_bind]
    by_cases isWhence : 0 < whence ∧ whence < 4
    · rw [if_pos isWhence, and_iff_right isWhence]
      by_cases low : 3 ≤ fd
      · exact arrives_throughSlot reserved low _
      · rw [reserved.bind_standard (by omega), arrives_throughInode]
        refine iff_of_false (fun isInode => isInode (noInode_standard reserved (by omega))) ?_
        rintro ⟨_, ⟨atLeast, _⟩, _⟩
        omega
    · rw [if_neg isWhence, arrives_error_iff]
      exact iff_of_false (by decide) fun both => isWhence both.1

theorem arrives_iff (call : FdCall) : Arrives (call.traced s) ↔ Allowed s call := by
  cases call with
  | sysRead fd count => exact (arrives_map _ _).trans (arrives_sysRead reserved count)
  | sysWrite fd buf count => exact arrives_sysWrite reserved buf count
  | sysLseek fd offset whence => exact arrives_sysLseek reserved offset whence
  | sysClose fd => exact (arrives_map _ _).trans (arrives_sysClose reserved)

/-- A call that is allowed has an open descriptor or a negative one. -/
theorem negative_of_allowed {call : FdCall} (allowed : Allowed s call) (notOpen : ¬ HasOpen s call.fd) :
    call.fd < 0 := by
  have negative : call.fd ≤ 2 → call.fd < 0 := by
    intro atMost
    by_contra notNegative
    exact notOpen (hasOpen_standard reserved (by omega) (by omega))
  have notLeads : ∀ globalFd, ¬ LeadsTo s call.fd globalFd := fun _ leads => notOpen leads.hasOpen
  cases call with
  | sysRead fd count =>
      rcases allowed with atMost | ⟨globalFd, leads, _⟩
      · exact negative atMost
      · exact absurd leads (notLeads globalFd)
  | sysWrite fd buf count =>
      rcases allowed with ⟨atMost, _⟩ | ⟨globalFd, leads, _⟩
      · exact negative atMost
      · exact absurd leads (notLeads globalFd)
  | sysLseek fd offset whence =>
      rcases allowed with isNegative | ⟨_, _, globalFd, leads, _⟩
      · exact isNegative
      · exact absurd leads (notLeads globalFd)
  | sysClose fd =>
      rcases allowed with atMost | ⟨globalFd, leads, _⟩
      · exact negative atMost
      · exact absurd leads (notLeads globalFd)

omit reserved in
theorem traced_negative {call : FdCall} (negative : call.fd < 0) : call.traced s = .ok (none, s) := by
  cases call with
  | sysRead fd count =>
      show (Traced.sysRead fd count s).bind (fun bytes => .ok (bytes.1.map _, bytes.2)) = _
      unfold Traced.sysRead
      rw [if_pos (.inl negative)]
      rfl
  | sysWrite fd buf count =>
      have isNegative : fd < 0 := negative
      show Traced.sysWrite fd buf count s = _
      unfold Traced.sysWrite
      rw [if_pos isNegative]
      rfl
  | sysLseek fd offset whence =>
      have isNegative : fd < 0 := negative
      show Traced.sysLseek fd offset whence s = _
      unfold Traced.sysLseek
      rw [if_pos isNegative]
      rfl
  | sysClose fd =>
      have notAbove : ¬ fd > 2 := fun above => absurd (show fd < 0 from negative) (by omega)
      show (Traced.sysClose fd s).bind (fun closed => .ok (if closed.1 then some 0 else none, closed.2)) = _
      unfold Traced.sysClose
      rw [if_neg notAbove]
      rfl

end Way

/-- In every state of every run the law holds of a call exactly when it is allowed. -/
theorem fdLaw_iff (fresh : FreshTables s₀) (run : RunFrom s₀ s) (call : FdCall) :
    FdLaw call s ↔ Allowed s call := by
  have reserved := run.reserved fresh
  constructor
  · intro law
    exact (arrives_iff reserved call).mp law.arrives
  · intro allowed
    refine ⟨(arrives_iff reserved call).mpr allowed, fun notOpen => ?_⟩
    exact traced_negative (negative_of_allowed reserved allowed notOpen)

theorem bootState_fresh : FreshTables bootState := ⟨fun _ _ _ => rfl, fun _ => rfl⟩

/-- The standard descriptors can be read and written, up to 1024 characters. -/
theorem standard_descriptors : FdLaw (.sysWrite 1 (fun _ => 97) 1024) bootState ∧
    FdLaw (.sysRead 0 1) bootState ∧ FdLaw (.sysClose (-1)) bootState := by
  refine ⟨?_, ?_, ?_⟩
  · exact (fdLaw_iff bootState_fresh .start _).mpr (.inl ⟨by decide, fun _ => by decide⟩)
  · exact (fdLaw_iff bootState_fresh .start _).mpr (.inl (by decide))
  · exact (fdLaw_iff bootState_fresh .start _).mpr (.inl (by decide))

/-- A descriptor that is not open fails an `ASSERT`, 8 is behind the end of `fd_table`,
the standard input has no inode, and 1025 characters do not fit `tmp_buf`. -/
theorem unopened_descriptors_halt : FreshTables bootState ∧
    (FdCall.sysRead 3 1).traced bootState = .error .assertion ∧
    (FdCall.sysClose 8).traced bootState = .error .fdTableIndex ∧
    (FdCall.sysLseek 0 0 1).traced bootState = .error .nullInode ∧
    (FdCall.sysWrite 1 (fun _ => 97) 1025).traced bootState = .error .tmpBuf ∧
    ¬ FdLaw (.sysRead 3 1) bootState := by
  refine ⟨bootState_fresh, rfl, rfl, rfl, rfl, fun law => ?_⟩
  exact absurd (law.arrives .assertion rfl) (by decide)

end ZyOs.Fs.Calls
