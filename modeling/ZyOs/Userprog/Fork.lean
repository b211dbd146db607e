import ZyOs.Memory.MmuTables
import ZyOs.Thread.Scheduler

/-!
Contract: the memory side of `userprog/fork.c`: `copy_pcb_vaddrbitmap_stack0`,
`copy_body_stack3`, `copy_process` and `sys_fork`, without a task switch in the
middle.

Owns: the fields of `struct task_struct` that these functions read or set, and
the copies of pages they make.

The fields are kept as a record; the page of a task structure is allocated and
nothing more. A result of `none` is a failed allocation, a failed `ASSERT` or a
page fault.

Does not own: the kernel stack of the child, the counts of
`update_inode_open_cnts` and the task lists.
-/

namespace ZyOs.Userprog

open ZyOs.Kernel ZyOs.Memory

/-- `struct task_struct`. -/
structure Pcb where
  pid : Nat
  parentPid : Nat
  status : Thread.TaskStatus
  priority : Nat
  ticks : Nat
  elapsedTicks : Nat
  name : String
  pgdir : Nat
  vaddrStart : Nat
  btmpBytesLen : Nat
  bits : Nat

/-- `bitmap_pg_cnt`. -/
def bitmapPgCnt : Nat := ((0xc0000000 - 0x8048000) / pgSize / 8 + pgSize - 1) / pgSize

/-- `memcpy` of whole pages. -/
def copyPages : Nat → Mmu → Nat → Nat → Option Mmu
  | 0, s, _, _ => some s
  | cnt + 1, s, dst, src => do
      let s ← s.memcpy dst src 1024
      copyPages cnt s (dst + pgSize) (src + pgSize)

/-- `copy_pcb_vaddrbitmap_stack0`; `pid` is what `fork_pid` returns. -/
def copyPcbVaddrbitmapStack0 (s : Mmu) (pid : Nat) (parent : Pcb) : Option (Mmu × Pcb) := do
  let child := { parent with
    pid := pid
    elapsedTicks := 0
    status := .ready
    ticks := parent.priority
    parentPid := parent.pid }
  let (s, vaddrBtmp) ← s.getKernelPages bitmapPgCnt
  let s ← copyPages bitmapPgCnt s vaddrBtmp child.bits
  if child.name.length < 11 then
    return (s, { child with bits := vaddrBtmp, name := child.name ++ "_fork" })
  else
    none

/-- A byte of memory. -/
def readByte (s : Mmu) (vaddr : Nat) : Option Nat := do
  let word ← s.read vaddr
  return word / 256 ^ (vaddr % 4) % 256

/-- The copy of one page in `copy_body_stack3`, through the buffer. -/
def copyPage (child parent : Pcb) (bufPage : Nat) (s : Mmu) (progVaddr : Nat) : Option Mmu := do
  let s ← s.memcpy bufPage progVaddr 1024
  let s ← s.pageDirActivate (some child.pgdir)
  let s ← s.getAPageWithoutOpvaddrbitmap .user progVaddr
  let s ← s.memcpy progVaddr bufPage 1024
  s.pageDirActivate (some parent.pgdir)

/-- The inner loop of `copy_body_stack3`, with the bits that are left. -/
def copyBits (child parent : Pcb) (bufPage idxByte : Nat) : Nat → Mmu → Nat → Option Mmu
  | 0, s, _ => some s
  | left + 1, s, idxBit => do
      let byte ← readByte s (parent.bits + idxByte)
      if byte.testBit idxBit then
        let s ← copyPage child parent bufPage s
          ((idxByte * 8 + idxBit) * pgSize + parent.vaddrStart)
        copyBits child parent bufPage idxByte left s (idxBit + 1)
      else
        copyBits child parent bufPage idxByte left s (idxBit + 1)

/-- The outer loop, with the bytes that are left. -/
def copyBytes (child parent : Pcb) (bufPage : Nat) : Nat → Mmu → Nat → Option Mmu
  | 0, s, _ => some s
  | left + 1, s, idxByte => do
      let byte ← readByte s (parent.bits + idxByte)
      if byte ≠ 0 then
        let s ← copyBits child parent bufPage idxByte 8 s 0
        copyBytes child parent bufPage left s (idxByte + 1)
      else
        copyBytes child parent bufPage left s (idxByte + 1)

/-- `copy_body_stack3`. -/
def copyBodyStack3 (s : Mmu) (child parent : Pcb) (bufPage : Nat) : Option Mmu :=
  copyBytes child parent bufPage parent.btmpBytesLen s 0

/-- `copy_process`. -/
def copyProcess (s : Mmu) (pid : Nat) (parent : Pcb) : Option (Mmu × Pcb) := do
  let (s, bufPage) ← s.getKernelPages 1
  let (s, child) ← copyPcbVaddrbitmapStack0 s pid parent
  let (s, pgdir) ← s.createPageDir
  let child := { child with pgdir := pgdir }
  let s ← copyBodyStack3 s child parent bufPage
  let s ← s.mfreeKernelPage bufPage
  return (s, child)

/-- `sys_fork`. -/
def sysFork (s : Mmu) (pid : Nat) (parent : Pcb) : Option (Mmu × Pcb) := do
  let (s, _) ← s.getKernelPages 1
  copyProcess s pid parent

/-! ### What a parent is -/

/-- A bit of the virtual-address bitmap, as memory has it. -/
def vaddrBit (s : Mmu) (pcb : Pcb) (bit : Nat) : Bool :=
  ((readByte s (pcb.bits + bit / 8)).getD 0).testBit (bit % 8)

/-- The page of a bit. -/
def bitPage (pcb : Pcb) (bit : Nat) : Nat := pageOf pcb.vaddrStart + bit

/-- A running process: its directory is loaded, all it maps is allocated, and its
half of the directory has its own page tables. -/
structure Forkable (s : Mmu) (parent : Pcb) : Prop where
  layout : s.Layout
  isDir : IsDir s.mem s.cr3
  notTable : ¬ IsKernelTable s.cr3
  pgdirAligned : parent.pgdir % pgSize = 0
  pgdirPage : IsKernelPage (pageOf parent.pgdir)
  pgdirEntry : kernelEntry s.mem (pageOf parent.pgdir) = pteOf (s.cr3 * pgSize)
  taken : ∀ page < 2 ^ 20, ∀ frame, translatePage s.mem s.cr3 page = some frame → ¬ s.Free frame
  userTable : ∀ idx < 768, present (s.mem s.cr3 idx) = true →
    ¬ IsKernelTable (entryFrame (s.mem s.cr3 idx))
  userFrame : ∀ page < 0xc0000, ∀ frame, translatePage s.mem s.cr3 page = some frame →
    ¬ IsKernelTable frame
  bitsAligned : parent.bits % pgSize = 0
  bitsPage : ∀ i < bitmapPgCnt, IsKernelPage (pageOf parent.bits + i)
  bitsEntry : ∀ i < bitmapPgCnt, ∃ frame, ¬ IsKernelTable frame ∧
    kernelEntry s.mem (pageOf parent.bits + i) = pteOf (frame * pgSize)
  bitsLen : parent.btmpBytesLen ≤ bitmapPgCnt * pgSize
  vaddrAligned : parent.vaddrStart % pgSize = 0
  vaddrHigh : parent.vaddrStart + 8 * parent.btmpBytesLen * pgSize ≤ 0xc0000000

end ZyOs.Userprog
