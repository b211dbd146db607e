import ZyOs.Fs.EntryRemoval
import ZyOs.Fs.SearchEffects

/-!
Contract: what `inode_release` leaves of a volume.

Owns:
- `Volume.Released`: the blocks of the inode and its number are free, and its record
  is zero;
- which inode the call releases: the one in memory with the number, or else the record.
-/

namespace ZyOs.Fs

open ZyOs.Kernel

variable {part part' part'' : Volume} {node : InodeTable.Inode} {blocks : List Nat} {lba n : Nat}

/-- The blocks are free now; a block may be given back twice. -/
theorem releaseBlocks_eq_some (layout : part.Layout)
    (inside : ∀ lba ∈ blocks, lba ≠ 0 → lba - part.dataStartLba < 8 * part.blockBitmap.btmpBytesLen)
    (isRun : Calls.releaseBlocks part blocks = some part') :
    part.Keeps part' [] [] ∧ part'.inodeBitmap = part.inodeBitmap ∧
      ∀ other, part'.InUse other ↔ part.InUse other ∧ other ∉ blocks := by
  induction blocks generalizing part with
  | nil =>
      cases isRun
      refine ⟨⟨⟨rfl, rfl, rfl, rfl, fun _ _ _ => rfl⟩, rfl, fun _ _ _ => rfl⟩, rfl, fun other => ?_⟩
      exact ⟨fun inUse => ⟨inUse, List.not_mem_nil⟩, fun both => both.1⟩
  | cons lba blocks inductionHypothesis =>
      unfold Calls.releaseBlocks at isRun
      by_cases isZero : lba = 0
      · rw [if_pos isZero] at isRun
        obtain ⟨keeps, bitmap, inUse⟩ := inductionHypothesis layout
          (fun other mem => inside other (List.mem_cons_of_mem _ mem)) isRun
        refine ⟨keeps, bitmap, fun other => ?_⟩
        rw [inUse other, List.mem_cons, not_or]
        constructor
        · rintro ⟨otherInUse, notIn⟩
          refine ⟨otherInUse, fun isLba => ?_, notIn⟩
          exact otherInUse.pos layout.toWellFormed (isLba.trans isZero)
        · rintro ⟨otherInUse, _, notIn⟩
          exact ⟨otherInUse, notIn⟩
      · rw [if_neg isZero] at isRun
        split at isRun
        · rename_i above
          have first := Volume.keeps_freeBlock layout (inside lba List.mem_cons_self isZero)
          obtain ⟨keeps, bitmap, inUse⟩ := inductionHypothesis (first.layout layout)
            (fun other mem => inside other (List.mem_cons_of_mem _ mem)) isRun
          refine ⟨first.trans keeps, bitmap, fun other => ?_⟩
          have isFreed := @inUse_freeBlock_iff part lba other (Nat.le_of_lt above)
          rw [List.mem_cons, not_or, ← and_assoc, ← isFreed]
          exact inUse other
        · cases isRun

theorem mem_inodeBlocks (ne : lba ≠ 0) :
    lba ∈ Calls.inodeBlocks part node ↔ lba ∈ ownBlocks part.disk node := by
  unfold Calls.inodeBlocks ownBlocks dirBlocks tableBlock
  rw [List.mem_cons, List.mem_append, List.mem_filter]
  by_cases isTable : sectorOf node 12 = 0
  · rw [isTable]
    simp [ne]
  · simp [ne, isTable]

/-- The inode with this number is released. -/
structure Volume.Released (part part' : Volume) (node : InodeTable.Inode) (n : Nat) : Prop where
  keeps : part.Keeps part' [n] []
  inUse : ∀ other, part'.InUse other ↔ part.InUse other ∧ other ∉ ownBlocks part.disk node
  inodeBit : ∀ other, bitmapScanTest part'.inodeBitmap other =
    if other = n then false else bitmapScanTest part.inodeBitmap other
  iSectors : (part'.record n).iSectors = fun _ => 0

/-- The steps of `inode_release` on the volume. -/
theorem Volume.released (layout : part.Layout) (inTable : n < 4096)
    (own : ∀ lba ∈ ownBlocks part.disk node, part.InUse lba)
    (first : Calls.releaseBlocks part (Calls.inodeBlocks part node) = some part')
    (second : ((part'.setInodeBit n false).bitmapSync n .inode).inodeDelete n = some part'') :
    part.Released part'' node n := by
  obtain ⟨keeps, inodeBitmap, inUse⟩ := releaseBlocks_eq_some layout
    (fun lba mem ne => (own lba ((mem_inodeBlocks ne).mp mem)).inside) first
  have unset := Volume.keeps_setInodeBit part' n false
  have layout' := keeps.layout layout
  have synced := unset.trans (Volume.keeps_syncInode (unset.layout layout') inTable)
  obtain ⟨deleted, blockBitmap, inodeBitmap'⟩ :=
    Volume.inodeDelete_eq_some (synced.layout layout') inTable second
  refine ⟨(keeps.trans synced).trans deleted, fun other => ?_, fun other => ?_, ?_⟩
  · have same : part''.InUse other ↔ part'.InUse other := (synced.trans deleted).inUse_iff blockBitmap
    rw [same, inUse]
    refine and_congr_right fun otherInUse => not_congr (mem_inodeBlocks ?_)
    exact otherInUse.pos layout.toWellFormed
  · rw [inodeBitmap', ← inodeBitmap]
    exact bitmapScanTest_bitmapSet part'.inodeBitmap n other false
  · obtain ⟨zeroed, isZeroed, patched⟩ :=
      InodeTable.inodeDelete_spec ((part'.setInodeBit n false).bitmapSync n .inode).inodeTable inTable
    unfold Volume.inodeDelete at second
    rw [isZeroed] at second
    cases second
    have isRecord := recordAt_patched_self patched
    exact congrArg InodeTable.Inode.iSectors isRecord

namespace Calls

open ZyOs.Memory ZyOs.Lib

variable {s s' : State}

/-- `inode_release` releases the inode that it has opened: that of the list, or the one
that it has read from the disk. -/
theorem inodeRelease_eq_some {a : Unit} (isRun : inodeRelease n s = some (a, s')) :
    ∃ node part₁ part₂, node.iNo.toNat = n ∧
      (s.part.readInode n = some node ∨ ∃ ptr ∈ s.openInodes, (s.inode ptr).node = node) ∧
      releaseBlocks s.part (inodeBlocks s.part node) = some part₁ ∧
      ((part₁.setInodeBit n false).bitmapSync n .inode).inodeDelete n = some part₂ ∧ s'.part = part₂ := by
  obtain ⟨ptr, s₁, isOpened, isRest⟩ := bind_eq_some isRun
  obtain ⟨read, s₂, isRead, isRest⟩ := bind_eq_some isRest
  cases isRead
  obtain ⟨_, s₃, isChecked, isRest⟩ := bind_eq_some isRest
  obtain ⟨isNo, rfl⟩ := check_eq_some isChecked
  obtain ⟨_, s₄, isReleased, isRest⟩ := bind_eq_some isRest
  obtain ⟨part₄, isStep, isAfter₄⟩ := onPart_eq_some isReleased
  obtain ⟨part₁, isBlocks, isPair⟩ := Option.bind_eq_some_iff.mp isStep
  obtain ⟨ioBuf, s₅, isBuf, isRest⟩ := bind_eq_some isRest
  obtain ⟨answer, s₅', isMalloc, isDeref⟩ := bind_eq_some isBuf
  obtain ⟨heap₅, isAfter₅, _⟩ := malloc_eq_some isMalloc
  obtain ⟨_, isSame₅⟩ := deref_eq_some isDeref
  obtain ⟨_, s₆, isDeleted, isRest⟩ := bind_eq_some isRest
  obtain ⟨part₂, isStep₆, isAfter₆⟩ := onPart_eq_some isDeleted
  obtain ⟨deleted, isDelete, isPair₆⟩ := Option.map_eq_some_iff.mp isStep₆
  obtain ⟨_, s₇, isFreed, isClosed⟩ := bind_eq_some isRest
  obtain ⟨heap₈, isAfter₈⟩ := inodeClose_eq_some isClosed
  have isPart : s'.part = part₂ := by
    rw [isAfter₈, free_eq_some isFreed, isAfter₆]
    rfl
  have isPart₁ : s₃.part = s.part := by
    cases inodeOpen_opened isOpened with
    | found _ _ _ after =>
        rw [after]
        rfl
    | loaded node asked _ _ _ _ after => rw [after]
  refine ⟨(s₃.inode ptr).node, part₁, part₂, isNo, ?_, ?_, ?_, isPart⟩
  · cases inodeOpen_opened isOpened with
    | found mem _ _ after =>
        rw [after]
        exact .inr ⟨ptr, mem, (countedUp_kept s ptr ptr).1.symm⟩
    | loaded node asked _ isRead _ _ after =>
        rw [after]
        dsimp only
        rw [Function.update_self]
        exact .inl isRead
  · rw [← isPart₁]
    exact isBlocks
  · cases isPair
    cases isPair₆
    rw [isSame₅, isAfter₅, isAfter₄] at isDelete
    exact isDelete

end Calls

end ZyOs.Fs
