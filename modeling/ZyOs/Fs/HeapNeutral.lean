import ZyOs.Fs.FileLedger
import ZyOs.Fs.PathResolution

/-!
Contract: which blocks are in use after a file-system call.

Owns:
- the entry of every call in the ledger;
- `Tidy`: what a call must not meet so that it gives every block back;
- the runs of the system, whatever calls come before.

Three calls keep a block: `sys_open` the `struct dir` in which it found an existing
file, `sys_getcwd` its buffer when the directory is the root, and `sys_read` and
`sys_write` their first buffer when there is no memory for the second.
-/

namespace ZyOs.Fs.Calls

open ZyOs.Kernel ZyOs.Memory ZyOs.Lib

variable {s₀ s s' : State} {blocks refs : List Ptr} {ptr : Ptr}

/-! ### Calls that give every block back -/

theorem sysClose_ensures (fd : Int) :
    Ensures (Ledger s₀ blocks refs) (sysClose fd) fun _ => Ledger s₀ blocks refs := by
  unfold sysClose
  split
  · apply Ensures.bind (fdLocal2global_ensures fd.toNat)
    intro globalFd
    apply Ensures.of_state
    intro read ⟨ledger, inTable⟩
    apply Ensures.bind ((fileClose_ensures inTable).strengthen fun s isRead => isRead ▸ ledger)
    intro _
    exact ((quiet_setFd fd.toNat none).bind fun _ => quiet_pure true).ensures
  · exact Ensures.pure fun s ledger => ledger

theorem dirClose_result (dir : Dir) {α : Type} (result : α) :
    Ensures (Ledger s₀ (dir.ownBlock ++ blocks) (dir.ownRef ++ refs))
      (dirClose dir >>= fun _ => pure result) fun _ => Ledger s₀ blocks refs := by
  apply Ensures.bind (dirClose_ensures dir)
  intro _
  exact Ensures.pure fun s ledger => ledger

theorem sysUnlink_ensures (fuel : Nat) (junk : Junk) (pathname : List UInt8) :
    Ensures (Ledger s₀ blocks refs) (sysUnlink fuel junk pathname) fun _ => Ledger s₀ blocks refs := by
  unfold sysUnlink
  apply Ensures.bind (quiet_check _).ensures
  intro _
  apply Ensures.bind (searchFile_ensures junk pathname)
  intro record
  apply Ensures.bind (quiet_check _).ensures
  intro _
  cases record.inodeNo with
  | none => exact dirClose_result record.parentDir false
  | some inodeNo =>
      dsimp only
      split
      · exact dirClose_result record.parentDir false
      · apply Ensures.bind quiet_get.ensures
        intro read
        split
        · exact dirClose_result record.parentDir false
        · apply Ensures.bind malloc_ensures
          intro answer
          cases answer with
          | none => exact dirClose_result record.parentDir false
          | some ioBuf =>
              apply Ensures.bind (quiet_deleteDirEntry _ _ _).ensures
              intro _
              apply Ensures.bind (inodeRelease_ensures inodeNo)
              intro _
              apply Ensures.bind (free_ensures ioBuf)
              intro _
              exact dirClose_result record.parentDir true

theorem quiet_linkDirectory (parentDir : Dir) (dirname : List UInt8) (inodeNo : Nat) :
    Quiet (linkDirectory parentDir dirname inodeNo) := by
  apply quiet_get.bind
  intro read
  apply (quiet_onPart _).bind
  intro allocated
  cases allocated with
  | none => exact quiet_pure false
  | some blockLba =>
      apply (quiet_onPart _).bind
      intro newDirInode
      apply (quiet_onPart _).bind
      intro newDirEntry
      apply (quiet_syncDirEntry _ _).bind
      intro synced
      cases synced with
      | true =>
          apply quiet_get.bind
          intro _
          exact (quiet_onPart _).bind fun _ => quiet_pure true
      | false => exact quiet_pure false

/-- The directory was opened after a block that the call still holds. -/
theorem free_below (dir : Dir) (ptr : Ptr) :
    Ensures (Ledger s₀ (dir.ownBlock ++ ptr :: blocks) refs) (free ptr) fun _ =>
      Ledger s₀ (dir.ownBlock ++ blocks) refs :=
  (free_ensures ptr).strengthen fun _ ledger => ledger.perm List.perm_middle (.refl _)

theorem sysMkdir_ensures (junk : Junk) (pathname : List UInt8) :
    Ensures (Ledger s₀ blocks refs) (sysMkdir junk pathname) fun _ => Ledger s₀ blocks refs := by
  unfold sysMkdir
  apply Ensures.bind malloc_ensures
  intro answer
  cases answer with
  | none => exact Ensures.pure fun s ledger => ledger
  | some ioBuf =>
      apply Ensures.bind (searchFile_ensures junk pathname)
      intro record
      -- The rollbacks close the directory first, then free the buffer.
      have back : Ensures (Ledger s₀ (record.parentDir.ownBlock ++ ioBuf :: blocks)
          (record.parentDir.ownRef ++ refs))
          (dirClose record.parentDir >>= fun _ => free ioBuf >>= fun _ => pure false) fun _ =>
            Ledger s₀ blocks refs := by
        apply Ensures.bind (dirClose_ensures record.parentDir)
        intro _
        apply Ensures.bind (free_ensures ioBuf)
        intro _
        exact Ensures.pure fun s ledger => ledger
      cases record.inodeNo with
      | some _ => exact back
      | none =>
          apply Ensures.bind (quiet_pathDepthCnt _ _).ensures
          intro pathnameDepth
          apply Ensures.bind (quiet_pathDepthCnt _ _).ensures
          intro pathSearchedDepth
          split
          · exact back
          · apply Ensures.bind (quiet_onPart _).ensures
            intro allocated
            cases allocated with
            | none => exact back
            | some inodeNo =>
                apply Ensures.bind (quiet_linkDirectory _ _ _).ensures
                intro linked
                cases linked with
                | true =>
                    apply Ensures.bind (free_below record.parentDir ioBuf)
                    intro _
                    exact dirClose_result record.parentDir true
                | false =>
                    apply Ensures.bind (quiet_unset inodeNo).ensures
                    intro _
                    exact back

theorem sysRmdir_ensures (fuel : Nat) (junk : Junk) (pathname : List UInt8) :
    Ensures (Ledger s₀ blocks refs) (sysRmdir fuel junk pathname) fun _ => Ledger s₀ blocks refs := by
  unfold sysRmdir
  apply Ensures.bind (searchFile_ensures junk pathname)
  intro record
  apply Ensures.bind (quiet_check _).ensures
  intro _
  cases record.inodeNo with
  | none => exact dirClose_result record.parentDir false
  | some inodeNo =>
      dsimp only
      split
      · exact dirClose_result record.parentDir false
      · apply Ensures.bind (dirOpen_ensures inodeNo)
        intro dir
        apply Ensures.bind ((quiet_get.bind fun _ => quiet_pure _).ensures)
        intro isEmpty
        split
        · apply Ensures.bind (dirRemove_ensures _ _ _)
          intro removed
          apply Ensures.bind (dirClose_ensures dir)
          intro _
          exact dirClose_result record.parentDir removed
        · apply Ensures.bind (dirClose_ensures dir)
          intro _
          exact dirClose_result record.parentDir false

theorem quiet_setCwd (inodeNo : Nat) :
    Quiet (modify fun s => { s with cwdInodeNr := Function.update s.cwdInodeNr s.cur inodeNo } : Call Unit) := by
  intro s a s' isRun
  cases isRun
  exact ⟨rfl, rfl, rfl, rfl, fun _ => rfl, fun _ => rfl⟩

theorem sysChdir_ensures (junk : Junk) (path : List UInt8) :
    Ensures (Ledger s₀ blocks refs) (sysChdir junk path) fun _ => Ledger s₀ blocks refs := by
  unfold sysChdir
  apply Ensures.bind (searchFile_ensures junk path)
  intro record
  cases record.inodeNo with
  | none => exact dirClose_result record.parentDir false
  | some inodeNo =>
      dsimp only
      split
      · apply Ensures.bind (quiet_setCwd inodeNo).ensures
        intro _
        exact dirClose_result record.parentDir true
      · exact dirClose_result record.parentDir false

theorem sysStat_ensures (junk : Junk) (path : List UInt8) :
    Ensures (Ledger s₀ blocks refs) (sysStat junk path) fun _ => Ledger s₀ blocks refs := by
  unfold sysStat
  split
  · exact (quiet_get.bind fun _ => quiet_pure _).ensures
  · apply Ensures.bind (searchFile_ensures junk path)
    intro record
    cases record.inodeNo with
    | none => exact dirClose_result record.parentDir none
    | some inodeNo =>
        apply Ensures.bind (inodeOpen_ensures inodeNo)
        intro objInode
        apply Ensures.bind quiet_get.ensures
        intro read
        apply Ensures.bind (inodeClose_ensures objInode)
        intro _
        exact dirClose_result record.parentDir _

/-! ### Reading and writing -/

/-- The descriptor of the running task, the slot and the inode that it stands for. -/
structure IsOpen (fd : Int) (globalFd : Nat) (ptr : Ptr) (s : State) : Prop where
  slot : s.fdTable s.cur fd.toNat = some globalFd
  refers : (s.fileTable globalFd).fdInode = some ptr

/-- There are bytes to read, and memory for one of two buffers. -/
def ReadsShort (fd : Int) (count : UInt32) (s : State) : Prop :=
  (∃ globalFd ptr, IsOpen fd globalFd ptr s ∧
    ¬ atEnd ⟨(s.fileTable globalFd).fdPos, (s.inode ptr).node⟩ count) ∧ RunsShort s

/-- There is a file to write to, which stays within its largest size, and memory for
one of two buffers. -/
def WritesShort (fd : Int) (count : UInt32) (s : State) : Prop :=
  (∃ globalFd ptr, IsOpen fd globalFd ptr s ∧ opensForWriting (s.fileTable globalFd).fdFlag ∧
    ¬ (s.inode ptr).node.iSize + count > maxFileSize) ∧ RunsShort s

theorem fdLocal2global_eq_some {localFd globalFd : Nat}
    (isRun : fdLocal2global localFd s = some (globalFd, s')) :
    s.fdTable s.cur localFd = some globalFd ∧ s' = s := by
  obtain ⟨_, s₁, isChecked, isRest⟩ := bind_eq_some isRun
  obtain ⟨_, rfl⟩ := check_eq_some isChecked
  obtain ⟨read, s₂, isRead, isThen⟩ := bind_eq_some isRest
  cases isRead
  obtain ⟨found, s₃, isFound, isLast⟩ := bind_eq_some isThen
  obtain ⟨_, isSlot, isPair⟩ := Option.map_eq_some_iff.mp isFound
  cases isPair
  obtain ⟨_, s₄, isInside, isPure⟩ := bind_eq_some isLast
  obtain ⟨_, rfl⟩ := check_eq_some isInside
  cases isPure
  exact ⟨isSlot, rfl⟩

theorem sysWrite_leftOver {fd : Int} {buf : Buf} {count : UInt32} {written : Option UInt32}
    (ledger : Ledger s₀ [] [] s) (isRun : sysWrite fd buf count s = some (written, s')) :
    LeftOver s₀ (¬ (0 ≤ fd ∧ fd ≠ 1 ∧ WritesShort fd count s)) s' := by
  unfold sysWrite at isRun
  split at isRun
  · cases isRun
    exact ledger.nothingLeft _
  · rename_i notNegative
    split at isRun
    · exact (((quiet_check _).bind fun _ => quiet_pure _).ensures.returns ledger isRun).nothingLeft _
    · rename_i notScreen
      obtain ⟨globalFd, s₁, isSlot, isRest⟩ := bind_eq_some isRun
      obtain ⟨slot, isSame⟩ := fdLocal2global_eq_some isSlot
      rw [isSame] at isRest
      obtain ⟨read, s₂, isRead, isRest⟩ := bind_eq_some isRest
      cases isRead
      split at isRest
      · rename_i isWriting
        obtain ⟨left, leftRefs, held, nothing⟩ := fileWrite_leftOver ledger isRest
        refine ⟨left, leftRefs, held, fun tidy => nothing ?_⟩
        rintro ⟨⟨ptr, refers, fits⟩, short⟩
        exact tidy ⟨by omega, notScreen, ⟨globalFd, ptr, ⟨slot, refers⟩, isWriting, fits⟩, short⟩
      · cases isRest
        exact ledger.nothingLeft _

theorem quiet_readKeys (count : Nat) : Quiet (readKeys count) := by
  intro s a s' isRun
  unfold readKeys at isRun
  split at isRun
  · cases isRun
    exact ⟨rfl, rfl, rfl, rfl, fun _ => rfl, fun _ => rfl⟩
  · cases isRun

theorem sysRead_leftOver {fd : Int} {count : UInt32} {bytes : Option (List UInt8)}
    (ledger : Ledger s₀ [] [] s) (isRun : sysRead fd count s = some (bytes, s')) :
    LeftOver s₀ (¬ (2 < fd ∧ ReadsShort fd count s)) s' := by
  unfold sysRead at isRun
  split at isRun
  · cases isRun
    exact ledger.nothingLeft _
  · rename_i notScreen
    split at isRun
    · exact (((quiet_readKeys _).bind fun _ => quiet_pure _).ensures.returns ledger isRun).nothingLeft _
    · rename_i notKeyboard
      obtain ⟨globalFd, s₁, isSlot, isRest⟩ := bind_eq_some isRun
      obtain ⟨slot, isSame⟩ := fdLocal2global_eq_some isSlot
      rw [isSame] at isRest
      obtain ⟨left, leftRefs, held, nothing⟩ := fileRead_leftOver ledger isRest
      refine ⟨left, leftRefs, held, fun tidy => nothing ?_⟩
      rintro ⟨⟨ptr, refers, notEnd⟩, short⟩
      exact tidy ⟨by omega, ⟨globalFd, ptr, ⟨slot, refers⟩, notEnd⟩, short⟩

/-! ### The working directory -/

theorem getParentDirInodeNr_ensures (childInodeNr : Nat) :
    Ensures (Ledger s₀ blocks refs) (getParentDirInodeNr childInodeNr) fun _ =>
      Ledger s₀ blocks refs := by
  unfold getParentDirInodeNr
  apply Ensures.bind (inodeOpen_ensures childInodeNr)
  intro childDirInode
  apply Ensures.bind quiet_get.ensures
  intro read
  apply Ensures.bind (quiet_check _).ensures
  intro _
  apply Ensures.bind (inodeClose_ensures childDirInode)
  intro _
  exact ((quiet_check _).bind fun _ => quiet_pure _).ensures

theorem getChildDirName_ensures (pInodeNr cInodeNr : Nat) (path : List UInt8) :
    Ensures (Ledger s₀ blocks refs) (getChildDirName pInodeNr cInodeNr path) fun _ =>
      Ledger s₀ blocks refs := by
  unfold getChildDirName
  apply Ensures.bind (inodeOpen_ensures pInodeNr)
  intro parentDirInode
  apply Ensures.bind quiet_get.ensures
  intro read
  apply Ensures.bind (inodeClose_ensures parentDirInode)
  intro _
  cases findChild read.part.disk
      (allBlocks read.part.disk (searchInode (read.inode parentDirInode).node)) cInodeNr with
  | none => exact Ensures.pure fun s ledger => ledger
  | some dirE => exact ((quiet_check _).bind fun _ => quiet_pure _).ensures

theorem climbLoop_ensures (fuel childInodeNr : Nat) (fullPathReverse : List UInt8) :
    Ensures (Ledger s₀ blocks refs) (climbLoop fuel childInodeNr fullPathReverse) fun _ =>
      Ledger s₀ blocks refs := by
  induction fuel generalizing childInodeNr fullPathReverse with
  | zero => exact Ensures.failure
  | succ fuel inductionHypothesis =>
      unfold climbLoop
      split
      · exact Ensures.pure fun s ledger => ledger
      · apply Ensures.bind (getParentDirInodeNr_ensures childInodeNr)
        intro parentInodeNr
        apply Ensures.bind (getChildDirName_ensures parentInodeNr childInodeNr fullPathReverse)
        intro named
        cases named with
        | none => exact Ensures.pure fun s ledger => ledger
        | some fullPathReverse =>
            apply Ensures.bind (quiet_check _).ensures
            intro _
            exact inductionHypothesis parentInodeNr fullPathReverse

/-- The working directory is the root, and there is memory for a buffer. -/
def AtRoot (s : State) : Prop :=
  s.cwdInodeNr s.cur = 0 ∧ ∃ ptr s₁, malloc s = some (some ptr, s₁)

theorem malloc_cwd {answer : Option Ptr} (isRun : malloc s = some (answer, s')) :
    s'.cwdInodeNr s'.cur = s.cwdInodeNr s.cur := by
  obtain ⟨read, s₁, isRead, isRun⟩ := bind_eq_some isRun
  cases isRead
  unfold sysMalloc at isRun
  split at isRun
  · cases isRun
    rfl
  · split at isRun
    · cases isRun
      rfl
    · cases isRun
      rfl

theorem sysGetcwd_leftOver {fuel size : Nat} {cwd : Option (List UInt8)}
    (ledger : Ledger s₀ [] [] s) (isRun : sysGetcwd fuel size s = some (cwd, s')) :
    LeftOver s₀ (¬ AtRoot s) s' := by
  unfold sysGetcwd at isRun
  obtain ⟨answer, s₁, isMalloc, isRest⟩ := bind_eq_some isRun
  have held := malloc_ensures.returns ledger isMalloc
  cases answer with
  | none =>
      cases isRest
      exact held.nothingLeft _
  | some ioBuf =>
      obtain ⟨read, s₂, isRead, isRest⟩ := bind_eq_some isRest
      cases isRead
      obtain ⟨_, s₂, isChecked, isRest⟩ := bind_eq_some isRest
      have held := (quiet_check _).ensures.returns held isChecked
      split at isRest
      · rename_i isRoot
        cases isRest
        rw [malloc_cwd isMalloc] at isRoot
        exact ⟨[ioBuf], [], held, fun tidy => absurd ⟨isRoot, ioBuf, s₁, isMalloc⟩ tidy⟩
      · obtain ⟨climbed, s₃, isClimb, isRest⟩ := bind_eq_some isRest
        have held := (climbLoop_ensures _ _ _).returns held isClimb
        cases climbed with
        | none =>
            obtain ⟨_, s₄, isFree, isRest⟩ := bind_eq_some isRest
            have held := (free_ensures ioBuf).returns held isFree
            cases isRest
            exact held.nothingLeft _
        | some fullPathReverse =>
            obtain ⟨_, s₄, isChecked, isRest⟩ := bind_eq_some isRest
            have held := (quiet_check _).ensures.returns held isChecked
            obtain ⟨buf, s₅, isReversed, isRest⟩ := bind_eq_some isRest
            have held := (quiet_onPart _).ensures.returns held isReversed
            obtain ⟨_, s₆, isFree, isRest⟩ := bind_eq_some isRest
            have held := (free_ensures ioBuf).returns held isFree
            cases isRest
            exact held.nothingLeft _

/-! ### Opening a file -/

theorem parseName_eq_some {size : Nat} {subPath : Option (List UInt8)}
    {parsed : List UInt8 × Option (List UInt8)} (isRun : parseName size subPath s = some (parsed, s')) :
    parsed = pathParseRest subPath ∧ s' = s := by
  obtain ⟨_, s₁, isChecked, isParsed⟩ := bind_eq_some isRun
  obtain ⟨_, rfl⟩ := check_eq_some isChecked
  obtain ⟨isPair, isState⟩ := Prod.mk.inj (Option.some.inj isParsed)
  exact ⟨isPair.symm, isState.symm⟩

theorem depthLoop_state {fuel : Nat} {isName : Bool} {subPath : Option (List UInt8)}
    {depth result : Nat} (isRun : depthLoop fuel isName subPath depth s = some (result, s')) :
    s' = s := by
  induction fuel generalizing isName subPath depth s with
  | zero => cases isRun
  | succ fuel inductionHypothesis =>
      cases isName with
      | false =>
          cases isRun
          rfl
      | true =>
          obtain ⟨parsed, s₁, isParse, isRest⟩ := bind_eq_some isRun
          rw [← (parseName_eq_some isParse).2]
          exact inductionHypothesis isRest

theorem pathDepthCnt_state {junk : Junk} {pathname : List UInt8} {result : Nat}
    (isRun : pathDepthCnt junk pathname s = some (result, s')) : s' = s := by
  obtain ⟨parsed, s₁, isParse, isRest⟩ := bind_eq_some isRun
  rw [← (parseName_eq_some isParse).2]
  exact depthLoop_state isRest

/-- `path_depth_cnt` counts the names that are left. -/
theorem depthLoop_names {fuel : Nat} {name : List UInt8} {subPath : Option (List UInt8)}
    {depth result : Nat} (isRun : depthLoop fuel (name ≠ []) subPath depth s = some (result, s')) :
    result = depth + (namesLeft name subPath).length := by
  induction fuel generalizing name subPath depth s with
  | zero => cases isRun
  | succ fuel inductionHypothesis =>
      by_cases isNil : name = []
      · rw [isNil] at isRun ⊢
        cases isRun
        rfl
      · rw [show decide (name ≠ []) = true from decide_eq_true isNil] at isRun
        obtain ⟨parsed, s₁, isParse, isRest⟩ := bind_eq_some isRun
        obtain ⟨rfl, _⟩ := parseName_eq_some isParse
        refine (inductionHypothesis isRest).trans ?_
        rw [namesLeft_rest subPath isNil, List.length_cons]
        exact Nat.add_right_comm depth 1 _

theorem pathDepthCnt_names {junk : Junk} {pathname : List UInt8} {result : Nat}
    (hasName : components slash pathname ≠ [])
    (isRun : pathDepthCnt junk pathname s = some (result, s')) :
    result = (components slash pathname).length := by
  obtain ⟨parsed, s₁, isParse, isRest⟩ := bind_eq_some isRun
  obtain ⟨rfl, _⟩ := parseName_eq_some isParse
  rw [← pathParse_names pathname] at hasName ⊢
  have isName : (pathParse pathname).1 ≠ [] := by
    intro isNil
    rw [namesLeft, if_pos isNil] at hasName
    exact hasName rfl
  have same : decide ((pathParse pathname).1 ≠ [] ∨ junk.name0 ≠ 0) =
      decide ((pathParse pathname).1 ≠ []) := by
    rw [decide_eq_true (Or.inl isName), decide_eq_true isName]
  change depthLoop _ (decide ((pathParse pathname).1 ≠ [] ∨ junk.name0 ≠ 0))
    (pathParse pathname).2 0 _ = _ at isRest
  rw [same] at isRest
  have counted := depthLoop_names isRest
  rw [Nat.zero_add] at counted
  exact counted

/-- What a search says of the file that it finds, and where it found it. -/
structure Finds (parentDir : Dir) (searchedPath : List UInt8) (record : SearchedRecord) : Prop where
  unknown : record.fileType = .unknown → record.inodeNo = none
  deeper : record.fileType = .regular →
    (components slash searchedPath).length < (components slash record.searchedPath).length
  below : record.fileType = .regular → record.parentDir = parentDir ∨
    (components slash searchedPath).length + 1 < (components slash record.searchedPath).length

theorem finds_directory (parentDir dir : Dir) (searchedPath path : List UInt8) (inodeNo : Option Nat) :
    Finds parentDir searchedPath ⟨inodeNo, path, dir, .directory⟩ where
  unknown isUnknown := by cases isUnknown
  deeper isRegular := by cases isRegular
  below isRegular := by cases isRegular

theorem pathParseRest_notMem (subPath : Option (List UInt8)) : slash ∉ (pathParseRest subPath).1 := by
  cases subPath with
  | none => exact List.not_mem_nil
  | some subPath => exact pathParse_notMem subPath

/-- Each directory on the way takes a name. -/
theorem searchLoop_finds {fuel : Nat} {parentDir : Dir} {parentInodeNo : Nat} {name : List UInt8}
    {subPath : Option (List UInt8)} {searchedPath : List UInt8} {dirE : DirEntry}
    {record : SearchedRecord} (notMem : slash ∉ name)
    (isRun : searchLoop fuel parentDir parentInodeNo name subPath searchedPath dirE s =
      some (record, s')) : Finds parentDir searchedPath record := by
  induction fuel generalizing parentDir parentInodeNo name subPath searchedPath dirE s with
  | zero => cases isRun
  | succ fuel inductionHypothesis =>
      unfold searchLoop at isRun
      split at isRun
      · obtain ⟨_, s₁, _, isRest⟩ := bind_eq_some isRun
        obtain ⟨dir, s₂, _, isRest⟩ := bind_eq_some isRest
        cases isRest
        exact finds_directory _ _ _ _ _
      · rename_i isName
        have oneMore := components_append_name searchedPath ⟨isName, notMem⟩
        have longer : (components slash (searchedPath ++ slash :: name)).length =
            (components slash searchedPath).length + 1 := by
          rw [oneMore, List.length_append]
          rfl
        obtain ⟨_, s₁, _, isRest⟩ := bind_eq_some isRun
        obtain ⟨found, s₂, _, isRest⟩ := bind_eq_some isRest
        cases found with
        | none =>
            cases isRest
            refine ⟨fun _ => rfl, fun isRegular => ?_, fun isRegular => ?_⟩
            · cases isRegular
            · cases isRegular
        | some dirE =>
            obtain ⟨parsed, s₃, isParse, isRest⟩ := bind_eq_some isRest
            obtain ⟨rfl, _⟩ := parseName_eq_some isParse
            have rest := pathParseRest_notMem subPath
            cases isType : dirE.fType with
            | directory =>
                simp only [isType] at isRest
                obtain ⟨read, s₄, _, isRest⟩ := bind_eq_some isRest
                obtain ⟨_, s₅, _, isRest⟩ := bind_eq_some isRest
                obtain ⟨dir, s₆, _, isRest⟩ := bind_eq_some isRest
                have finds := inductionHypothesis rest isRest
                refine ⟨finds.unknown, fun isRegular => ?_, fun isRegular => .inr ?_⟩
                · have deeper := finds.deeper isRegular
                  omega
                · have deeper := finds.deeper isRegular
                  omega
            | regular =>
                simp only [isType] at isRest
                cases isRest
                refine ⟨fun isUnknown => ?_, fun _ => ?_, fun _ => .inl rfl⟩
                · cases isUnknown
                · dsimp only
                  omega
            | unknown =>
                simp only [isType] at isRest
                have finds := inductionHypothesis rest isRest
                refine ⟨finds.unknown, fun isRegular => ?_, fun isRegular => ?_⟩
                · have deeper := finds.deeper isRegular
                  omega
                · refine (finds.below isRegular).imp_right fun below => ?_
                  omega

/-- A path without a name is a directory. -/
theorem searchFile_finds {junk : Junk} {pathname : List UInt8} {record : SearchedRecord}
    (isRun : searchFile junk pathname s = some (record, s')) :
    Finds (rootDir s) [] record ∧
      (record.fileType = .regular → components slash pathname ≠ []) := by
  unfold searchFile at isRun
  obtain ⟨read, s₁, isRead, isRest⟩ := bind_eq_some isRun
  cases isRead
  split at isRest
  · cases isRest
    refine ⟨finds_directory _ _ _ _ _, fun isRegular => ?_⟩
    cases isRegular
  · obtain ⟨_, s₁, _, isRest⟩ := bind_eq_some isRest
    obtain ⟨parsed, s₂, isParse, isRest⟩ := bind_eq_some isRest
    obtain ⟨rfl, _⟩ := parseName_eq_some isParse
    refine ⟨searchLoop_finds (pathParse_notMem pathname) isRest, fun isRegular noNames => ?_⟩
    have isNil : (pathParse pathname).1 = [] := by
      by_contra isName
      rw [← pathParse_names, namesLeft, if_neg isName] at noNames
      cases noNames
    change searchLoop (pathname.length + 1) _ 0 (pathParse pathname).1 _ [] _ _ = _ at isRest
    rw [isNil, searchLoop, if_pos rfl] at isRest
    obtain ⟨_, s₃, _, isRest⟩ := bind_eq_some isRest
    obtain ⟨dir, s₄, _, isRest⟩ := bind_eq_some isRest
    cases isRest
    cases isRegular

/-- The search leads to a file that exists, at the last name of the path. -/
def FindsFile (junk : Junk) (pathname : List UInt8) (s : State) : Prop :=
  ∃ record s₁, searchFile junk pathname s = some (record, s₁) ∧ record.fileType = .regular ∧
    record.inodeNo ≠ none ∧
    (components slash record.searchedPath).length = (components slash pathname).length

/-- An existing file below a directory other than the root is opened. -/
structure OpensBelow (junk : Junk) (pathname : List UInt8) (flags : Nat) (s : State) : Prop where
  noCreat : hasCreat flags = false
  lastChar : pathname.getLast? ≠ some slash
  below : 2 ≤ (components slash pathname).length
  finds : FindsFile junk pathname s

/-- A directory that is given back is not left over. -/
theorem dirClose_leftOver {dir : Dir} {α : Type} {result a : α} {tidy : Prop}
    (ledger : Ledger s₀ (dir.ownBlock ++ []) (dir.ownRef ++ []) s)
    (isRun : (dirClose dir >>= fun _ => pure result) s = some (a, s')) : LeftOver s₀ tidy s' :=
  ((dirClose_result dir result).returns ledger isRun).nothingLeft tidy

theorem sysOpen_leftOver {junk : Junk} {pathname : List UInt8} {flags : Nat} {fd : Option Nat}
    (ledger : Ledger s₀ [] [] s) (isRun : sysOpen junk pathname flags s = some (fd, s')) :
    LeftOver s₀ (¬ OpensBelow junk pathname flags s) s' := by
  unfold sysOpen at isRun
  obtain ⟨lastChar, s₁, isLast, isRest⟩ := bind_eq_some isRun
  obtain ⟨_, isChar, isPair⟩ := Option.map_eq_some_iff.mp isLast
  cases isPair
  split at isRest
  · cases isRest
    exact ledger.nothingLeft _
  · rename_i notSlash
    obtain ⟨_, s₁, isChecked, isRest⟩ := bind_eq_some isRest
    rw [(check_eq_some isChecked).2] at isRest
    obtain ⟨pathnameDepth, s₂, isDepth, isRest⟩ := bind_eq_some isRest
    rw [pathDepthCnt_state isDepth] at isRest
    obtain ⟨record, s₃, isSearch, isRest⟩ := bind_eq_some isRest
    have held := (searchFile_ensures junk pathname).returns ledger isSearch
    obtain ⟨finds, hasName⟩ := searchFile_finds isSearch
    split at isRest
    · exact dirClose_leftOver held isRest
    · rename_i notDirectory
      obtain ⟨searchedDepth, s₄, isSearched, isRest⟩ := bind_eq_some isRest
      rw [pathDepthCnt_state isSearched] at isRest
      split at isRest
      · exact dirClose_leftOver held isRest
      · rename_i sameDepth
        cases isFound : record.inodeNo with
        | none =>
            simp only [isFound] at isRest
            split at isRest
            · obtain ⟨created, s₅, isCreated, isRest⟩ := bind_eq_some isRest
              have held := (fileCreate_ensures _ _ _).returns held isCreated
              exact dirClose_leftOver held isRest
            · exact dirClose_leftOver held isRest
        | some inodeNo =>
            simp only [isFound] at isRest
            split at isRest
            · exact dirClose_leftOver held isRest
            · rename_i noCreat
              have held := (fileOpen_ensures inodeNo flags).returns held isRest
              refine ⟨_, _, held, fun tidy => ?_⟩
              have isRegular : record.fileType = .regular := by
                cases isType : record.fileType with
                | regular => rfl
                | directory => exact absurd isType notDirectory
                | unknown => cases isFound.symm.trans (finds.unknown isType)
              have deeper := finds.deeper isRegular
              have isName : components slash record.searchedPath ≠ [] :=
                List.ne_nil_of_length_pos (Nat.zero_lt_of_lt deeper)
              have sameLength : (components slash record.searchedPath).length =
                  (components slash pathname).length := by
                rw [← pathDepthCnt_names isName isSearched,
                  ← pathDepthCnt_names (hasName isRegular) isDepth]
                exact (not_not.mp sameDepth).symm
              rcases finds.below isRegular with isRoot | below
              · rw [isRoot]
                rfl
              · refine absurd ⟨by simpa using noCreat, fun isSlash => ?_, ?_, record, s₃, isSearch,
                  isRegular, ?_, sameLength⟩ tidy
                · apply notSlash
                  rw [isSlash] at isChar
                  exact (Option.some.inj isChar).symm
                · rw [← sameLength]
                  exact below
                · rw [isFound]
                  exact Option.some_ne_none inodeNo

/-! ### Opening and closing a directory -/

/-- The caller takes the directory over. -/
theorem Ledger.openDir {dir : Dir} (ledger : Ledger s₀ dir.ownBlock dir.ownRef s) :
    Ledger { s with dirs := dir :: s.dirs } [] [] { s with dirs := dir :: s.dirs } := by
  have sameBlocks : dirBlocks { s with dirs := dir :: s.dirs } = dir.ownBlock ++ dirBlocks s := rfl
  refine ⟨?_, ?_, fun _ mem _ => mem.resolve_left List.not_mem_nil, fun _ isLive => .inl isLive,
    fun _ isLive => .inl isLive, fun ptr => ?_⟩
  · rw [sameBlocks, List.nil_append, List.append_assoc]
    exact ledger.nodup
  · rw [sameBlocks, List.nil_append, List.append_assoc]
    exact ledger.live
  · have counted := ledger.counted ptr
    have sameRefs : dirRefs { s with dirs := dir :: s.dirs } ptr =
        dir.ownRef.count ptr + dirRefs s ptr := List.count_append
    show 0 + (fileRefs s ptr + dirRefs { s with dirs := dir :: s.dirs } ptr +
      if ptr = s.rootInode then 1 else 0) ≤ openings s ptr
    rw [sameRefs]
    unfold references at counted
    omega

theorem sysOpendir_settled {junk : Junk} {name : List UInt8} {found : Option Dir}
    (ledger : Ledger s₀ [] [] s) (isRun : sysOpendir junk name s = some (found, s')) :
    Ledger s' [] [] s' := by
  have settled : Ensures (Ledger s₀ [] []) (sysOpendir junk name) fun _ s => Ledger s [] [] s := by
    unfold sysOpendir
    apply Ensures.bind (quiet_check _).ensures
    intro _
    split
    · exact (quiet_get.bind fun _ => quiet_pure _).ensures.mono (fun _ ledger => ledger)
        fun _ _ ledger => ledger.settled
    · apply Ensures.bind (searchFile_ensures junk name)
      intro record
      have closed : Ensures (Ledger s₀ (record.parentDir.ownBlock ++ []) (record.parentDir.ownRef ++ []))
          (dirClose record.parentDir >>= fun _ => pure (none : Option Dir)) fun _ s =>
            Ledger s [] [] s :=
        (dirClose_result record.parentDir none).mono (fun _ ledger => ledger)
          fun _ _ ledger => ledger.settled
      cases record.inodeNo with
      | none => exact closed
      | some inodeNo =>
          dsimp only
          split
          · apply Ensures.bind (dirOpen_ensures inodeNo)
            intro dir
            have below : Ensures (Ledger s₀ (dir.ownBlock ++ (record.parentDir.ownBlock ++ []))
                (dir.ownRef ++ (record.parentDir.ownRef ++ []))) (dirClose record.parentDir) fun _ =>
                Ledger s₀ dir.ownBlock dir.ownRef := by
              refine (dirClose_ensures record.parentDir).strengthen fun _ ledger => ?_
              rw [List.append_nil, List.append_nil] at ledger
              exact ledger.perm List.perm_append_comm List.perm_append_comm
            apply Ensures.bind below
            intro _
            constructor
            intro s found s' ledger isRun
            cases isRun
            exact ledger.openDir
          · exact closed
  exact settled.returns ledger isRun

/-- A state in which the blocks that a call holds were not in use. -/
theorem exists_ledger (nodup : (blocks ++ (dirBlocks s ++ s.openInodes)).Nodup)
    (live : ∀ ptr ∈ blocks ++ (dirBlocks s ++ s.openInodes), s.heap ptr ≠ none)
    (counted : ∀ ptr, refs.count ptr + references s ptr ≤ openings s ptr) :
    ∃ s₀, Ledger s₀ blocks refs s := by
  refine ⟨{ s with heap := fun ptr => if ptr ∈ blocks then none else s.heap ptr }, nodup, live, ?_, ?_,
    ?_, counted⟩
  · intro ptr isIn wasLive
    dsimp only at wasLive
    split at wasLive
    · exact absurd rfl wasLive
    · rename_i notIn
      exact isIn.resolve_left notIn
  · intro ptr isLive
    by_cases isIn : ptr ∈ blocks
    · exact .inr (.inl isIn)
    · refine .inl ?_
      dsimp only
      rw [if_neg isIn]
      exact isLive
  · intro ptr wasLive
    dsimp only at wasLive
    split at wasLive
    · exact absurd rfl wasLive
    · exact .inl wasLive

/-- A directory is taken from its caller. -/
theorem Ledger.closeDir (ledger : Ledger s₀ [] [] s) {dir : Dir} (mem : dir ∈ s.dirs) :
    ∃ s₁, Ledger s₁ dir.ownBlock dir.ownRef { s with dirs := s.dirs.erase dir } := by
  have isPerm : s.dirs.Perm (dir :: s.dirs.erase dir) := List.perm_cons_erase mem
  have sameBlocks : (dirBlocks s).Perm
      (dir.ownBlock ++ dirBlocks { s with dirs := s.dirs.erase dir }) := isPerm.flatMap_right _
  have sameRefs : (s.dirs.flatMap Dir.ownRef).Perm
      (dir.ownRef ++ (s.dirs.erase dir).flatMap Dir.ownRef) := isPerm.flatMap_right _
  have same : (dirBlocks s ++ s.openInodes).Perm
      (dir.ownBlock ++ (dirBlocks { s with dirs := s.dirs.erase dir } ++ s.openInodes)) := by
    rw [← List.append_assoc]
    exact sameBlocks.append_right _
  refine exists_ledger (same.nodup_iff.mp ledger.nodup)
    (fun ptr mem => ledger.live ptr (same.mem_iff.mpr mem)) fun ptr => ?_
  have counted := ledger.counted ptr
  have sumRefs : dirRefs s ptr =
      dir.ownRef.count ptr + dirRefs { s with dirs := s.dirs.erase dir } ptr := by
    rw [dirRefs, sameRefs.count_eq, List.count_append]
    rfl
  show dir.ownRef.count ptr + (fileRefs s ptr + dirRefs { s with dirs := s.dirs.erase dir } ptr +
    if ptr = s.rootInode then 1 else 0) ≤ openings s ptr
  unfold references at counted
  rw [List.count_nil] at counted
  omega

theorem sysClosedir_settled {dir : Dir} {a : Unit} (ledger : Ledger s₀ [] [] s)
    (isRun : sysClosedir dir s = some (a, s')) : Ledger s' [] [] s' := by
  unfold sysClosedir at isRun
  obtain ⟨read, s₁, isRead, isRest⟩ := bind_eq_some isRun
  cases isRead
  split at isRest
  · cases isRest
    exact ledger.settled
  · obtain ⟨_, s₂, isChecked, isThen⟩ := bind_eq_some isRest
    obtain ⟨mem, rfl⟩ := check_eq_some isChecked
    obtain ⟨_, s₃, isErased, isClosed⟩ := bind_eq_some isThen
    cases isErased
    obtain ⟨before, erased⟩ := ledger.closeDir mem
    have closed := @dirClose_ensures before [] [] dir
    rw [List.append_nil, List.append_nil] at closed
    exact (closed.returns erased isClosed).settled

end ZyOs.Fs.Calls
