import Homunculos.Vfs.FileRuns

/-!
# What a call does to the slots

A slot of `vfs_open_files` is taken for an inode by `sys_open` or for a pipe end by
`sys_pipe`, and freed by a close.  No call turns a slot in use into something else,
and so the operation table of a slot tells what `private_data` points to.
-/

namespace Homunculos
namespace Vfs

/-- The slot is the same open file; its count and its flags may have changed. -/
structure SameFile (old new : File) : Prop where
  ops : new.ops = old.ops
  privateData : new.privateData = old.privateData
  pos : new.pos = old.pos

/-- A file as `sys_open` makes it for an inode, or an end as `sys_pipe` makes it. -/
def NewFile (inode : Option Nat) (file : File) : Prop :=
  (file.ops = some .vfsFileOps ∧ file.pos = 0 ∧
      ∃ ino, inode = some ino ∧ file.privateData = .inode ino) ∨
    ((file.ops = some .pipeReadOps ∨ file.ops = some .pipeWriteOps) ∧
      ∃ p, file.privateData = .pipe p)

/-- The slot is freed or stays. -/
def Closes (old new : File) : Prop :=
  new.ops = none ∨ SameFile old new

/-- The slot is freed, stays, or is taken. -/
def SlotStep (inode : Option Nat) (old new : File) : Prop :=
  Closes old new ∨ (old.ops = none ∧ NewFile inode new)

section Files

variable {inode : Option Nat} {a b c : File}

theorem SameFile.refl (a : File) :
    SameFile a a :=
  ⟨rfl, rfl, rfl⟩

theorem SameFile.trans (h : SameFile a b) (h' : SameFile b c) :
    SameFile a c :=
  ⟨h'.ops.trans h.ops, h'.privateData.trans h.privateData, h'.pos.trans h.pos⟩

theorem Closes.refl (a : File) :
    Closes a a :=
  Or.inr (SameFile.refl a)

theorem Closes.trans (h : Closes a b) (h' : Closes b c) :
    Closes a c := by
  rcases h' with hnone | hsame'
  · exact Or.inl hnone
  · rcases h with hnone | hsame
    · exact Or.inl (hsame'.ops.trans hnone)
    · exact Or.inr (hsame.trans hsame')

theorem SlotStep.same (h : SlotStep inode a b) (ha : a.ops ≠ none) (hb : b.ops ≠ none) :
    SameFile a b := by
  rcases h with (hnone | hsame) | ⟨hfree, -⟩
  · exact absurd hnone hb
  · exact hsame
  · exact absurd hfree ha

end Files

section Calls

variable {s : FileSys}

theorem setFile_closes {f : Slot} {file : File} (h : Closes (s.files f) file) (g : Slot) :
    Closes (s.files g) ((s.setFile f file).files g) := by
  by_cases hg : g = f
  · rw [hg, setFile_files_self]
    exact h
  · rw [setFile_files_of_ne s file hg]
    exact Closes.refl _

theorem setFile_new {inode : Option Nat} {f : Slot} {file : File} (hf : (s.files f).ops = none)
    (hnew : NewFile inode file) (g : Slot) :
    SlotStep inode (s.files g) ((s.setFile f file).files g) := by
  by_cases hg : g = f
  · rw [hg, setFile_files_self]
    exact Or.inr ⟨hf, hnew⟩
  · rw [setFile_files_of_ne s file hg]
    exact Or.inl (Closes.refl _)

theorem SlotStep.of_sameUse {s' : FileSys} (h : SameUse s s') (inode : Option Nat) (g : Slot) :
    SlotStep inode (s.files g) (s'.files g) := by
  by_cases hg : (s.files g).ops = none
  · exact Or.inl (Or.inl ((h.free_iff g).mpr hg))
  · rw [h.file g hg]
    exact Or.inl (Closes.refl _)

theorem incref_closes (s : FileSys) (f g : Slot) :
    Closes (s.files g) ((s.incref f).files g) := by
  apply setFile_closes
  exact Or.inr ⟨rfl, rfl, rfl⟩

theorem vfsCloseFile_closes (s : FileSys) (f g : Slot) :
    Closes (s.files g) ((vfsCloseFile s f).files g) := by
  by_cases hcount : 1 < (s.files f).refcount
  · rw [vfsCloseFile_of_many hcount]
    apply setFile_closes
    exact Or.inr ⟨rfl, rfl, rfl⟩
  · rw [(vfsCloseFile_of_last (not_lt.mp hcount)).1]
    apply setFile_closes
    exact Or.inl rfl

theorem forkFds_closes (s : FileSys) (parent child : Pid) (fds : List Fd) (g : Slot) :
    Closes (s.files g) ((fds.foldl (forkFd parent child) s).files g) := by
  induction fds generalizing s with
  | nil => exact Closes.refl _
  | cons i fds ih =>
    have hstep : Closes (s.files g) ((forkFd parent child s i).files g) := by
      unfold forkFd
      split
      · exact incref_closes (s.setFd child i (s.fdTable parent i)) _ g
      · exact Closes.refl _
    exact hstep.trans (ih (forkFd parent child s i))

/-- A relation that the steps of a task on its descriptors keep. -/
structure Stepwise (t : Pid) (R : FileSys → FileSys → Prop) : Prop where
  refl : ∀ s, R s s
  trans : ∀ {a b c}, R a b → R b c → R a c
  setFd : ∀ s i v, R s (s.setFd t i v)
  setFdFlags : ∀ s i b, R s (s.setFdFlags t i b)
  incref : ∀ s f, R s (s.incref f)
  setFlags : ∀ s f b, R s (s.setFile f { s.files f with flags := b })
  closeFile : ∀ s f, R s (vfsCloseFile s f)

section Stepwise

variable {t : Pid} {R : FileSys → FileSys → Prop} (h : Stepwise t R)
include h

theorem Stepwise.sysClose (s : FileSys) (fd : Int) :
    R s (sysClose s t fd).2 := by
  unfold Vfs.sysClose
  split
  · exact h.refl s
  · exact h.trans (h.setFd s _ none) (h.closeFile _ _)

theorem Stepwise.sysDup2 (s : FileSys) (oldfd newfd : Int) :
    R s (sysDup2 s t oldfd newfd).2 := by
  unfold Vfs.sysDup2
  split
  · exact h.refl s
  · split
    · exact h.refl s
    · split
      · exact h.refl s
      · rename_i j _ _ i f _ _
        refine h.trans (h.trans ?_ (h.incref _ f)) (h.setFd _ j (some f))
        split
        · exact h.closeFile s _
        · exact h.refl s

theorem Stepwise.sysDup (s : FileSys) (oldfd : Int) :
    R s (sysDup s t oldfd).2 := by
  unfold Vfs.sysDup
  split
  · exact h.refl s
  · split
    · exact h.refl s
    · exact h.sysDup2 s oldfd _

theorem Stepwise.sysFcntl64 (s : FileSys) (fd : Int) (cmd : FcntlCmd) (arg : BitVec 32) :
    R s (sysFcntl64 s t fd cmd arg).2 := by
  unfold Vfs.sysFcntl64
  split
  · exact h.refl s
  · rename_i i f _
    cases cmd with
    | dupfd =>
      dsimp only
      split
      · exact h.refl s
      · exact h.trans (h.trans (h.setFd s _ _) (h.incref _ f)) (h.setFdFlags _ _ _)
    | setfd => exact h.setFdFlags s i _
    | setfl => exact h.setFlags s f _
    | _ => exact h.refl s

theorem Stepwise.exitFds (fds : List Fd) (s : FileSys) :
    R s (fds.foldl (exitFd t) s) := by
  induction fds generalizing s with
  | nil => exact h.refl s
  | cons i fds ih =>
    refine h.trans ?_ (ih (exitFd t s i))
    unfold exitFd
    split
    · exact h.trans (h.closeFile s _) (h.setFd _ i none)
    · exact h.refl s

end Stepwise

theorem stepwise_closes (t : Pid) (g : Slot) :
    Stepwise t fun s s' => Closes (s.files g) (s'.files g) where
  refl _ := Closes.refl _
  trans := Closes.trans
  setFd _ _ _ := Closes.refl _
  setFdFlags _ _ _ := Closes.refl _
  incref s f := incref_closes s f g
  setFlags s f b := by
    apply setFile_closes
    exact Or.inr ⟨rfl, rfl, rfl⟩
  closeFile s f := vfsCloseFile_closes s f g

theorem sysOpen_slots
    (s : FileSys) (t : Pid) (path : Bool) (resolved created : Option Nat) (flags : BitVec 32)
    (g : Slot) :
    SlotStep (openInode resolved created flags) (s.files g)
      ((sysOpen s t path resolved created flags).2.files g) := by
  unfold sysOpen
  split
  · exact Or.inl (Closes.refl _)
  · cases hopen : vfsOpenFileFlags s (openInode resolved created flags) flags with
    | none => exact Or.inl (Closes.refl _)
    | some x =>
      obtain ⟨ino, hino, hslot⟩ := Option.bind_eq_some_iff.mp hopen
      obtain ⟨f', hfree, heq⟩ := Option.map_eq_some_iff.mp hslot
      cases heq
      dsimp only
      split
      · exact setFile_new (freeSlot_some hfree) (Or.inl ⟨rfl, rfl, ino, hino, rfl⟩) g
      · exact .of_sameUse (sameUse_open_close hopen) _ g

theorem sysPipe_slots (s : FileSys) (t : Pid) (inode : Option Nat) (g : Slot) :
    SlotStep inode (s.files g) ((sysPipe s t).2.2.files g) := by
  rcases sysPipe_cases s t with ⟨-, hsame⟩ |
    ⟨p, rf, wf, rfd, wfd, -, hrf, hwf, -, -, -, -, hout⟩
  · exact .of_sameUse hsame inode g
  · rw [hout]
    change SlotStep inode (s.files g) ((s.newPipe p rf wf).files g)
    unfold FileSys.newPipe
    by_cases hg : g = wf
    · rw [hg, setFile_files_self]
      exact Or.inr ⟨hwf, Or.inr ⟨Or.inr rfl, p, rfl⟩⟩
    · rw [setFile_files_of_ne _ _ hg]
      exact setFile_new (s := s.takePipe p) hrf (Or.inr ⟨Or.inl rfl, p, rfl⟩) g

/-- The inode that a call opens. -/
def Call.opens : Call → Option Nat
  | .open _ resolved created flags => openInode resolved created flags
  | _ => none

theorem Call.slotStep (c : Call) (s : FileSys) (t : Pid) (g : Slot) :
    SlotStep c.opens (s.files g) ((c.run s t).2.files g) := by
  have hsteps := stepwise_closes t g
  cases c with
  | «open» path resolved created flags => exact sysOpen_slots s t path resolved created flags g
  | close fd => exact Or.inl (hsteps.sysClose s fd)
  | dup oldfd => exact Or.inl (hsteps.sysDup s oldfd)
  | dup2 oldfd newfd => exact Or.inl (hsteps.sysDup2 s oldfd newfd)
  | fcntl fd cmd arg => exact Or.inl (hsteps.sysFcntl64 s fd cmd arg)
  | pipe => exact sysPipe_slots s t none g
  | fork cloned =>
    refine Or.inl ?_
    change Closes _ ((sysFork s t cloned).2.files g)
    unfold sysFork
    split
    · exact Closes.refl _
    · rename_i child s1 halloc
      have hfork := forkFds_closes s1 t child (List.finRange 16) g
      rw [(taskAlloc_frame halloc).1] at hfork
      split
      · exact hfork
      · exact hfork
  | exit =>
    refine Or.inl ?_
    change Closes _ ((sysExit s t).2.files g)
    unfold sysExit
    dsimp only
    split
    · exact hsteps.exitFds _ s
    · exact hsteps.exitFds _ s

end Calls

/-- The operation table of an open file tells what `private_data` points to. -/
def File.Typed (file : File) : Prop :=
  file.ops = none ∨
    (file.ops = some .vfsFileOps ∧ ∃ ino, file.privateData = .inode ino) ∨
    ((file.ops = some .pipeReadOps ∨ file.ops = some .pipeWriteOps) ∧
      ∃ p, file.privateData = .pipe p)

theorem SlotStep.typed
    {inode : Option Nat} {old new : File} (h : SlotStep inode old new) (hold : old.Typed) :
    new.Typed := by
  rcases h with (hnone | hsame) | ⟨-, ⟨hops, -, ino, -, hdata⟩ | hpipe⟩
  · exact Or.inl hnone
  · unfold File.Typed
    rw [hsame.ops, hsame.privateData]
    exact hold
  · exact Or.inr (Or.inl ⟨hops, ino, hdata⟩)
  · exact Or.inr (Or.inr hpipe)

end Vfs
end Homunculos
