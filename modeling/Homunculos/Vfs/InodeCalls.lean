import Homunculos.Lib.Bytes
import Homunculos.Vfs.Slots

/-!
# Calls that take `private_data` for an inode

`sys_fstat`, `sys_fchmod`, `sys_ftruncate64` and `sys_getdents` read the inode of a
descriptor through `private_data`.  On a pipe end this pointer leads to a
`struct pipe`, whose first bytes are the buffer: then the fields of the inode, its
operation table among them, are bytes that a task has written into the pipe.
-/

namespace Homunculos
namespace Vfs

open Ipc Bytes RefCount Function

/-- The pointer `ops`: to one of the tables, or whatever stands in memory. -/
inductive OpsPtr (κ : Type) where
  | null
  | table (k : κ)
  | address (a : Nat)

/-- `struct vfs_inode`, as far as these calls read it. -/
structure InodeFields (κ : Type) where
  iNo : Nat
  iSize : Nat
  iType : Nat
  iMode : Nat
  ops : OpsPtr κ
  iRdev : Nat

/-- The open files, the inodes, and everything that the file systems have. -/
structure World (κ ω : Type) where
  sys : FileSys
  inodes : Nat → InodeFields κ
  rest : ω

structure VfsDirent where
  dIno : Nat
  dName : List (BitVec 8)
  dType : Nat

/-- The operations that these calls find in the tables of the file systems. -/
structure Tables (κ ω : Type) where
  chmod : κ → Option (PrivateData → Nat → World κ ω → Int × World κ ω)
  truncate : κ → Option (PrivateData → Nat → World κ ω → Int × World κ ω)
  readdir : κ → Option (PrivateData → Nat → World κ ω → Option VfsDirent × World κ ω)

/-- `struct vfs_stat`; the fields that are always 0 are left out. -/
structure VfsStat where
  stIno : Nat
  stMode : Nat
  stNlink : Nat
  stRdev : Nat
  stSize : Nat
  stBlksize : Nat
  stBlocks : Nat
deriving DecidableEq

/--
What a call does: the value it returns (none if the kernel goes on through a pointer
that it has read from memory), the pointer it has taken for an inode, what it writes
to the caller, and the state.
-/
structure Effect (κ ω : Type) where
  ret : Option Int
  taken : Option PrivateData
  stat : Option VfsStat
  dirents : List VfsDirent
  world : World κ ω

section Calls

variable {κ ω : Type}

/-- The first bytes of a pipe read as an inode. -/
def pipeAsInode (p : Pipe) : InodeFields κ where
  iNo := u32 p.ring.buf 0
  iSize := u32 p.ring.buf 4
  iType := u16 p.ring.buf 8
  iMode := u16 p.ring.buf 10
  ops := if u32 p.ring.buf 12 = 0 then .null else .address (u32 p.ring.buf 12)
  iRdev := u32 p.ring.buf 20

/-- `(struct vfs_inode *)f->private_data`, if it is not 0. -/
def World.inodeAt (w : World κ ω) : PrivateData → Option (InodeFields κ)
  | .null => none
  | .inode ino => some (w.inodes ino)
  | .pipe p => some (pipeAsInode (w.sys.pipes p))

/-- `inode->i_mode = mode`, wherever the pointer leads. -/
def World.storeMode (w : World κ ω) (mode : Nat) : PrivateData → World κ ω
  | .null => w
  | .inode ino =>
    { w with inodes := update w.inodes ino { w.inodes ino with iMode := mode } }
  | .pipe p =>
    let q := w.sys.pipes p
    let ring := { q.ring with buf := putU16 q.ring.buf 10 mode }
    { w with sys := { w.sys with
      pipes := update w.sys.pipes p { q with ring := ring } } }

/-- The mode that `vfs_inode_stat` reports for an inode without one. -/
def defaultMode (iType : Nat) : Nat :=
  if iType = 0 then 0x8000 + 0o644
  else if iType = 1 then 0x4000 + 0o755
  else if iType = 2 then 0xA000 + 0o777
  else if iType = 3 then 0x2000 + 0o644
  else if iType = 4 then 0x6000 + 0o644
  else 0x8000 + 0o644

def vfsInodeStat (inode : InodeFields κ) : VfsStat where
  stIno := inode.iNo
  stMode := if inode.iMode = 0 then defaultMode inode.iType else inode.iMode
  stNlink := if inode.iType = 1 then 2 else 1
  stRdev := inode.iRdev
  stSize := inode.iSize
  stBlksize := 1024
  stBlocks := (inode.iSize + 511) % 2 ^ 32 / 512

/-- The call returns -1 and has done nothing. -/
def refused (w : World κ ω) : Effect κ ω :=
  ⟨some (-1), none, none, [], w⟩

/-- The beginning that the four calls share: the file, and its inode. -/
def withInode (w : World κ ω) (t : Pid) (fd : Int)
    (act : Slot → PrivateData → InodeFields κ → Effect κ ω) : Effect κ ω :=
  match w.sys.fileAt t fd with
  | none => refused w
  | some (_, f) =>
    match w.inodeAt (w.sys.files f).privateData with
    | none => refused w
    | some inode => act f (w.sys.files f).privateData inode

/-- `sys_fstat`; `buf` tells whether the buffer is not 0. -/
def sysFstat (w : World κ ω) (t : Pid) (fd : Int) (buf : Bool) : Effect κ ω :=
  if buf then
    withInode w t fd (fun _ data inode =>
      ⟨some 0, some data, some (vfsInodeStat inode), [], w⟩)
  else
    refused w

/-- `sys_fchmod` with `vfs_inode_chmod`. -/
def sysFchmod (env : Tables κ ω) (w : World κ ω) (t : Pid) (fd : Int) (mode : Nat) : Effect κ ω :=
  withInode w t fd (fun _ data inode =>
    let fullMode := inode.iMode / 0x1000 * 0x1000 + mode % 0x1000
    let w₁ := w.storeMode fullMode data
    match inode.ops with
    | .null => ⟨some 0, some data, none, [], w₁⟩
    | .address _ => ⟨none, some data, none, [], w₁⟩
    | .table k =>
      match env.chmod k with
      | none => ⟨some 0, some data, none, [], w₁⟩
      | some chmod => ⟨some (chmod data fullMode w₁).1, some data, none, [],
          (chmod data fullMode w₁).2⟩)

def sysFtruncate64 (env : Tables κ ω) (w : World κ ω) (t : Pid) (fd : Int)
    (length : Nat) : Effect κ ω :=
  withInode w t fd (fun _ data inode =>
    match inode.ops with
    | .null => ⟨some (-1), some data, none, [], w⟩
    | .address _ => ⟨none, some data, none, [], w⟩
    | .table k =>
      match env.truncate k with
      | none => ⟨some (-1), some data, none, [], w⟩
      | some truncate => ⟨some (truncate data length w).1, some data, none, [],
          (truncate data length w).2⟩)

/-- The size of a record that `sys_getdents` writes. -/
def recordLen (d : VfsDirent) : Nat :=
  12 + d.dName.length + 2

/-- The loop of `sys_getdents`: the next index, the records, and the state. -/
def getdentsLoop (readdir : Nat → World κ ω → Option VfsDirent × World κ ω)
    (count : Nat) : Nat → Nat → Nat → World κ ω → Nat × List VfsDirent × World κ ω
  | 0, idx, _, w => (idx, [], w)
  | n + 1, idx, written, w =>
    match readdir idx w with
    | (none, w) => (idx, [], w)
    | (some d, w) =>
      if count < written + recordLen d then
        (idx, [], w)
      else
        let r := getdentsLoop readdir count n (idx + 1) (written + recordLen d) w
        (r.1, d :: r.2.1, r.2.2)

/-- `sys_getdents`; a record has more than one byte, so `count` rounds are enough. -/
def sysGetdents (env : Tables κ ω) (w : World κ ω) (t : Pid) (fd : Int) (dirp : Bool)
    (count : Int) : Effect κ ω :=
  if dirp = false ∨ count ≤ 0 then
    refused w
  else
    withInode w t fd (fun f data inode =>
      match inode.ops with
      | .null => ⟨some (-1), some data, none, [], w⟩
      | .address _ => ⟨none, some data, none, [], w⟩
      | .table k =>
        match env.readdir k with
        | none => ⟨some (-1), some data, none, [], w⟩
        | some readdir =>
          let r := getdentsLoop (readdir data) count.toNat count.toNat (w.sys.files f).pos 0 w
          ⟨some (r.2.1.map recordLen).sum, some data, none, r.2.1,
            { r.2.2 with
              sys := r.2.2.sys.setFile f { r.2.2.sys.files f with pos := r.1 } }⟩)

/-- One of the four calls with its arguments. -/
inductive FdCall where
  | fstat (buf : Bool)
  | fchmod (mode : Nat)
  | ftruncate64 (length : Nat)
  | getdents (dirp : Bool) (count : Int)

def FdCall.run (env : Tables κ ω) (w : World κ ω) (t : Pid) (fd : Int) : FdCall → Effect κ ω
  | .fstat buf => sysFstat w t fd buf
  | .fchmod mode => sysFchmod env w t fd mode
  | .ftruncate64 length => sysFtruncate64 env w t fd length
  | .getdents dirp count => sysGetdents env w t fd dirp count

/-- The arguments other than the descriptor are good. -/
def FdCall.Admitted : FdCall → Prop
  | .fstat buf => buf = true
  | .fchmod _ => True
  | .ftruncate64 _ => True
  | .getdents dirp count => dirp = true ∧ 0 < count

end Calls

/-- The descriptor is open on an end of a pipe. -/
def PipeAt (s : FileSys) (t : Pid) (fd : Int) : Prop :=
  ∃ i f e, s.fileAt t fd = some (i, f) ∧ (s.files f).pipeEnd = some e

/--
The call takes `private_data` for an inode only if the descriptor was opened on one,
and on a pipe end it returns -1 and does nothing.
-/
structure FdSafe {κ ω : Type} (env : Tables κ ω) (w : World κ ω) (t : Pid) (fd : Int)
    (c : FdCall) : Prop where
  typed : ∀ data, (c.run env w t fd).taken = some data →
    ∃ i f, w.sys.fileAt t fd = some (i, f) ∧ (w.sys.files f).ops = some .vfsFileOps
  spares : PipeAt w.sys t fd → c.run env w t fd = refused w

/-- Reads and writes change positions and the contents of pipes, but no counts. -/
structure SameCounts (s s' : FileSys) : Prop where
  fdTable : s'.fdTable = s.fdTable
  nextPid : s'.nextPid = s.nextPid
  pipeUsed : s'.pipeUsed = s.pipeUsed
  ops : ∀ f, (s'.files f).ops = (s.files f).ops
  privateData : ∀ f, (s'.files f).privateData = (s.files f).privateData
  refcount : ∀ f, (s'.files f).refcount = (s.files f).refcount
  refs : ∀ e p, PipeEnd.refs e (s'.pipes p) = PipeEnd.refs e (s.pipes p)

/-- A call on descriptors, or anything that changes positions and pipe contents. -/
inductive FdStep : FileSys → FileSys → Prop
  | call
      {s s' : FileSys}
      (hstep : FileStep s s') :
      FdStep s s'
  | data
      {s s' : FileSys}
      (hsame : SameCounts s s') :
      FdStep s s'

section Invariant

variable {s s' : FileSys} {held : Slot → Nat}

theorem SameCounts.inv (h : SameCounts s s') (hinv : Inv s held) :
    Inv s' held := by
  have htable : s'.table = s.table := by
    funext x
    exact congrFun (congrFun h.fdTable x.1) x.2
  have hends : (fun f => (s'.files f).pipeEnd) = fun f => (s.files f).pipeEnd := by
    funext f
    unfold File.pipeEnd
    rw [h.ops, h.privateData]
  refine ⟨⟨?_, ?_⟩, ?_, ?_⟩
  · intro f hf
    rw [h.ops] at hf
    rw [h.refcount, htable]
    exact hinv.counted.count_eq f hf
  · intro f
    rw [h.ops, htable]
    exact hinv.counted.used_iff f
  · rw [hends, h.pipeUsed]
    have hpipes := hinv.pipesOk
    refine ⟨hpipes.used_of_end, hpipes.unique, hpipes.open_of_used, ?_, ?_⟩
    · intro f e p hf
      rw [h.refs]
      exact hpipes.refs_of_open f e p hf
    · intro e p hp hclosed
      rw [h.refs]
      exact hpipes.refs_of_closed e p hp hclosed
  · intro t ht fd
    rw [h.fdTable]
    exact hinv.fresh t (by rw [← h.nextPid]; exact ht) fd

/-- The references are counted, and the tables tell what the files are. -/
structure FdInv (held : Slot → Nat) (s : FileSys) : Prop where
  inv : Inv s held
  typed : ∀ f, (s.files f).Typed

theorem FdStep.fdInv (h : FdStep s s') (hs : FdInv held s) :
    FdInv held s' := by
  cases h with
  | call hstep =>
    refine ⟨hstep.inv hs.inv, ?_⟩
    cases hstep with
    | call t c ht harg =>
      intro f
      exact (c.slotStep s t f).typed (hs.typed f)
  | data hsame =>
    refine ⟨hsame.inv hs.inv, ?_⟩
    intro f
    unfold File.Typed
    rw [hsame.ops, hsame.privateData]
    exact hs.typed f

theorem zeroSys_typed (f : Slot) :
    (zeroSys.files f).Typed :=
  Or.inl rfl

theorem openFile_typed {inode : Option Nat} {f : Slot} (hopen : vfsOpenFile s inode = some (f, s'))
    (h : ∀ g, (s.files g).Typed) (g : Slot) :
    (s'.files g).Typed := by
  obtain ⟨hfree, ino, rfl⟩ := vfsOpenFileFlags_some hopen
  have hnew : NewFile (some ino) ⟨some .vfsFileOps, .inode ino, 0, 1, 0#32⟩ :=
    Or.inl ⟨rfl, rfl, ino, rfl, rfl⟩
  exact (setFile_new hfree hnew g).typed (h g)

theorem kernelMain_typed {d : Devices} (hboot : kernelMain d = some s) :
    ∀ f, (s.files f).Typed := by
  apply kernelMain_rule (P := fun z => ∀ f, (z.files f).Typed) zeroSys_typed _ _ _ _ hboot
  · intro z inode f z' hopen hz
    exact openFile_typed hopen hz
  · intro z t fd v hz
    exact hz
  · intro z t z' halloc hz
    rw [(taskAlloc_frame halloc).1]
    exact hz
  · intro z parents hz
    exact hz

theorem fdInv_of_run {d : Devices} {s₀ : FileSys} (hboot : kernelMain d = some s₀)
    (hrun : Relation.ReflTransGen FdStep s₀ s) :
    FdInv (bootRefs d) s := by
  induction hrun with
  | refl => exact ⟨kernelMain_inv hboot, kernelMain_typed hboot⟩
  | tail _ hstep ih => exact hstep.fdInv ih

theorem FdInv.fileAt_cases {t : Pid} {fd : Int} {i : Fd} {f : Slot} (h : FdInv held s)
    (hfile : s.fileAt t fd = some (i, f)) :
    ((s.files f).ops = some .vfsFileOps ∧ ∃ ino, (s.files f).privateData = .inode ino) ∨
      ∃ e p, (s.files f).privateData = .pipe p ∧ (s.files f).pipeEnd = some (e, p) := by
  have hfd := fileAt_some hfile
  have hused := h.inv.used_of_fd hfd
  rcases h.typed f with hnone | hinode | ⟨hops, p, hdata⟩
  · exact absurd hnone hused
  · exact Or.inl hinode
  · right
    rcases hops with hops | hops
    · exact ⟨.read, p, hdata, by simp only [File.pipeEnd, hops, hdata]⟩
    · exact ⟨.write, p, hdata, by simp only [File.pipeEnd, hops, hdata]⟩

end Invariant

section Effects

variable {κ ω : Type} {env : Tables κ ω} {w : World κ ω} {t : Pid} {fd : Int}

theorem FdCall.run_of_not_admitted {c : FdCall} (h : ¬ c.Admitted) :
    c.run env w t fd = refused w := by
  cases c with
  | fstat buf => exact if_neg h
  | fchmod mode => exact absurd trivial h
  | ftruncate64 length => exact absurd trivial h
  | getdents dirp count =>
    apply if_pos
    by_contra hgood
    rw [not_or] at hgood
    exact h ⟨by simpa using hgood.1, by omega⟩

theorem FdCall.taken_of_admitted
    {c : FdCall} {i : Fd} {f : Slot} {inode : InodeFields κ} (h : c.Admitted)
    (hfile : w.sys.fileAt t fd = some (i, f))
    (hinode : w.inodeAt (w.sys.files f).privateData = some inode) :
    (c.run env w t fd).taken = some (w.sys.files f).privateData := by
  cases c with
  | fstat buf =>
    have hbuf : buf = true := h
    simp only [run, sysFstat, if_pos hbuf, withInode, hfile, hinode]
  | fchmod mode =>
    simp only [run, sysFchmod, withInode, hfile, hinode]
    split
    · rfl
    · rfl
    · split
      · rfl
      · rfl
  | ftruncate64 length =>
    simp only [run, sysFtruncate64, withInode, hfile, hinode]
    split
    · rfl
    · rfl
    · split
      · rfl
      · rfl
  | getdents dirp count =>
    have hgood : ¬ (dirp = false ∨ count ≤ 0) := by
      rintro (hdirp | hcount)
      · rw [h.1] at hdirp
        cases hdirp
      · have hpos : 0 < count := h.2
        omega
    simp only [run, sysGetdents, if_neg hgood, withInode, hfile, hinode]
    split
    · rfl
    · rfl
    · split
      · rfl
      · rfl

theorem FdCall.run_of_no_file (c : FdCall) (h : w.sys.fileAt t fd = none) :
    c.run env w t fd = refused w := by
  by_cases hadm : c.Admitted
  · cases c with
    | fstat buf => simp only [run, sysFstat, withInode, h, ite_self]
    | fchmod mode => simp only [run, sysFchmod, withInode, h]
    | ftruncate64 length => simp only [run, sysFtruncate64, withInode, h]
    | getdents dirp count => simp only [run, sysGetdents, withInode, h, ite_self]
  · exact run_of_not_admitted hadm

end Effects

/--
In every state that is reached from boot, whatever the pipes hold: one of the four
calls is safe exactly if it is not made with good arguments on the end of a pipe.
-/
theorem fd_call_safe_iff
    {κ ω : Type} {d : Devices} {s₀ : FileSys} (hboot : kernelMain d = some s₀) (env : Tables κ ω)
    (w : World κ ω) (hrun : Relation.ReflTransGen FdStep s₀ w.sys) (t : Pid) (fd : Int)
    (c : FdCall) :
    FdSafe env w t fd c ↔ ¬ (c.Admitted ∧ PipeAt w.sys t fd) := by
  have hinv := fdInv_of_run hboot hrun
  constructor
  · rintro hsafe ⟨hadm, i, f, e, hfile, hend⟩
    rcases hinv.fileAt_cases hfile with ⟨hops, ino, hdata⟩ | ⟨e', p, hdata, -⟩
    · rw [File.pipeEnd, hops] at hend
      cases hend
    · have hinode : w.inodeAt (w.sys.files f).privateData =
          some (pipeAsInode (w.sys.pipes p)) := by
        rw [hdata]
        rfl
      obtain ⟨i', f', hfile', hops⟩ :=
        hsafe.typed _ (FdCall.taken_of_admitted hadm hfile hinode)
      rw [hfile] at hfile'
      cases hfile'
      rw [File.pipeEnd, hops] at hend
      cases hend
  · intro hnot
    constructor
    · intro data htaken
      by_cases hadm : c.Admitted
      · cases hfile : w.sys.fileAt t fd with
        | none =>
          rw [c.run_of_no_file hfile] at htaken
          cases htaken
        | some x =>
          obtain ⟨i, f⟩ := x
          rcases hinv.fileAt_cases hfile with ⟨hops, -⟩ | ⟨e, p, -, hend⟩
          · exact ⟨i, f, rfl, hops⟩
          · exact absurd ⟨hadm, i, f, (e, p), hfile, hend⟩ hnot
      · rw [FdCall.run_of_not_admitted hadm] at htaken
        cases htaken
    · intro hpipe
      exact FdCall.run_of_not_admitted (fun hadm => hnot ⟨hadm, hpipe⟩)

/-- Sixteen bytes of the user in a new pipe; the last four are `0xdeadbeef`. -/
def userBytes : List (BitVec 8) :=
  [0x2a#8, 0#8, 0#8, 0#8, 0#8, 0#8, 0#8, 0#8, 0#8, 0#8, 0#8, 0#8, 0xef#8, 0xbe#8, 0xad#8, 0xde#8]

/-- The booted kernel with one pipe, and the bytes in it. -/
def filledPipe : FileSys :=
  { piped with
    pipes := update piped.pipes 0
      { piped.pipes 0 with ring := (copyIn (piped.pipes 0).ring userBytes).2.2 } }

theorem filledPipe_reached :
    Relation.ReflTransGen FdStep booted filledPipe := by
  refine (Relation.ReflTransGen.single (.call booted_pipe)).tail (.data ?_)
  refine ⟨rfl, rfl, rfl, fun _ => rfl, fun _ => rfl, fun _ => rfl, ?_⟩
  intro e p
  by_cases hp : p = 0
  · subst hp
    cases e with
    | read => rfl
    | write => rfl
  · simp only [filledPipe, update_of_ne hp]

/-- The filled pipe, with no inodes and no tables. -/
def filledWorld : World Unit Unit where
  sys := filledPipe
  inodes := fun _ => ⟨0, 0, 0, 0, .null, 0⟩
  rest := ()

def noTables : Tables Unit Unit where
  chmod := fun _ => none
  truncate := fun _ => none
  readdir := fun _ => none

theorem filledPipe_pipeAt :
    PipeAt filledPipe 0 3 :=
  ⟨3, 4, (.read, 0), by decide +kernel, by decide +kernel⟩

theorem fd_call_safe_iff_filled :
    Relation.ReflTransGen FdStep booted filledWorld.sys ∧
      ¬ FdSafe noTables filledWorld 0 3 (.ftruncate64 0) := by
  refine ⟨filledPipe_reached, ?_⟩
  rw [fd_call_safe_iff (show kernelMain devices = some booted from rfl) noTables filledWorld
    filledPipe_reached]
  exact not_not.mpr ⟨trivial, filledPipe_pipeAt⟩

/--
On the read end of the pipe `sys_fstat` returns 0 with an inode number from the
bytes, `sys_fchmod` changes the bytes, and `sys_ftruncate64` goes on through the
address that they hold.
-/
theorem pipe_bytes_taken_for_inode :
    PipeAt filledPipe 0 3 ∧
      (sysFstat filledWorld 0 3 true).ret = some 0 ∧
      ((sysFstat filledWorld 0 3 true).stat.map VfsStat.stIno) = some 42 ∧
      u32 ((sysFchmod noTables filledWorld 0 3 0o777).world.sys.pipes 0).ring.buf 8 ≠
        u32 (filledPipe.pipes 0).ring.buf 8 ∧
      (sysFtruncate64 noTables filledWorld 0 3 0).ret = none ∧
      u32 (filledPipe.pipes 0).ring.buf 12 = 0xdeadbeef :=
  ⟨filledPipe_pipeAt, by decide +kernel, by decide +kernel, by decide +kernel, by decide +kernel,
    by decide +kernel⟩

end Vfs
end Homunculos
