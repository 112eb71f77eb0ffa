import Homunculos.Ipc.PipeOp

/-!
# Open files

The table `vfs_open_files` of `kernel/vfs.c`, the pipe pool of
`kernel/pipe.c`, the descriptor tables of the tasks, and the functions that
take and give back slots of them.

`vfs_open_files`, `pipe_pool` and the descriptor tables are arrays of 16, the
task table has 256 entries, so that a pointer into one of them is an index.
-/

namespace Homunculos
namespace Vfs

open Ipc Function

/-- An index of `vfs_open_files` (`VFS_MAX_OPEN_FILES`). -/
abbrev Slot := Fin 16

/-- An index of `pipe_pool` (`PIPE_MAX_PIPES`). -/
abbrev PipeNo := Fin 16

/-- A descriptor (`VFS_MAX_FD`). -/
abbrev Fd := Fin 16

/-- An index of `tasks` (`MAX_TASKS`); the pid of the task. -/
abbrev Pid := Fin 256

/-- For literal slots -/
instance slotNeZero : NeZero 16 :=
  ⟨by decide⟩

/-- For literal pids -/
instance pidNeZero : NeZero 256 :=
  ⟨by decide⟩

/-- The operation tables an open file can point to. -/
inductive FileOps where
  | vfsFileOps
  | pipeReadOps
  | pipeWriteOps
deriving DecidableEq

/-- `private_data`: the inode of a file, the pipe of a pipe end. -/
inductive PrivateData where
  | null
  | inode (ino : Nat)
  | pipe (p : PipeNo)
deriving DecidableEq

/-- `struct file`; a slot is free when `ops` is 0. -/
structure File where
  ops : Option FileOps
  privateData : PrivateData
  pos : Nat
  refcount : Int
  flags : BitVec 32
deriving DecidableEq

inductive TaskState where
  | ready
  | running
  | blocked
  | exited
deriving DecidableEq

/-- The open files, the pipes, and what the tasks have of both. -/
structure FileSys where
  files : Slot → File
  pipes : PipeNo → Pipe
  pipeUsed : PipeNo → Bool
  fdTable : Pid → Fd → Option Slot
  fdFlags : Pid → Fd → BitVec 8
  state : Pid → TaskState
  parentPid : Pid → Int
  nextPid : Nat

/-- A slot of `vfs_open_files` is written. -/
def FileSys.setFile (s : FileSys) (f : Slot) (file : File) : FileSys :=
  { s with files := update s.files f file }

/-- An entry of a descriptor table is written. -/
def FileSys.setFd (s : FileSys) (t : Pid) (fd : Fd) (v : Option Slot) : FileSys :=
  { s with
    fdTable := update s.fdTable t
      (update (s.fdTable t) fd v) }

/-- An entry of `fd_flags` is written. -/
def FileSys.setFdFlags (s : FileSys) (t : Pid) (fd : Fd) (v : BitVec 8) : FileSys :=
  { s with
    fdFlags := update s.fdFlags t
      (update (s.fdFlags t) fd v) }

/-- `f->refcount++`. -/
def FileSys.incref (s : FileSys) (f : Slot) : FileSys :=
  s.setFile f { s.files f with refcount := (s.files f).refcount + 1 }

def taskWake (s : FileSys) (pid : Int) : FileSys :=
  { s with
    state := fun t =>
      if (t.val : Int) = pid ∧ t.val < s.nextPid ∧ s.state t = .blocked then
        .ready
      else
        s.state t }

def taskAlloc (s : FileSys) : Option (Pid × FileSys) :=
  if h : s.nextPid < 256 then
    let t : Pid := ⟨s.nextPid, h⟩
    some (t,
      { s with
        state := update s.state t .ready
        parentPid := update s.parentPid t (-1)
        nextPid := s.nextPid + 1 })
  else
    none

/-- The first slot with `ops == 0`. -/
def FileSys.freeSlot (s : FileSys) : Option Slot :=
  (List.finRange 16).find? (fun f => (s.files f).ops.isNone)

/-- `vfs_alloc_file`; the slot is taken when the caller sets `ops`. -/
def vfsAllocFile (s : FileSys) : Option (Slot × FileSys) :=
  s.freeSlot.map fun f =>
    (f, s.setFile f
      { ops := none
        privateData := .null
        pos := 0
        refcount := 1
        flags := 0#32 })

def vfsOpenFileFlags (s : FileSys) (inode : Option Nat)
    (flags : BitVec 32) : Option (Slot × FileSys) :=
  inode.bind fun ino =>
    s.freeSlot.map fun f =>
      (f, s.setFile f
        { ops := some .vfsFileOps
          privateData := .inode ino
          pos := 0
          refcount := 1
          flags := flags })

def vfsOpenFile (s : FileSys) (inode : Option Nat) : Option (Slot × FileSys) :=
  vfsOpenFileFlags s inode 0#32

/-- `pipe_alloc` sets up a pipe. -/
def FileSys.takePipe (s : FileSys) (p : PipeNo) : FileSys :=
  { s with
    pipeUsed := update s.pipeUsed p true
    pipes := update s.pipes p pipeNew }

def pipeAlloc (s : FileSys) : Option (PipeNo × FileSys) :=
  ((List.finRange 16).find? (fun p => !s.pipeUsed p)).map fun p =>
    (p, s.takePipe p)

def pipeFree (s : FileSys) (p : PipeNo) : FileSys :=
  { s with pipeUsed := update s.pipeUsed p false }

/-- A close operation of a pipe end on the pipe of the file. The files with these operations point
to pipes; the branch for other data is the test for 0. -/
def closePipeEnd (close : Pipe → Pipe × Option Int × Bool) (s : FileSys) (f : Slot) : FileSys :=
  match (s.files f).privateData with
  | .pipe p =>
    let c := close (s.pipes p)
    let s₁ := { s with pipes := update s.pipes p c.1 }
    let s₂ := match c.2.1 with
      | some pid => taskWake s₁ pid
      | none => s₁
    if c.2.2 then pipeFree s₂ p else s₂
  | _ => s

/-- `f->ops->close(f)`, where the table has one. -/
def closeOp (s : FileSys) (f : Slot) : FileSys :=
  match (s.files f).ops with
  | some .pipeReadOps => closePipeEnd pipeCloseRead s f
  | some .pipeWriteOps => closePipeEnd pipeCloseWrite s f
  | _ => s

/-- What `vfs_close_file` leaves of a slot after its last reference. -/
def File.cleared (file : File) : File :=
  { file with
    ops := none
    privateData := .null
    pos := 0
    refcount := file.refcount - 1 }

def vfsCloseFile (s : FileSys) (f : Slot) : FileSys :=
  let s₁ := s.setFile f
    { s.files f with refcount := (s.files f).refcount - 1 }
  if 0 < (s.files f).refcount - 1 then
    s₁
  else
    (closeOp s₁ f).setFile f (s.files f).cleared

/-- The two ends of a pipe. -/
inductive PipeEnd where
  | read
  | write
deriving DecidableEq

/-- The close operation of an end. -/
def PipeEnd.close : PipeEnd → Pipe → Pipe × Option Int × Bool
  | .read => pipeCloseRead
  | .write => pipeCloseWrite

/-- `read_refs` or `write_refs`. -/
def PipeEnd.refs : PipeEnd → Pipe → Nat
  | .read, p => p.readRefs
  | .write, p => p.writeRefs

/-- The pipe end that an open file is. -/
def File.pipeEnd (file : File) : Option (PipeEnd × PipeNo) :=
  match file.ops, file.privateData with
  | some .pipeReadOps, .pipe p => some (.read, p)
  | some .pipeWriteOps, .pipe p => some (.write, p)
  | _, _ => none

section Slots

variable {s : FileSys} {f : Slot}

theorem freeSlot_some (h : s.freeSlot = some f) :
    (s.files f).ops = none := by
  have hf := List.find?_some h
  simpa using hf

theorem taskAlloc_frame {s' : FileSys} {t : Pid} (halloc : taskAlloc s = some (t, s')) :
    s'.files = s.files ∧ s'.fdTable = s.fdTable ∧
      s'.state = update s.state t .ready := by
  unfold taskAlloc at halloc
  split at halloc
  · cases halloc
    exact ⟨rfl, rfl, rfl⟩
  · cases halloc

theorem pipeEnd_eq_none {file : File} (h : file.ops = none) :
    file.pipeEnd = none := by
  simp [File.pipeEnd, h]

theorem setFile_setFile (s : FileSys) (f : Slot) (file file' : File) :
    (s.setFile f file).setFile f file' = s.setFile f file' := by
  simp [FileSys.setFile]

theorem setFile_files_self (s : FileSys) (f : Slot) (file : File) :
    (s.setFile f file).files f = file := by
  simp [FileSys.setFile]

theorem setFile_files_of_ne (s : FileSys) {f g : Slot} (file : File) (h : g ≠ f) :
    (s.setFile f file).files g = s.files g := by
  simp [FileSys.setFile, h]

/-- The table of all descriptors of all tasks. -/
def FileSys.table (s : FileSys) : Pid × Fd → Option Slot :=
  fun x => s.fdTable x.1 x.2

theorem table_setFd (s : FileSys) (t : Pid) (fd : Fd) (v : Option Slot) :
    (s.setFd t fd v).table = update s.table (t, fd) v := by
  funext ⟨t', fd'⟩
  unfold FileSys.table FileSys.setFd
  by_cases ht : t' = t
  · subst ht
    by_cases hfd : fd' = fd
    · subst hfd
      simp
    · simp [hfd]
  · simp [ht]

end Slots

section Close

variable {s : FileSys} {f : Slot}

theorem closePipeEnd_of_none (close : Pipe → Pipe × Option Int × Bool)
    (h : ∀ p, (s.files f).privateData ≠ .pipe p) :
    closePipeEnd close s f = s := by
  unfold closePipeEnd
  split
  next p hdata =>
    exact absurd hdata (h p)
  next =>
    rfl

theorem closePipeEnd_pipes
    (close : Pipe → Pipe × Option Int × Bool) {p : PipeNo} (h : (s.files f).privateData = .pipe p) :
    ((closePipeEnd close s f).pipes =
        update s.pipes p (close (s.pipes p)).1 ∧
      (closePipeEnd close s f).pipeUsed =
        if (close (s.pipes p)).2.2 then
          update s.pipeUsed p false
        else
          s.pipeUsed) ∧
      (closePipeEnd close s f).files = s.files ∧
      (closePipeEnd close s f).fdTable = s.fdTable ∧
      (closePipeEnd close s f).nextPid = s.nextPid := by
  unfold closePipeEnd
  rw [h]
  dsimp only
  generalize close (s.pipes p) = c
  obtain ⟨q, wake, freed⟩ := c
  cases wake with
  | none =>
    cases freed with
    | false => exact ⟨⟨rfl, rfl⟩, rfl, rfl, rfl⟩
    | true => exact ⟨⟨rfl, rfl⟩, rfl, rfl, rfl⟩
  | some pid =>
    cases freed with
    | false => exact ⟨⟨rfl, rfl⟩, rfl, rfl, rfl⟩
    | true => exact ⟨⟨rfl, rfl⟩, rfl, rfl, rfl⟩

theorem closePipeEnd_frame (close : Pipe → Pipe × Option Int × Bool) (s : FileSys) (f : Slot) :
    (closePipeEnd close s f).files = s.files ∧
      (closePipeEnd close s f).fdTable = s.fdTable ∧
      (closePipeEnd close s f).nextPid = s.nextPid := by
  by_cases h : ∃ p, (s.files f).privateData = .pipe p
  · obtain ⟨p, hdata⟩ := h
    exact (closePipeEnd_pipes close hdata).2
  · rw [closePipeEnd_of_none close (not_exists.mp h)]
    exact ⟨rfl, rfl, rfl⟩

theorem closeOp_frame (s : FileSys) (f : Slot) :
    (closeOp s f).files = s.files ∧
      (closeOp s f).fdTable = s.fdTable ∧
      (closeOp s f).nextPid = s.nextPid := by
  unfold closeOp
  split
  · exact closePipeEnd_frame _ _ _
  · exact closePipeEnd_frame _ _ _
  · exact ⟨rfl, rfl, rfl⟩

theorem closeOp_of_end {e : PipeEnd} {p : PipeNo} (h : (s.files f).pipeEnd = some (e, p)) :
    (closeOp s f).pipes =
        update s.pipes p (e.close (s.pipes p)).1 ∧
      (closeOp s f).pipeUsed =
        if (e.close (s.pipes p)).2.2 then
          update s.pipeUsed p false
        else
          s.pipeUsed := by
  unfold File.pipeEnd at h
  unfold closeOp
  split at h
  next hops hdata =>
    cases h
    rw [hops]
    exact (closePipeEnd_pipes pipeCloseRead hdata).1
  next hops hdata =>
    cases h
    rw [hops]
    exact (closePipeEnd_pipes pipeCloseWrite hdata).1
  next =>
    cases h

theorem closeOp_of_no_end (h : (s.files f).pipeEnd = none) :
    closeOp s f = s := by
  unfold closeOp
  split
  next hops =>
    exact closePipeEnd_of_none _ fun p hdata => by simp [File.pipeEnd, hops, hdata] at h
  next hops =>
    exact closePipeEnd_of_none _ fun p hdata => by simp [File.pipeEnd, hops, hdata] at h
  next =>
    rfl

theorem closeOp_setRefcount (s : FileSys) (f : Slot) (n : Int) :
    (closeOp (s.setFile f { s.files f with refcount := n }) f).pipes =
        (closeOp s f).pipes ∧
      (closeOp (s.setFile f { s.files f with refcount := n }) f).pipeUsed =
        (closeOp s f).pipeUsed := by
  have hend : ((s.setFile f { s.files f with refcount := n }).files f).pipeEnd =
      (s.files f).pipeEnd := by
    simp [FileSys.setFile, File.pipeEnd]
  cases h : (s.files f).pipeEnd with
  | none =>
    rw [closeOp_of_no_end h, closeOp_of_no_end (hend.trans h)]
    exact ⟨rfl, rfl⟩
  | some x =>
    have hs := closeOp_of_end h
    have hs' := closeOp_of_end (hend.trans h)
    exact ⟨hs'.1.trans hs.1.symm, hs'.2.trans hs.2.symm⟩

theorem vfsCloseFile_of_many (h : 1 < (s.files f).refcount) :
    vfsCloseFile s f =
      s.setFile f
        { s.files f with refcount := (s.files f).refcount - 1 } := by
  unfold vfsCloseFile
  rw [if_pos (by omega)]

theorem vfsCloseFile_of_last (h : (s.files f).refcount ≤ 1) :
    (vfsCloseFile s f).files =
        update s.files f (s.files f).cleared ∧
      (vfsCloseFile s f).pipes = (closeOp s f).pipes ∧
      (vfsCloseFile s f).pipeUsed = (closeOp s f).pipeUsed := by
  unfold vfsCloseFile
  rw [if_neg (by omega)]
  have hop := closeOp_setRefcount s f ((s.files f).refcount - 1)
  refine ⟨?_, hop.1, hop.2⟩
  dsimp only [FileSys.setFile]
  rw [(closeOp_frame _ f).1, update_idem]

/-- Descriptors and pids are no business of `vfs_close_file`. -/
theorem vfsCloseFile_frame (s : FileSys) (f : Slot) :
    (vfsCloseFile s f).fdTable = s.fdTable ∧
      (vfsCloseFile s f).nextPid = s.nextPid := by
  unfold vfsCloseFile
  split
  · exact ⟨rfl, rfl⟩
  · exact (closeOp_frame _ f).2

end Close

end Vfs
end Homunculos
