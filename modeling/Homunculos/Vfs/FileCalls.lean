import Homunculos.Lib.RefCount
import Homunculos.Vfs.PipeEnds

/-!
# System calls on descriptors

`sys_open`, `sys_close`, `sys_dup`, `sys_dup2`, `sys_fcntl64`, `sys_pipe`,
`sys_fork` and `sys_exit`, as far as they work on open files, pipes and
descriptor tables.  The task that calls is the argument `t`.

What these calls learn from other parts of the kernel is an argument: the
inodes that path resolution and file creation return, and whether the page
directory of the parent could be cloned.
-/

namespace Homunculos
namespace Vfs

open Ipc RefCount

/-- The test `fd < 0 || fd >= VFS_MAX_FD`. -/
def fdOf (fd : Int) : Option Fd :=
  if h : 0 ≤ fd ∧ fd < 16 then
    some ⟨fd.toNat, by omega⟩
  else
    none

/-- The file at a descriptor argument, if the descriptor is valid and open. -/
def FileSys.fileAt (s : FileSys) (t : Pid) (fd : Int) : Option (Fd × Slot) :=
  (fdOf fd).bind fun i => (s.fdTable t i).map fun f => (i, f)

/-- The first free descriptor that is not below `arg`. -/
def FileSys.freeFdFrom (s : FileSys) (t : Pid) (arg : Int) : Option Fd :=
  (List.finRange 16).find?
    (fun fd => decide (arg ≤ fd.val) && (s.fdTable t fd).isNone)

def oCreat : BitVec 32 := 64#32

def oAppend : BitVec 32 := 1024#32

/-- The inode that `sys_open` opens. -/
def openInode (resolved created : Option Nat) (flags : BitVec 32) : Option Nat :=
  match resolved with
  | some ino => some ino
  | none => if flags &&& oCreat = 0#32 then none else created

/-- `sys_open`. `resolved` is the result of `vfs_resolve_path` and `created` that of
`vfs_create_file`; `path` tells whether the path pointer is not 0. -/
def sysOpen (s : FileSys) (t : Pid) (path : Bool) (resolved created : Option Nat)
    (flags : BitVec 32) : Int × FileSys :=
  if path = false then
    (-1, s)
  else
    match vfsOpenFileFlags s (openInode resolved created flags) flags with
    | none => (-1, s)
    | some (f, s₁) =>
      match s₁.freeFdFrom t 0 with
      | some fd => (fd.val, s₁.setFd t fd (some f))
      | none => (-1, vfsCloseFile s₁ f)

def sysClose (s : FileSys) (t : Pid) (fd : Int) : Int × FileSys :=
  match s.fileAt t fd with
  | none => (-1, s)
  | some (i, f) => (0, vfsCloseFile (s.setFd t i none) f)

def sysDup2 (s : FileSys) (t : Pid) (oldfd newfd : Int) : Int × FileSys :=
  match fdOf newfd with
  | none => (-1, s)
  | some j =>
    match s.fileAt t oldfd with
    | none => (-1, s)
    | some (i, f) =>
      if i = j then
        (newfd, s)
      else
        let s₁ := match s.fdTable t j with
          | some g => vfsCloseFile s g
          | none => s
        (newfd, (s₁.incref f).setFd t j (some f))

def sysDup (s : FileSys) (t : Pid) (oldfd : Int) : Int × FileSys :=
  match s.fileAt t oldfd with
  | none => (-1, s)
  | some _ =>
    match s.freeFdFrom t 0 with
    | none => (-1, s)
    | some newfd => sysDup2 s t oldfd newfd.val

/-- The commands of `sys_fcntl64`. -/
inductive FcntlCmd where
  | dupfd
  | getfd
  | setfd
  | getfl
  | setfl
  | other
deriving DecidableEq

/-- `sys_fcntl64`. The loop of `F_DUPFD` starts at `arg`; a negative argument would make it read
in front of the table and is not modelled. -/
def sysFcntl64 (s : FileSys) (t : Pid) (fd : Int) (cmd : FcntlCmd)
    (arg : BitVec 32) : Int × FileSys :=
  match s.fileAt t fd with
  | none => (-1, s)
  | some (i, f) =>
    match cmd with
    | .dupfd =>
      match s.freeFdFrom t arg.toInt with
      | none => (-1, s)
      | some j => (j.val, ((s.setFd t j (some f)).incref f).setFdFlags t j 0#8)
    | .getfd => ((s.fdFlags t i).toNat, s)
    | .setfd => (0, s.setFdFlags t i ((arg &&& 1#32).setWidth 8))
    | .getfl => ((s.files f).flags.toInt, s)
    | .setfl =>
      (0, s.setFile f
        { s.files f with
          flags := ((s.files f).flags &&& ~~~oAppend) |||
            (arg &&& oAppend) })
    | .other => (-1, s)

/-- The loop of `sys_pipe` over the descriptors, with `rfd` found so far. -/
def pipeFds (tbl : Fd → Option Slot) : List Fd → Option Fd → Option (Fd × Fd)
  | [], _ => none
  | i :: rest, rfd =>
    if tbl i = none then
      match rfd with
      | none => pipeFds tbl rest (some i)
      | some r => some (r, i)
    else
      pipeFds tbl rest rfd

/-- `sys_pipe` makes a slot from `vfs_alloc_file` a pipe end. -/
def FileSys.setEnd (s : FileSys) (f : Slot) (ops : FileOps) (p : PipeNo) : FileSys :=
  s.setFile f
    { s.files f with
      ops := some ops
      privateData := .pipe p
      pos := 0
      refcount := 1 }

/-- The exits of `sys_pipe` without two slots. -/
def dropPipe (s : FileSys) (p : PipeNo) : FileSys :=
  pipeFree
    { s with
      pipes := Function.update s.pipes p
        { s.pipes p with readRefs := 0, writeRefs := 0 } } p

/-- `sys_pipe`; the second component is what it writes to `fds`. -/
def sysPipe (s : FileSys) (t : Pid) : Int × Option (Fd × Fd) × FileSys :=
  match pipeAlloc s with
  | none => (-1, none, s)
  | some (p, s₁) =>
    match vfsAllocFile s₁ with
    | none => (-1, none, dropPipe s₁ p)
    | some (rf, s₂) =>
      let s₃ := s₂.setEnd rf .pipeReadOps p
      match vfsAllocFile s₃ with
      | none =>
        (-1, none,
          dropPipe (s₃.setFile rf { s₃.files rf with ops := none }) p)
      | some (wf, s₄) =>
        let s₅ := s₄.setEnd wf .pipeWriteOps p
        match pipeFds (s₅.fdTable t) (List.finRange 16) none with
        | none => (-1, none, vfsCloseFile (vfsCloseFile s₅ rf) wf)
        | some (rfd, wfd) =>
          (0, some (rfd, wfd), (s₅.setFd t rfd (some rf)).setFd t wfd (some wf))

/-- The loop body of `task_fork`. -/
def forkFd (parent child : Pid) (s : FileSys) (i : Fd) : FileSys :=
  let s₁ := s.setFd child i (s.fdTable parent i)
  let s₂ := match s.fdTable parent i with
    | some f => s₁.incref f
    | none => s₁
  s₂.setFdFlags child i (s.fdFlags parent i)

/-- `sys_fork` with `task_fork`. `cloned` is false when `mm_clone_pdir` fails; the child then
keeps its place in `tasks` and its descriptors. -/
def sysFork (s : FileSys) (t : Pid) (cloned : Bool) : Int × FileSys :=
  match taskAlloc s with
  | none => (-1, s)
  | some (child, s₁) =>
    let s₂ := (List.finRange 16).foldl (forkFd t child) s₁
    let s₃ := { s₂ with parentPid := Function.update s₂.parentPid child t.val }
    if cloned then (child.val, s₃) else (-1, s₃)

/-- The loop body of `sys_exit`. -/
def exitFd (t : Pid) (s : FileSys) (i : Fd) : FileSys :=
  match s.fdTable t i with
  | some f => (vfsCloseFile s f).setFd t i none
  | none => s

/-- `sys_exit` with `task_exit`. -/
def sysExit (s : FileSys) (t : Pid) : Int × FileSys :=
  let s₁ := (List.finRange 16).foldl (exitFd t) s
  let s₂ := { s₁ with state := Function.update s₁.state t .exited }
  if 0 ≤ s₂.parentPid t then
    (0, taskWake s₂ (s₂.parentPid t))
  else
    (0, s₂)

section Commute

variable {s : FileSys}

theorem closePipeEnd_setFd
    (close : Pipe → Pipe × Option Int × Bool) (s : FileSys) (t : Pid) (fd : Fd) (v : Option Slot)
    (f : Slot) :
    closePipeEnd close (s.setFd t fd v) f =
      (closePipeEnd close s f).setFd t fd v := by
  unfold closePipeEnd
  rw [show (s.setFd t fd v).files = s.files from rfl]
  cases (s.files f).privateData with
  | null => rfl
  | inode ino => rfl
  | pipe p =>
    dsimp only [FileSys.setFd]
    generalize close (s.pipes p) = c
    obtain ⟨q, wake, freed⟩ := c
    cases wake with
    | none =>
      cases freed with
      | false => rfl
      | true => rfl
    | some pid =>
      cases freed with
      | false => rfl
      | true => rfl

theorem closeOp_setFd (s : FileSys) (t : Pid) (fd : Fd) (v : Option Slot) (f : Slot) :
    closeOp (s.setFd t fd v) f = (closeOp s f).setFd t fd v := by
  unfold closeOp
  rw [show (s.setFd t fd v).files = s.files from rfl]
  cases (s.files f).ops with
  | none => rfl
  | some ops =>
    cases ops with
    | vfsFileOps => rfl
    | pipeReadOps => exact closePipeEnd_setFd pipeCloseRead s t fd v f
    | pipeWriteOps => exact closePipeEnd_setFd pipeCloseWrite s t fd v f

theorem vfsCloseFile_setFd (s : FileSys) (t : Pid) (fd : Fd) (v : Option Slot) (f : Slot) :
    vfsCloseFile (s.setFd t fd v) f = (vfsCloseFile s f).setFd t fd v := by
  unfold vfsCloseFile
  change (if 0 < (s.files f).refcount - 1 then _ else _) = _
  by_cases h : 0 < (s.files f).refcount - 1
  · rw [if_pos h, if_pos h]
    rfl
  · rw [if_neg h, if_neg h]
    have hop := closeOp_setFd
      (s.setFile f { s.files f with refcount := (s.files f).refcount - 1 })
      t fd v f
    exact congrArg (fun x => x.setFile f (s.files f).cleared) hop

theorem setFd_setFd (s : FileSys) (t : Pid) (fd : Fd) (v w : Option Slot) :
    (s.setFd t fd v).setFd t fd w = s.setFd t fd w := by
  simp [FileSys.setFd]

end Commute

end Vfs
end Homunculos
