import Homunculos.Lib.Strings
import Homunculos.Mm.Spaces
import Homunculos.Mm.Vma
import Homunculos.Sched.Tasks
import Homunculos.Vfs.FileCalls

/-!
# Fork

`sys_fork`, `task_fork`, `task_alloc` and `task_init_fork_context` on the whole of
`struct task`, from the entry by `int $0x80` to the first instruction of the child in user
mode.

The memory of the kernel image, in which the stacks of the tasks stand, is kept apart from
the frames of the allocator; its frames are never free.  A page directory is given by its
frame, as in `mm.c`.
-/

namespace Homunculos
namespace Tasks

open Bytes Mm Sched Function

def taskStackSize : Nat :=
  4096

/-- Where the image has the stacks and contexts of the tasks, `fork_return`, and the
instruction of `syscall_handler` behind the call of a system call. -/
structure Image where
  taskStacks : Nat
  taskContexts : Nat
  forkReturn : Nat
  afterCall : Nat
  stacks_le : taskStacks + maxTasks * taskStackSize < 2 ^ 32
  contexts_le : taskContexts + maxTasks * 24 < 2 ^ 32
  forkReturn_lt : forkReturn < 2 ^ 32
  afterCall_lt : afterCall < 2 ^ 32

/-- `task_stacks[pid]` -/
def Image.stack (img : Image) (t : Task) : Nat :=
  img.taskStacks + t.val * taskStackSize

/-- `&task_contexts[pid]` -/
def Image.context (img : Image) (t : Task) : Nat :=
  img.taskContexts + t.val * 24

/-- A character array with a string in it. -/
structure CharArray (size : Nat) where
  text : List (BitVec 8)
  nonzero : 0#8 ∉ text
  fits : text.length < size

/-- `strncpy (dst, src, size - 1); dst[size - 1] = '\0'` -/
def CharArray.strncpy {size : Nat} (src : CharArray size) : CharArray size where
  text := src.text.take (size - 1)
  nonzero := fun h => src.nonzero (List.mem_of_mem_take h)
  fits := by
    have hfits := src.fits
    rw [List.length_take]
    omega

theorem CharArray.strncpy_eq {size : Nat} (src : CharArray size) :
    src.strncpy = src := by
  have hfits := src.fits
  have htext : src.text.take (size - 1) = src.text := List.take_of_length_le (by omega)
  cases src
  simpa only [CharArray.strncpy, CharArray.mk.injEq] using htext

/-- `"/"` in `cwd` -/
def rootCwd : CharArray 256 where
  text := [0x2F#8]
  nonzero := by decide
  fits := by decide

structure TaskContext where
  esp : Nat
  ebp : Nat
  ebx : Nat
  esi : Nat
  edi : Nat
  pdir : Nat

/-- The fields of `struct task` that the scheduler does not use. -/
structure TaskInfo where
  name : CharArray 32
  fdTable : Vfs.Fd → Option Vfs.Slot
  fdFlags : Vfs.Fd → BitVec 8
  pdir : Nat
  isUser : Bool
  brkStart : BitVec 32
  programBreak : BitVec 32
  cwd : CharArray 256
  vmas : VmaTable
  umask : BitVec 16
  sid : Int
  pgid : Int
  signalSigframe : BitVec 32
  signalHandlers : Nat → BitVec 32
  signalHandlersMask : Nat → BitVec 32
  signalHandlersFlags : Nat → BitVec 32
  context : TaskContext

/-- The tasks, the open files, the frames and the memory of the kernel image. -/
structure TaskSys extends Kernel where
  info : Task → TaskInfo
  files : Vfs.Slot → Vfs.File
  mm : State
  kernelPdir : Nat
  kmem : Nat → BitVec 8

/-- The registers of a task in user mode. -/
structure UserRegs where
  eax : BitVec 32
  ecx : BitVec 32
  edx : BitVec 32
  ebx : BitVec 32
  esp : BitVec 32
  ebp : BitVec 32
  esi : BitVec 32
  edi : BitVec 32
  eip : BitVec 32
  eflags : BitVec 32
  cs : BitVec 32
  ss : BitVec 32
deriving DecidableEq

namespace TaskSys

def setInfo (s : TaskSys) (t : Task) (x : TaskInfo) : TaskSys :=
  { s with info := update s.info t x }

@[simp] theorem info_setInfo_self (s : TaskSys) (t : Task) (x : TaskInfo) :
    (s.setInfo t x).info t = x :=
  update_self _ _ _

theorem info_setInfo_of_ne (s : TaskSys) {t u : Task} (x : TaskInfo) (h : u ≠ t) :
    (s.setInfo t x).info u = s.info u :=
  update_of_ne h _ _

/-- `f->refcount++` -/
def incref (s : TaskSys) (f : Vfs.Slot) : TaskSys :=
  { s with
    files := update s.files f
      { s.files f with refcount := (s.files f).refcount + 1 } }

/-- What `task_alloc` sets; the name, the descriptors and the context stay. -/
def freshInfo (s : TaskSys) (t : Task) : TaskInfo :=
  { s.info t with
    pdir := s.kernelPdir
    isUser := false
    brkStart := 0#32
    programBreak := 0#32
    vmas := VmaTable.empty
    cwd := rootCwd
    umask := 0o22#16
    sid := t.val
    pgid := t.val
    signalSigframe := 0#32
    signalHandlers := fun _ => Signal.sigDfl
    signalHandlersMask := fun _ => 0#32
    signalHandlersFlags := fun _ => 0#32 }

/-- `task_alloc`; `none` when the table is full. -/
def taskAlloc (s : TaskSys) : Option (Task × TaskSys) :=
  match s.toKernel.taskAlloc with
  | none => none
  | some (t, k) => some (t, { s with toKernel := k }.setInfo t (s.freshInfo t))

/-- The loop body of `task_fork` over the descriptors. -/
def forkFd (parent child : Task) (s : TaskSys) (i : Vfs.Fd) : TaskSys :=
  let s₁ := s.setInfo child
    { s.info child with
      fdTable := update (s.info child).fdTable i ((s.info parent).fdTable i)
      fdFlags := update (s.info child).fdFlags i ((s.info parent).fdFlags i) }
  match (s.info parent).fdTable i with
  | some f => s₁.incref f
  | none => s₁

/-- `task_fork` up to the address space. -/
def forkStart (s : TaskSys) (parent child : Task) : TaskSys :=
  let s := s.setInfo child { s.info child with name := (s.info parent).name.strncpy }
  let s := (List.finRange 16).foldl (forkFd parent child) s
  { s with parentPid := update s.parentPid child parent.val }

end TaskSys

/-- The kernel stack of the child: the memory, its stack pointer and its `ebp`. -/
def forkStack (img : Image) (m : Nat → BitVec 8) (parent child : Task) (eip cs eflags : BitVec 32)
    (fp : Nat) : (Nat → BitVec 8) × Nat × Nat :=
  let parentEbp := u32 m fp
  let stackBottom := img.stack parent + taskStackSize
  let childEnd := img.stack child + taskStackSize
  let userFork := cs = Signal.gdtUserCode
  let frame := if userFork then 52 else 40
  let belowSize := (stackBottom + (2 ^ 32 - (fp + frame))) % 2 ^ 32
  let dest := (childEnd + (2 ^ 32 - belowSize)) % 2 ^ 32
  let m := copy m dest (fun k => m (fp + frame + k)) belowSize
  -- the user stack, if it is in the lower half of the task stack
  let userEsp := u32 m (fp + 44)
  let userStackTop := img.stack parent + taskStackSize / 2
  let m :=
    if userFork ∧ img.stack parent ≤ userEsp ∧ userEsp < userStackTop then
      copy m (img.stack child + (userEsp - img.stack parent)) (fun k => m (userEsp + k))
        (userStackTop - userEsp)
    else
      m
  let sp := (dest + belowSize) % 2 ^ 32
  let x :=
    if userFork then
      let x := pushWord (m, sp) Signal.gdtUserData.toNat
      pushWord x (u32 x.1 (fp + 44))
    else
      (m, sp)
  let x := pushWords x [eflags.toNat, cs.toNat, eip.toNat, img.forkReturn]
  let childEbp :=
    if img.stack parent ≤ parentEbp ∧ parentEbp < stackBottom then
      img.stack child + (parentEbp - img.stack parent)
    else
      parentEbp
  (x.1, x.2, childEbp)

namespace TaskSys

/-- The rest of `task_fork`, for a child with this directory. -/
def finishFork
    (img : Image) (s : TaskSys) (parent child : Task) (pdir : Nat) (eip cs eflags : BitVec 32)
    (fp : Nat) : TaskSys :=
  let p := s.info parent
  let x := forkStack img s.kmem parent child eip cs eflags fp
  let s := s.setInfo child
    { s.info child with
      pdir := pdir
      isUser := p.isUser
      brkStart := p.brkStart
      programBreak := p.programBreak
      vmas := p.vmas
      cwd := p.cwd.strncpy
      umask := p.umask
      sid := p.sid
      pgid := p.pgid
      context := ⟨x.2.1, x.2.2, 0, 0, 0, pdir * 4096⟩ }
  { s with
    kmem := x.1
    toScheduler := schedulerAddTask s.toScheduler (some child) }

/-- `task_fork`: the child, if there is one. -/
def taskFork (img : Image) (s : TaskSys) (eip cs eflags : BitVec 32)
    (fp : Nat) : Option Task × TaskSys :=
  match s.current with
  | none => (none, s)
  | some parent =>
    match s.taskAlloc with
    | none => (none, s)
    | some (child, s) =>
      let s := s.forkStart parent child
      let p := s.info parent
      if p.isUser = true ∧ p.pdir ≠ s.kernelPdir then
        let c := mmClonePdir s.mm p.pdir
        if c.1 = 0 then
          (none, { s with mm := c.2 }.setInfo child { s.info child with pdir := 0 })
        else
          (some child, { s with mm := c.2 }.finishFork img parent child c.1 eip cs eflags fp)
      else
        (some child, s.finishFork img parent child p.pdir eip cs eflags fp)

/-- `sys_fork`, with its frame at `fp`. -/
def sysFork (img : Image) (s : TaskSys) (fp : Nat) : Int × TaskSys :=
  let word := fun o => BitVec.ofNat 32 (u32 s.kmem (fp + o))
  match s.taskFork img (word 32) (word 36) (word 40) fp with
  | (none, s) => (-1, s)
  | (some child, s) => (child.val, s)

end TaskSys

/--
What stands on the kernel stack of a task when it has called `sys_fork` from user mode,
in the order in which it was pushed: by the processor, by `syscall_handler` with its call,
and by the prologue of `sys_fork`.
-/
def entryWords (img : Image) (r : UserRegs) : List Nat :=
  [r.ss.toNat, r.esp.toNat, r.eflags.toNat, r.cs.toNat, r.eip.toNat,
    r.ebp.toNat, r.edi.toNat, r.esi.toNat, r.edx.toNat, r.ecx.toNat, r.ebx.toNat, img.afterCall,
    r.ebp.toNat]

/-- `int $0x80` for `sys_fork` by the task `t`, whose kernel stack is empty. -/
def TaskSys.callFork (img : Image) (s : TaskSys) (t : Task) (r : UserRegs) : Int × TaskSys :=
  let x := pushWords (s.kmem, img.stack t + taskStackSize) (entryWords img r)
  { s with kmem := x.1 }.sysFork img x.2

/-- The end of `switch_context` to a task that has not run yet, and `fork_return`: the registers
in user mode. `none` if the stack of the task does not lead there. -/
def TaskSys.startChild (img : Image) (s : TaskSys) (t : Task) : Option UserRegs :=
  let c := (s.info t).context
  let word := fun i => BitVec.ofNat 32 (u32 s.kmem (c.esp + 4 * i))
  if u32 s.kmem c.esp = img.forkReturn ∧ word 2 = Signal.gdtUserCode then
    some
      { eax := 0#32
        ecx := BitVec.ofNat 32 (img.context t)
        edx := BitVec.ofNat 32 c.pdir
        ebx := BitVec.ofNat 32 c.ebx
        esp := word 4
        ebp := BitVec.ofNat 32 c.ebp
        esi := BitVec.ofNat 32 c.esi
        edi := BitVec.ofNat 32 c.edi
        eip := word 1
        eflags := word 3
        cs := word 2
        ss := word 5 }
  else
    none

/-- An image that ends below 4 MiB. -/
def smallImage : Image where
  taskStacks := 0x200000
  taskContexts := 0x180000
  forkReturn := 0x101000
  afterCall := 0x102000
  stacks_le := by decide
  contexts_le := by decide
  forkReturn_lt := by decide
  afterCall_lt := by decide

/-- A task in user mode with this directory and without open files. -/
def userInfo (pdir : Nat) : TaskInfo where
  name := ⟨[], by decide, by decide⟩
  fdTable := fun _ => none
  fdFlags := fun _ => 0#8
  pdir := pdir
  isUser := true
  brkStart := 0#32
  programBreak := 0#32
  cwd := rootCwd
  vmas := VmaTable.empty
  umask := 0o22#16
  sid := 0
  pgid := 0
  signalSigframe := 0#32
  signalHandlers := fun _ => Signal.sigDfl
  signalHandlersMask := fun _ => 0#32
  signalHandlersFlags := fun _ => 0#32
  context := ⟨0, 0, 0, 0, 0, 0⟩

/-- The task in slot 0 runs in user mode, with its directory in frame 1. -/
def initSys (mm : State) (nextPid : Nat) : TaskSys where
  toKernel := { bootKernel with current := some 0, nextPid := nextPid }
  info := fun _ => userInfo 1
  files := fun _ => ⟨none, .null, 0, 0, 0#32⟩
  mm := mm
  kernelPdir := 0
  kmem := fun _ => 0#8

end Tasks
end Homunculos
