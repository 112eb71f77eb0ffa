import Homunculos.Sched.Fairness
import Homunculos.Signal.Model

/-!
# Tasks that block, wake, exit and wait

`task_alloc`, `task_fork`, `task_exit`, `task_block`, `task_wake`,
`task_waitpid` of `kernel/task.c`, the part of `signal_send` that wakes a task,
`scheduler_tick` and `sys_nanosleep`, over the fields of `struct task` that
they use.

The pid of a task is the index of its slot.  A task is inside `task_waitpid`
or `sys_nanosleep` while it is suspended there; the loops of both calls go on
when the task is current again.
-/

namespace Homunculos
namespace Sched

open Function

open TaskState (ready running blocked exited)

def timeSlice : Nat :=
  10

def tickHz : Int :=
  100

def wnohang : BitVec 32 :=
  1#32

/-- The scheduler and the task table. -/
structure Kernel extends Scheduler where
  nextPid : Nat
  parentPid : Task → Int
  exitStatus : Task → Int
  wakeupTick : Task → Nat
  pendingSignals : Task → BitVec 32
  signalMask : Task → BitVec 32
  tickCount : Nat

namespace Kernel

def putState (k : Kernel) (t : Task) (st : TaskState) : Kernel :=
  { k with state := update k.state t st }

/-- `schedule`, which leaves the fields of tasks that it does not use. -/
def schedule (k : Kernel) : Option Kernel :=
  (Sched.schedule k.toScheduler).map (fun s => { k with toScheduler := s })

/-- The first allocated slot that passes the test. -/
def findTask (k : Kernel) (test : Task → Bool) : Option Task :=
  (List.finRange maxTasks).find? (fun i => decide (i.val < k.nextPid) && test i)

/-- `task_alloc`; `none` when the table is full. -/
def taskAlloc (k : Kernel) : Option (Task × Kernel) :=
  if h : k.nextPid < maxTasks then
    let t : Task := ⟨k.nextPid, h⟩
    some (t, { k with
      parentPid := update k.parentPid t (-1)
      exitStatus := update k.exitStatus t 0
      state := update k.state t ready
      next := update k.next t none
      pendingSignals := update k.pendingSignals t 0#32
      signalMask := update k.signalMask t 0#32
      nextPid := k.nextPid + 1 })
  else
    none

/-- `task_fork`; `cloned` says whether `mm_clone_pdir` found memory. A child without an address
space keeps its slot but is not queued. -/
def taskFork (k : Kernel) (parent : Task) (cloned : Bool) : Kernel :=
  match k.taskAlloc with
  | none => k
  | some (child, k) =>
    let k := { k with parentPid := update k.parentPid child parent.val }
    if cloned then
      { k with toScheduler := schedulerAddTask k.toScheduler (some child) }
    else
      k

def taskWake (k : Kernel) (pid : Int) : Kernel :=
  match k.findTask (fun i => decide ((i.val : Int) = pid) && decide (k.state i = blocked)) with
  | none => k
  | some i => k.putState i ready

def signalSend (k : Kernel) (pid : Int) (sig : Nat) : Kernel :=
  if sig < 1 ∨ Signal.nsig ≤ sig then
    k
  else
    match k.findTask (fun i => decide ((i.val : Int) = pid) && decide (k.state i ≠ exited)) with
    | none => k
    | some i =>
      let k := { k with
        pendingSignals :=
          update k.pendingSignals i (k.pendingSignals i ||| Signal.sigBit sig) }
      if k.state i = blocked then k.putState i ready else k

/-- `task_exit` up to the call of `schedule`. -/
def markExited (k : Kernel) (t : Task) : Kernel :=
  let k := k.putState t exited
  if 0 ≤ k.parentPid t then
    (k.taskWake (k.parentPid t)).signalSend (k.parentPid t) Signal.sigChld
  else
    k

def taskExit (k : Kernel) (t : Task) : Option Kernel :=
  (k.markExited t).schedule

def taskBlock (k : Kernel) (t : Task) : Option Kernel :=
  (k.putState t blocked).schedule

/-- `task_find_child_exited_pid` -/
def findChildExitedPid (k : Kernel) (parentPid targetPid : Int) : Option Task :=
  k.findTask (fun i =>
    decide (k.parentPid i = parentPid) && decide (k.state i = exited) &&
      decide (targetPid ≤ 0 ∨ (i.val : Int) = targetPid))

/-- A sleeping task whose tick has come. -/
def due (k : Kernel) (t : Task) : Prop :=
  k.state t = blocked ∧ 0 < k.wakeupTick t ∧ k.wakeupTick t ≤ k.tickCount

instance (k : Kernel) (t : Task) : Decidable (k.due t) :=
  inferInstanceAs (Decidable (_ ∧ _))

/-- The loop of `scheduler_tick` over the task table. -/
def wakeSleepers (k : Kernel) : Kernel :=
  { k with
    wakeupTick := fun t => if k.due t then 0 else k.wakeupTick t
    state := fun t => if k.due t then ready else k.state t }

def schedulerTick (k : Kernel) : Option Kernel :=
  let k := { k with tickCount := (k.tickCount + 1) % 2 ^ 32 }
  let k := if 0 < k.tickCount then k.wakeSleepers else k
  if k.tickCount % timeSlice = 0 then k.schedule else some k

end Kernel

/-- A call in which a task can be suspended. -/
inductive Call where
  | waitpid (pid : Int) (options : BitVec 32)
  | nanosleep
  deriving DecidableEq

/-- A `task_waitpid` that returned a child. -/
structure Reaped where
  caller : Task
  target : Int
  child : Task
  status : Int
  deriving DecidableEq

/-- The kernel, where its tasks are suspended, and what happened so far: the
children that were returned, who made each task, and the status that it passed
to its last exit. -/
structure Machine where
  sys : Kernel
  call : Task → Option Call
  returned : List Reaped
  madeBy : Task → Int
  given : Task → Int

namespace Machine

def putSys (m : Machine) (k : Kernel) : Machine :=
  { m with sys := k }

def putCall (m : Machine) (t : Task) (c : Option Call) : Machine :=
  { m with call := update m.call t c }

/-- The loop of `task_waitpid` from its head to the next `return` or `task_block`. -/
def waitLoop (m : Machine) (t : Task) (pid : Int) (options : BitVec 32) : Option Machine :=
  match m.sys.findChildExitedPid t.val pid with
  | some child =>
    some { m.putCall t none with
      sys := { m.sys with parentPid := update m.sys.parentPid child (-1) }
      returned := ⟨t, pid, child, m.sys.exitStatus child⟩ :: m.returned }
  | none =>
    if options &&& wnohang ≠ 0 then
      some (m.putCall t none)
    else
      (m.sys.taskBlock t).map ((m.putCall t (some (.waitpid pid options))).putSys)

/-- The loop of `sys_nanosleep` from its head to the next `return` or `schedule`. -/
def sleepLoop (m : Machine) (t : Task) : Option Machine :=
  if m.sys.tickCount < m.sys.wakeupTick t ∧
      m.sys.pendingSignals t &&& ~~~m.sys.signalMask t = 0 then
    m.sys.schedule.map ((m.putCall t (some .nanosleep)).putSys)
  else
    some ((m.putCall t none).putSys (m.sys.putState t running))

/-- The number of ticks that `sys_nanosleep` waits. -/
def totalTicks (sec nsec : Int) : Nat :=
  let total := ((sec * tickHz + nsec / (1000000000 / tickHz)) % 2 ^ 32).toNat
  if total = 0 then 1 else total

def sysNanosleep (m : Machine) (t : Task) (sec nsec : Int) : Option Machine :=
  if sec < 0 ∨ nsec < 0 then
    some m
  else
    let wakeup := (m.sys.tickCount + totalTicks sec nsec) % 2 ^ 32
    let k := { m.sys with wakeupTick := update m.sys.wakeupTick t wakeup }
    (m.putSys (k.putState t blocked)).sleepLoop t

end Machine

/-- What the current task or the timer does next. -/
inductive Event where
  | fork (cloned : Bool)
  /-- `sys_exit` behind its loop over the descriptors, or a fatal signal. -/
  | exit (status : Int)
  | waitpid (pid : Int) (options : BitVec 32)
  /-- `task_block` in a loop of `pipe_read_op` or `pipe_write_op`. -/
  | block
  /-- `task_wake` by an operation on a pipe. -/
  | wake (pid : Int)
  | kill (pid : Int) (sig : Nat)
  /-- Delivery of signals and `sys_rt_sigprocmask`. -/
  | signals (pending mask : BitVec 32)
  | yield
  | nanosleep (sec nsec : Int)
  /-- The current task goes on in the call in which it was suspended. -/
  | resume
  | tick
  deriving DecidableEq

namespace Machine

/-- A call that the task `t` makes. -/
def userStep (m : Machine) (t : Task) : Event → Option Machine
  | .fork cloned =>
    some { m with
      sys := m.sys.taskFork t cloned
      madeBy :=
        match m.sys.taskAlloc with
        | none => m.madeBy
        | some (child, _) => update m.madeBy child t.val }
  | .exit status =>
    let k := { m.sys with exitStatus := update m.sys.exitStatus t status }
    (k.taskExit t).map { m with given := update m.given t status }.putSys
  | .waitpid pid options => m.waitLoop t pid options
  | .block => (m.sys.taskBlock t).map m.putSys
  | .wake pid => some (m.putSys (m.sys.taskWake pid))
  | .kill pid sig => if pid ≤ 0 then some m else some (m.putSys (m.sys.signalSend pid sig))
  | .signals pending mask =>
    some (m.putSys { m.sys with
      pendingSignals := update m.sys.pendingSignals t pending
      signalMask := update m.sys.signalMask t mask })
  | .yield => m.sys.schedule.map m.putSys
  | .nanosleep sec nsec => m.sysNanosleep t sec nsec
  | .resume => some m
  | .tick => m.sys.schedulerTick.map m.putSys

/-- A suspended call goes on; interrupts stay off in it unless it halts. -/
def callStep (m : Machine) (t : Task) (c : Call) (e : Event) : Option Machine :=
  match c, e with
  | .waitpid pid options, .resume => m.waitLoop t pid options
  | .nanosleep, .resume => m.sleepLoop t
  | .nanosleep, .tick => m.sys.schedulerTick.map m.putSys
  | _, _ => some m

/-- One event.  Before the first task is scheduled only the timer runs. -/
def step (m : Machine) (e : Event) : Option Machine :=
  match m.sys.current with
  | none => if e = .tick then m.sys.schedulerTick.map m.putSys else some m
  | some t =>
    match m.call t with
    | none => m.userStep t e
    | some c => m.callStep t c e

def run (m : Machine) (es : List Event) : Option Machine :=
  es.foldlM step m

end Machine

/-- `kernel_main`: init in slot 0, its waiter in slot 1, nothing is current. -/
def bootKernel : Kernel where
  toScheduler := schedulerAddTask (schedulerAddTask bootScheduler (some 0)) (some 1)
  nextPid := 2
  parentPid := fun t => if t = 0 then 1 else -1
  exitStatus := fun _ => 0
  wakeupTick := fun _ => 0
  pendingSignals := fun _ => 0#32
  signalMask := fun _ => 0#32
  tickCount := 0

/-- The parent of init is the waiter. -/
def bootMachine : Machine where
  sys := bootKernel
  call := fun _ => none
  returned := []
  madeBy := bootKernel.parentPid
  given := fun _ => 0

/-- A call of `sys_nanosleep` at a tick sleeps for the time it asks for, and neither the product
and sum of `int`s nor the tick to wake up at wraps around. -/
structure SleepsEnough (tick : Nat) (sec nsec : Int) : Prop where
  count : (BitVec.ofInt 32 sec * 100#32 + BitVec.ofInt 32 (nsec / 10000000)).toInt =
    sec * 100 + nsec / 10000000
  ticks : sec * 1000000000 + nsec ≤ Machine.totalTicks sec nsec * 10000000
  wakeup : (tick + Machine.totalTicks sec nsec) % 2 ^ 32 = tick + Machine.totalTicks sec nsec

/-- The time must be whole ticks or at most one, the seconds must fit when they are counted in
ticks, and the tick counter must be far enough from its end. -/
theorem sleepsEnough_iff (tick : Nat) {sec nsec : Int} (hsec : 0 ≤ sec ∧ sec < 2 ^ 31)
    (hnsec : 0 ≤ nsec ∧ nsec < 1000000000) :
    SleepsEnough tick sec nsec ↔
      (nsec % 10000000 = 0 ∨ sec = 0 ∧ nsec < 10000000) ∧
        sec * 100 + nsec / 10000000 < 2 ^ 31 ∧
        tick + max 1 (sec * 100 + nsec / 10000000) < 2 ^ 32 := by
  have hcount : (BitVec.ofInt 32 sec * 100#32 + BitVec.ofInt 32 (nsec / 10000000)).toInt =
      sec * 100 + nsec / 10000000 ↔ sec * 100 + nsec / 10000000 < 2 ^ 31 := by
    rw [BitVec.toInt_add, BitVec.toInt_mul, BitVec.toInt_ofInt, BitVec.toInt_ofInt,
      show (100#32 : BitVec 32).toInt = 100 by decide]
    simp only [Int.bmod_def]
    omega
  have htotal : sec * 100 + nsec / 10000000 < 2 ^ 31 →
      (Machine.totalTicks sec nsec : Int) = max 1 (sec * 100 + nsec / 10000000) := by
    intro hlt
    unfold Machine.totalTicks tickHz
    dsimp only
    split
    · omega
    · omega
  constructor
  · rintro ⟨hc, hticks, hwakeup⟩
    have hlt := hcount.mp hc
    omega
  · rintro ⟨hwhole, hlt, hwakeup⟩
    refine ⟨hcount.mpr hlt, ?_, ?_⟩
    · omega
    · omega

/-- Two seconds from tick 100 on. -/
theorem sleepsEnough_iff_two :
    SleepsEnough 100 2 0 :=
  (sleepsEnough_iff 100 (by decide) (by decide)).mpr (by decide)

/-- 15 ms are one tick of 10 ms. -/
theorem sleeps_too_short :
    ¬ SleepsEnough 0 0 15000000 := by
  intro h
  exact absurd h.ticks (by decide)

end Sched
end Homunculos
