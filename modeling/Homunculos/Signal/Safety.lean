import Homunculos.Signal.Model

/-!
# Privileges and unblockable signals

A user task returns to user mode with the user segments, interrupts enabled
and I/O privilege level 0, and it never blocks `SIGKILL` or `SIGSTOP`.  Every
operation on signals keeps this but `sys_rt_sigreturn`: it takes the segment
registers, the flags and the mask from a frame that user code can rewrite, and
keeps it exactly when the frame has the values that it should have.
-/

namespace Homunculos
namespace Signal

/-- Flags with `IF` set and `IOPL` 0. -/
def UserFlags (eflags : BitVec 32) : Prop :=
  eflags.getLsbD 9 = true ∧ eflags.getLsbD 12 = false ∧
    eflags.getLsbD 13 = false

/-- The task returns to ring 3 and blocks neither `SIGKILL` nor `SIGSTOP`. -/
structure Unprivileged (t : SigTask) (f : IretFrame) : Prop where
  cs : f.cs = gdtUserCode
  ss : f.ss = gdtUserData
  flags : UserFlags f.eflags
  mask : t.signalMask &&& unblockable = 0#32

/-- A signal frame with the user segments, user flags and a legal mask. -/
structure HonestFrame (sf : Sigframe) : Prop where
  cs : sf.savedCs = gdtUserCode
  ss : sf.savedSs = gdtUserData
  flags : UserFlags sf.savedEflags
  mask : sf.savedMask &&& unblockable = 0#32

/-- A user task: its signal state, its memory and its return frame. -/
structure UserTask where
  sig : SigTask
  mem : UserMem
  frame : IretFrame

/-- The user tasks by pid. -/
abbrev Tasks := Nat → Option UserTask

/-- `IF` and `IOPL`: code in ring 3 cannot change these flags. -/
def systemFlags : BitVec 32 := 0x3200#32

/-- What can happen to the task `pid`. -/
inductive Event where
  /-- User code runs and enters the kernel again. -/
  | user (pid : Nat) (mem : UserMem) (eip eflags userEsp : BitVec 32)
  | send (pid sig : Nat)
  | sigaction (pid signum : Nat) (act : Option Sigaction)
  | sigprocmask (pid how : Nat) (set : Option (BitVec 32))
  | deliver (pid : Nat)
  | sigreturn (pid : Nat)
  | fork (pid child : Nat)
  | exec (pid : Nat) (mem : UserMem) (entry userEsp : BitVec 32)

/-- User code cannot change its segments, `IF` and `IOPL`. -/
def runUser (t : UserTask) (mem : UserMem) (eip eflags userEsp : BitVec 32) : UserTask :=
  { t with
    mem := mem
    frame := { t.frame with
      eip := eip
      eflags := (eflags &&& ~~~systemFlags) |||
        (t.frame.eflags &&& systemFlags)
      userEsp := userEsp } }

/-- A delivered signal may end the task. -/
def deliverTask (t : UserTask) : Option UserTask :=
  let d := signalCheckAndDeliver t.sig t.mem t.frame
  match d.2.2.2 with
  | .exited _ => none
  | _ => some { sig := d.1, mem := d.2.1, frame := d.2.2.1 }

/-- `sys_rt_sigreturn` of the task. -/
def sigreturnTask (t : UserTask) : UserTask :=
  let r := sysRtSigreturn t.sig t.mem t.frame
  { t with sig := r.2.1, frame := r.2.2 }

/-- The child of `task_fork`: new signal state, the parent's frame and `ss`. -/
def forkTask (t : UserTask) : UserTask :=
  { sig := signalInitTask t.sig
    mem := t.mem
    frame := { t.frame with ss := gdtUserData } }

/-- `sys_exec` on success: new signal state, new memory, entry and stack. -/
def execTask (t : UserTask) (mem : UserMem) (entry userEsp : BitVec 32) : UserTask :=
  { sig := signalInitTask t.sig
    mem := mem
    frame := { t.frame with eip := entry, userEsp := userEsp } }

/-- The tasks after an event; a fork needs a free slot. -/
def step (s : Tasks) : Event → Tasks
  | .user pid mem eip eflags userEsp =>
    Function.update s pid
      ((s pid).map (fun t => runUser t mem eip eflags userEsp))
  | .send pid sig =>
    Function.update s pid
      ((s pid).map (fun t => { t with sig := signalSend t.sig sig }))
  | .sigaction pid signum act =>
    Function.update s pid ((s pid).map
      (fun t => { t with sig := (sysRtSigaction t.sig signum act).2 }))
  | .sigprocmask pid how set =>
    Function.update s pid ((s pid).map
      (fun t => { t with sig := (sysRtSigprocmask t.sig how set).2 }))
  | .deliver pid => Function.update s pid ((s pid).bind deliverTask)
  | .sigreturn pid => Function.update s pid ((s pid).map sigreturnTask)
  | .fork pid child =>
    if s child = none then
      Function.update s child ((s pid).map forkTask)
    else
      s
  | .exec pid mem entry userEsp =>
    Function.update s pid
      ((s pid).map (fun t => execTask t mem entry userEsp))

/-- The tasks after a sequence of events. -/
def run (s : Tasks) (es : List Event) : Tasks :=
  es.foldl step s

/-- Every task is unprivileged. -/
def AllSafe (s : Tasks) : Prop :=
  ∀ pid t, s pid = some t → Unprivileged t.sig t.frame

/-- The frame that a `sys_rt_sigreturn` of task `pid` would use is honest. -/
def HonestReturn (s : Tasks) (pid : Nat) : Prop :=
  ∀ t, s pid = some t → t.sig.signalSigframe ≠ 0#32 →
    HonestFrame (readSigframe t.mem t.sig.signalSigframe)

section Masks

theorem and_not_and_self (x u : BitVec 32) :
    x &&& ~~~u &&& u = 0#32 := by
  apply BitVec.eq_of_getLsbD_eq
  intro i hi
  simp

theorem mask_sysRtSigprocmask
    {t : SigTask} (h : t.signalMask &&& unblockable = 0#32) (how : Nat) (set : Option (BitVec 32)) :
    (sysRtSigprocmask t how set).2.signalMask &&& unblockable = 0#32 := by
  unfold sysRtSigprocmask
  split
  · exact h
  · split
    · exact and_not_and_self _ _
    · exact and_not_and_self _ _
    · exact and_not_and_self _ _
    · exact h

theorem mask_sysRtSigaction (t : SigTask) (signum : Nat) (act : Option Sigaction) :
    (sysRtSigaction t signum act).2.signalMask = t.signalMask := by
  unfold sysRtSigaction
  split
  · rfl
  · split
    · rfl
    · split
      · rfl
      · rfl

theorem mask_signalSend (t : SigTask) (sig : Nat) :
    (signalSend t sig).signalMask = t.signalMask := by
  unfold signalSend
  split
  · rfl
  · rfl

theorem getLsbD_merge {i : Nat} (hi : systemFlags.getLsbD i = true) (old eflags : BitVec 32) :
    ((eflags &&& ~~~systemFlags) ||| (old &&& systemFlags)).getLsbD i =
      old.getLsbD i := by
  rw [BitVec.getLsbD_or, BitVec.getLsbD_and, BitVec.getLsbD_and, BitVec.getLsbD_not, hi]
  simp

theorem userFlags_merge {old : BitVec 32} (h : UserFlags old) (eflags : BitVec 32) :
    UserFlags ((eflags &&& ~~~systemFlags) ||| (old &&& systemFlags)) := by
  unfold UserFlags
  rw [getLsbD_merge (by decide), getLsbD_merge (by decide),
    getLsbD_merge (by decide)]
  exact h

end Masks

section Steps

variable {t : UserTask}

theorem unprivileged_deliverTask
    {t' : UserTask} (h : Unprivileged t.sig t.frame) (hd : deliverTask t = some t') :
    Unprivileged t'.sig t'.frame := by
  unfold deliverTask at hd
  dsimp only at hd
  have ht' : t'.sig = (signalCheckAndDeliver t.sig t.mem t.frame).1 ∧
      t'.frame = (signalCheckAndDeliver t.sig t.mem t.frame).2.2.1 := by
    split at hd
    · cases hd
    · rw [← Option.some.inj hd]
      exact ⟨rfl, rfl⟩
  rw [ht'.1, ht'.2]
  rcases signalCheckAndDeliver_cases t.sig t.mem t.frame with
    ⟨_, _, hframe, hmask, _⟩ | ⟨sig, p, hout⟩
  · rw [hframe]
    refine ⟨h.cs, h.ss, h.flags, ?_⟩
    rw [hmask]
    exact h.mask
  · rw [hout]
    exact ⟨h.cs, h.ss, h.flags, and_not_and_self _ _⟩

/-- `sys_rt_sigreturn` keeps a task unprivileged exactly for an honest frame. -/
theorem unprivileged_sysRtSigreturn_iff
    (t : SigTask) (m : UserMem) (f : IretFrame) (hframe : t.signalSigframe ≠ 0#32) :
    Unprivileged (sysRtSigreturn t m f).2.1 (sysRtSigreturn t m f).2.2 ↔
      HonestFrame (readSigframe m t.signalSigframe) := by
  unfold sysRtSigreturn
  rw [if_neg hframe]
  constructor
  · intro h
    exact ⟨h.cs, h.ss, h.flags, h.mask⟩
  · intro h
    exact ⟨h.cs, h.ss, h.flags, h.mask⟩

theorem unprivileged_sigreturnTask (h : Unprivileged t.sig t.frame)
    (hhonest : t.sig.signalSigframe ≠ 0#32 →
      HonestFrame (readSigframe t.mem t.sig.signalSigframe)) :
    Unprivileged (sigreturnTask t).sig (sigreturnTask t).frame := by
  by_cases hframe : t.sig.signalSigframe = 0#32
  · unfold sigreturnTask sysRtSigreturn
    rw [if_pos hframe]
    exact h
  · exact (unprivileged_sysRtSigreturn_iff t.sig t.mem t.frame hframe).mpr
      (hhonest hframe)

theorem AllSafe.update {s : Tasks} (h : AllSafe s) {pid : Nat} {o : Option UserTask}
    (ho : ∀ t, o = some t → Unprivileged t.sig t.frame) :
    AllSafe (Function.update s pid o) := by
  intro pid' t ht
  by_cases heq : pid' = pid
  · subst heq
    rw [Function.update_self] at ht
    exact ho t ht
  · rw [Function.update_of_ne heq] at ht
    exact h pid' t ht

theorem AllSafe.update_map
    {s : Tasks} (h : AllSafe s) (pid : Nat) {pid' : Nat} {g : UserTask → UserTask}
    (hg : ∀ t, s pid = some t → Unprivileged t.sig t.frame → Unprivileged (g t).sig (g t).frame) :
    AllSafe (Function.update s pid' ((s pid).map g)) := by
  apply h.update
  intro t ht
  obtain ⟨t0, ht0, rfl⟩ := Option.map_eq_some_iff.mp ht
  exact hg t0 ht0 (h pid t0 ht0)

theorem AllSafe.step {s : Tasks} (h : AllSafe s) (e : Event)
    (hreturn : ∀ pid, e = .sigreturn pid → HonestReturn s pid) :
    AllSafe (step s e) := by
  cases e with
  | user pid mem eip eflags userEsp =>
    refine h.update_map pid ?_
    intro t _ ht
    exact ⟨ht.cs, ht.ss, userFlags_merge ht.flags eflags, ht.mask⟩
  | send pid sig =>
    refine h.update_map pid ?_
    intro t _ ht
    refine ⟨ht.cs, ht.ss, ht.flags, ?_⟩
    rw [mask_signalSend]
    exact ht.mask
  | sigaction pid signum act =>
    refine h.update_map pid ?_
    intro t _ ht
    refine ⟨ht.cs, ht.ss, ht.flags, ?_⟩
    rw [mask_sysRtSigaction]
    exact ht.mask
  | sigprocmask pid how set =>
    refine h.update_map pid ?_
    intro t _ ht
    exact ⟨ht.cs, ht.ss, ht.flags, mask_sysRtSigprocmask ht.mask how set⟩
  | deliver pid =>
    apply h.update
    intro t ht
    obtain ⟨t0, ht0, hd⟩ := Option.bind_eq_some_iff.mp ht
    exact unprivileged_deliverTask (h pid t0 ht0) hd
  | sigreturn pid =>
    refine h.update_map pid ?_
    intro t ht hsafe
    exact unprivileged_sigreturnTask hsafe (hreturn pid rfl t ht)
  | fork pid child =>
    by_cases hfree : s child = none
    · simp only [Signal.step, if_pos hfree]
      refine h.update_map pid ?_
      intro t _ ht
      exact ⟨ht.cs, rfl, ht.flags, BitVec.zero_and⟩
    · simp only [Signal.step, if_neg hfree]
      exact h
  | exec pid mem entry userEsp =>
    refine h.update_map pid ?_
    intro t _ ht
    exact ⟨ht.cs, ht.ss, ht.flags, BitVec.zero_and⟩

theorem run_concat (s : Tasks) (p : List Event) (e : Event) :
    run s (p ++ [e]) = step (run s p) e := by
  simp [run]

theorem AllSafe.run {s : Tasks} (h : AllSafe s) (es : List Event)
    (hreturn : ∀ p pid, p ++ [.sigreturn pid] <+: es → HonestReturn (run s p) pid) :
    AllSafe (run s es) := by
  induction es using List.reverseRecOn with
  | nil => exact h
  | append_singleton p e ih =>
    rw [run_concat]
    refine AllSafe.step (ih ?_) e ?_
    · intro q pid hq
      exact hreturn q pid (hq.trans (List.prefix_append p [e]))
    · rintro pid rfl
      exact hreturn p pid (List.prefix_refl _)

/-- A return that leaves the task unprivileged used an honest frame. For every run from safe
tasks: all states on the way are safe exactly when every `sys_rt_sigreturn` on the way used an
honest frame. -/
theorem sigreturn_safe_iff_honest
    (t : SigTask) (m : UserMem) (f : IretFrame) (s : Tasks) (es : List Event) :
    ((sysRtSigreturn t m f).1 = 0 →
      (Unprivileged (sysRtSigreturn t m f).2.1
          (sysRtSigreturn t m f).2.2 ↔
        HonestFrame (readSigframe m t.signalSigframe))) ∧
    (AllSafe s →
      ((∀ p, p <+: es → AllSafe (run s p)) ↔
        ∀ p pid, p ++ [Event.sigreturn pid] <+: es →
          HonestReturn (run s p) pid)) := by
  refine ⟨?_, ?_⟩
  · intro hzero
    apply unprivileged_sysRtSigreturn_iff
    intro hframe
    rw [sysRtSigreturn, if_pos hframe] at hzero
    cases hzero
  · intro h
    constructor
    · intro hall p pid hp t' ht hframe
      have hsafe := hall _ hp
      rw [run_concat] at hsafe
      have hnext : step (run s p) (.sigreturn pid) pid =
          some (sigreturnTask t') := by
        simp only [step, Function.update_self, ht, Option.map_some]
      exact (unprivileged_sysRtSigreturn_iff t'.sig t'.mem t'.frame hframe).mp
        (hsafe pid _ hnext)
    · intro hreturn p hp
      apply h.run p
      intro q pid hq
      exact hreturn q pid (hq.trans hp)

end Steps

/-- A task without handlers in a signal frame at `0x1000`. -/
def handlerTask : SigTask where
  isUser := true
  pendingSignals := 0#32
  signalMask := 0#32
  signalSigframe := 0x1000#32
  signalHandlers := fun _ => sigDfl
  signalHandlersMask := fun _ => 0#32
  signalHandlersFlags := fun _ => 0#32

/-- A return frame of user code. -/
def userFrame : IretFrame where
  eip := 0x8048000#32
  cs := gdtUserCode
  eflags := 0x202#32
  userEsp := 0xBFFFF000#32
  ss := gdtUserData

/-- A frame as `signal_check_and_deliver` writes it. -/
def honestMem : UserMem :=
  store (fun _ => 0#8) 0x1000#32 32
    (savedContext handlerTask userFrame).bytes

/-- One task, which is in its handler. -/
def inHandler : Tasks :=
  fun pid => if pid = 0 then some ⟨handlerTask, honestMem, userFrame⟩ else none

/-- The task with the honest frame returns and stays unprivileged, also when it was sent another
signal before. -/
theorem sigreturn_safe_iff_honest_example :
    (sysRtSigreturn handlerTask honestMem userFrame).1 = 0 ∧
      Unprivileged (sysRtSigreturn handlerTask honestMem userFrame).2.1
        (sysRtSigreturn handlerTask honestMem userFrame).2.2 ∧
      AllSafe inHandler ∧
      ∀ p, p <+: [Event.send 0 15, .sigreturn 0] → AllSafe (run inHandler p) := by
  have hhonest : HonestFrame (readSigframe honestMem 0x1000#32) :=
    ⟨rfl, rfl, ⟨by decide, by decide, by decide⟩, by decide⟩
  have hsafe : AllSafe inHandler := by
    intro pid t ht
    by_cases hpid : pid = 0
    · rw [inHandler, if_pos hpid] at ht
      cases ht
      exact ⟨rfl, rfl, ⟨by decide, by decide, by decide⟩, by decide⟩
    · rw [inHandler, if_neg hpid] at ht
      cases ht
  have hboth := sigreturn_safe_iff_honest handlerTask honestMem userFrame inHandler
    [.send 0 15, .sigreturn 0]
  refine ⟨rfl, (hboth.1 rfl).mpr hhonest, hsafe, (hboth.2 hsafe).mpr ?_⟩
  rintro p pid ⟨q, hq⟩ t ht -
  obtain rfl : p = [.send 0 15] := by
    rcases p with _ | ⟨e, _ | ⟨e', p⟩⟩
    · cases hq
    · cases hq
      rfl
    · simp at hq
  cases hq
  cases ht
  exact hhonest

/-- A frame forged for ring 0, with all signals blocked. -/
def forgedMem : UserMem :=
  store (fun _ => 0#8) 0x1000#32 32
    (Sigframe.bytes
      { savedEip := 0x8048000#32
        savedCs := 0x08#32
        savedEflags := 0x3000#32
        savedEsp := 0xBFFFF000#32
        savedSs := 0x10#32
        savedMask := 0xFFFFFFFF#32 })

/-- `sys_rt_sigreturn` accepts the forged frame. -/
theorem forged_sigreturn_reaches_ring0 :
    (sysRtSigreturn handlerTask forgedMem userFrame).1 = 0 ∧
      (sysRtSigreturn handlerTask forgedMem userFrame).2.2.cs = 0x08#32 ∧
      (sysRtSigreturn handlerTask forgedMem userFrame).2.2.ss = 0x10#32 ∧
      (sysRtSigreturn handlerTask forgedMem userFrame).2.2.eflags =
        0x3000#32 ∧
      (sysRtSigreturn handlerTask forgedMem userFrame).2.1.signalMask =
        0xFFFFFFFF#32 := by
  have hframe := readSigframe_store (fun _ => 0#8) 0x1000#32
    { savedEip := 0x8048000#32
      savedCs := 0x08#32
      savedEflags := 0x3000#32
      savedEsp := 0xBFFFF000#32
      savedSs := 0x10#32
      savedMask := 0xFFFFFFFF#32 }
  refine ⟨rfl, ?_, ?_, ?_, ?_⟩
  · exact congrArg Sigframe.savedCs hframe
  · exact congrArg Sigframe.savedSs hframe
  · exact congrArg Sigframe.savedEflags hframe
  · exact congrArg Sigframe.savedMask hframe

end Signal
end Homunculos
