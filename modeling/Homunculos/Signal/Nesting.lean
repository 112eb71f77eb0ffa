import Homunculos.Signal.Model
import Homunculos.Lib.Run

/-!
# Nested handlers

One task, its signals and the handlers that are active.  The list of active
handlers is a record beside the kernel's state: `signal_check_and_deliver`
pushes the context that it saves, `sys_rt_sigreturn` pops.  The kernel keeps
one frame address for each task, so it works like this stack only as long as
no handler is interrupted by another one.
-/

namespace Homunculos
namespace Signal

/-- A handler that has not returned yet. -/
structure Active where
  addr : BitVec 32
  saved : Sigframe
  interrupted : Bool
deriving DecidableEq

/-- A task with its active handlers, the innermost first. -/
structure NestSys where
  sig : SigTask
  mem : UserMem
  frame : IretFrame
  active : List Active

/-- The innermost handler is interrupted. -/
def interruptTop : List Active → List Active
  | [] => []
  | a :: rest => { a with interrupted := true } :: rest

/-- The active handlers after `signal_check_and_deliver`. -/
def NestSys.activeAfter (s : NestSys) : Delivered → List Active
  | .handler _ =>
    { addr := frameEsp s.frame
      saved := savedContext s.sig s.frame
      interrupted := false } :: interruptTop s.active
  | _ => s.active

/-- `signal_check_and_deliver`. -/
def NestSys.deliver (s : NestSys) : NestSys :=
  let d := signalCheckAndDeliver s.sig s.mem s.frame
  { sig := d.1
    mem := d.2.1
    frame := d.2.2.1
    active := s.activeAfter d.2.2.2 }

/-- `sys_rt_sigreturn` at the end of the innermost handler. -/
def NestSys.sigreturn (s : NestSys) : NestSys :=
  let r := sysRtSigreturn s.sig s.mem s.frame
  { s with sig := r.2.1, frame := r.2.2, active := s.active.tail }

/-- User code that leaves the frames of active handlers alone, and the kernel. -/
inductive NestStep : NestSys → NestSys → Prop
  | user
      (s : NestSys) (mem : UserMem) (frame : IretFrame)
      (hkeep : ∀ a ∈ s.active, ∀ i, i < 32 → load mem a.addr i = load s.mem a.addr i) :
      NestStep s { s with mem := mem, frame := frame }
  | send
      (s : NestSys) (sig : Nat) :
      NestStep s { s with sig := signalSend s.sig sig }
  | sigaction
      (s : NestSys) (signum : Nat) (act : Option Sigaction) :
      NestStep s { s with sig := (sysRtSigaction s.sig signum act).2 }
  | sigprocmask
      (s : NestSys) (how : Nat) (set : Option (BitVec 32)) :
      NestStep s { s with sig := (sysRtSigprocmask s.sig how set).2 }
  | deliver
      (s : NestSys)
      (halive : ∀ sig, (signalCheckAndDeliver s.sig s.mem s.frame).2.2.2 ≠ .exited sig) :
      NestStep s s.deliver
  | sigreturn
      (s : NestSys)
      (hactive : s.active ≠ []) :
      NestStep s s.sigreturn

/-- The frame address belongs to the innermost handler or is 0. -/
def NestSys.Inv (s : NestSys) : Prop :=
  match s.active with
  | [] => s.sig.signalSigframe = 0#32
  | a :: rest =>
    (∀ b ∈ rest, b.interrupted = true) ∧
      (a.interrupted = true → s.sig.signalSigframe = 0#32) ∧
      (a.interrupted = false → s.sig.signalSigframe = a.addr ∧ readSigframe s.mem a.addr = a.saved)

/-- The return frame that a saved context stands for. -/
def Sigframe.iretFrame (sf : Sigframe) : IretFrame where
  eip := sf.savedEip
  cs := sf.savedCs
  eflags := sf.savedEflags
  userEsp := sf.savedEsp
  ss := sf.savedSs

/-- `sys_rt_sigreturn` succeeds and restores the context of handler `a`. -/
structure NestSys.Restores (s : NestSys) (a : Active) : Prop where
  success : (sysRtSigreturn s.sig s.mem s.frame).1 = 0
  frame : (sysRtSigreturn s.sig s.mem s.frame).2.2 = a.saved.iretFrame
  mask : (sysRtSigreturn s.sig s.mem s.frame).2.1.signalMask =
    a.saved.savedMask

section Invariant

variable {s s' : NestSys}

theorem sigframe_signalSend (t : SigTask) (sig : Nat) :
    (signalSend t sig).signalSigframe = t.signalSigframe := by
  unfold signalSend
  split
  · rfl
  · rfl

theorem sigframe_sysRtSigaction (t : SigTask) (signum : Nat) (act : Option Sigaction) :
    (sysRtSigaction t signum act).2.signalSigframe = t.signalSigframe := by
  unfold sysRtSigaction
  split
  · rfl
  · split
    · rfl
    · split
      · rfl
      · rfl

theorem sigframe_sysRtSigprocmask (t : SigTask) (how : Nat) (set : Option (BitVec 32)) :
    (sysRtSigprocmask t how set).2.signalSigframe = t.signalSigframe := by
  unfold sysRtSigprocmask
  split
  · rfl
  · split
    · rfl
    · rfl
    · rfl
    · rfl

theorem sigframe_sysRtSigreturn (t : SigTask) (m : UserMem) (f : IretFrame) :
    (sysRtSigreturn t m f).2.1.signalSigframe = 0#32 := by
  unfold sysRtSigreturn
  by_cases h : t.signalSigframe = 0#32
  · rw [if_pos h]
    exact h
  · rw [if_neg h]

theorem NestSys.Inv.congr (h : s.Inv) (hactive : s'.active = s.active)
    (hframe : s'.sig.signalSigframe = s.sig.signalSigframe)
    (hmem : ∀ a ∈ s.active, readSigframe s'.mem a.addr = readSigframe s.mem a.addr) :
    s'.Inv := by
  unfold NestSys.Inv at h ⊢
  rw [hactive, hframe]
  cases hs : s.active with
  | nil =>
    rw [hs] at h
    exact h
  | cons a rest =>
    rw [hs] at h hmem
    obtain ⟨hrest, hint, hown⟩ := h
    refine ⟨hrest, hint, ?_⟩
    intro ha
    rw [hmem a (by simp)]
    exact hown ha

theorem interrupted_interruptTop (h : s.Inv) :
    ∀ b ∈ interruptTop s.active, b.interrupted = true := by
  unfold NestSys.Inv at h
  cases hs : s.active with
  | nil => simp [interruptTop]
  | cons a rest =>
    rw [hs] at h
    intro b hb
    rcases List.mem_cons.mp hb with rfl | hb
    · rfl
    · exact h.1 b hb

theorem NestSys.Inv.deliver (h : s.Inv) :
    s.deliver.Inv := by
  rcases signalCheckAndDeliver_cases s.sig s.mem s.frame with
    ⟨hnone, hmem, _, _, hframe⟩ | ⟨sig, p, hout⟩
  · have hactive : s.deliver.active = s.active := by
      unfold NestSys.deliver
      dsimp only
      cases hd : (signalCheckAndDeliver s.sig s.mem s.frame).2.2.2 with
      | returned => rfl
      | handler sig => exact absurd hd (hnone sig)
      | exited sig => rfl
    refine h.congr hactive hframe ?_
    intro a _
    unfold NestSys.deliver
    dsimp only
    rw [hmem]
  · have hs : s.deliver =
        { sig := (startHandler { s.sig with pendingSignals := p }
            s.mem s.frame sig).1
          mem := frameMem s.sig s.mem s.frame sig
          frame := { s.frame with
            eip := s.sig.signalHandlers sig
            userEsp := newEsp s.frame }
          active :=
            { addr := frameEsp s.frame
              saved := savedContext s.sig s.frame
              interrupted := false } :: interruptTop s.active } := by
      unfold NestSys.deliver
      rw [hout]
      rfl
    rw [hs]
    refine ⟨interrupted_interruptTop h, ?_, ?_⟩
    · intro hfalse
      cases hfalse
    · intro _
      exact ⟨rfl, readSigframe_store _ _ _⟩

theorem NestSys.Inv.sigreturn (h : s.Inv) :
    s.sigreturn.Inv := by
  have hzero := sigframe_sysRtSigreturn s.sig s.mem s.frame
  unfold NestSys.Inv at h ⊢
  unfold NestSys.sigreturn
  cases hs : s.active with
  | nil => exact hzero
  | cons a rest =>
    rw [hs] at h
    cases hr : rest with
    | nil => exact hzero
    | cons b rest' =>
      rw [hr] at h
      refine ⟨fun c hc => h.1 c (by simp [hc]), fun _ => hzero, ?_⟩
      intro hb
      rw [h.1 b (by simp)] at hb
      cases hb

theorem NestStep.inv (hstep : NestStep s s') (h : s.Inv) :
    s'.Inv := by
  cases hstep with
  | user mem frame hkeep => exact h.congr rfl rfl (fun a ha => readSigframe_congr (hkeep a ha))
  | send sig => exact h.congr rfl (sigframe_signalSend _ _) (fun _ _ => rfl)
  | sigaction signum act => exact h.congr rfl (sigframe_sysRtSigaction _ _ _) (fun _ _ => rfl)
  | sigprocmask how set => exact h.congr rfl (sigframe_sysRtSigprocmask _ _ _) (fun _ _ => rfl)
  | deliver halive => exact h.deliver
  | sigreturn hactive => exact h.sigreturn

theorem nestInv_of_run (hrun : Relation.ReflTransGen NestStep s s') (h : s.Inv) :
    s'.Inv :=
  Run.Keeps.run (fun _ _ hstep hs => hstep.inv hs) hrun h

/--
In every run from a task without active handlers, the return of the innermost
handler succeeds and restores the context that its delivery saved exactly when
no other handler was started meanwhile and the frame is not at address 0.
-/
theorem sigreturn_restores_iff
    {s₀ : NestSys} (hnone : s₀.active = []) (hzero : s₀.sig.signalSigframe = 0#32)
    (hrun : Relation.ReflTransGen NestStep s₀ s) {a : Active} {rest : List Active}
    (hactive : s.active = a :: rest) :
    s.Restores a ↔ a.interrupted = false ∧ a.addr ≠ 0#32 := by
  have hstart : s₀.Inv := by
    unfold NestSys.Inv
    rw [hnone]
    exact hzero
  have h := nestInv_of_run hrun hstart
  unfold NestSys.Inv at h
  rw [hactive] at h
  obtain ⟨_, hint, hown⟩ := h
  constructor
  · intro hrest
    have hne : s.sig.signalSigframe ≠ 0#32 := by
      intro hz
      have hret := hrest.success
      rw [sysRtSigreturn, if_pos hz] at hret
      cases hret
    cases ha : a.interrupted with
    | true => exact absurd (hint ha) hne
    | false =>
      refine ⟨rfl, ?_⟩
      rw [← (hown ha).1]
      exact hne
  · rintro ⟨ha, haddr⟩
    obtain ⟨hframe, hsaved⟩ := hown ha
    have hne : s.sig.signalSigframe ≠ 0#32 := by
      rw [hframe]
      exact haddr
    have hout : sysRtSigreturn s.sig s.mem s.frame =
        (0, { s.sig with
              signalSigframe := 0#32
              signalMask := a.saved.savedMask },
          a.saved.iretFrame) := by
      unfold sysRtSigreturn
      rw [if_neg hne, hframe, hsaved]
      rfl
    refine ⟨?_, ?_, ?_⟩
    · rw [hout]
    · rw [hout]
    · rw [hout]

end Invariant

/-- `SIGUSR1` and `SIGUSR2` are pending and have handlers. -/
def twoSignals : NestSys where
  sig :=
    { isUser := true
      pendingSignals := sigBit 10 ||| sigBit 12
      signalMask := 0#32
      signalSigframe := 0#32
      signalHandlers := fun _ => 0x8048100#32
      signalHandlersMask := fun _ => 0#32
      signalHandlersFlags := fun _ => 0#32 }
  mem := fun _ => 0#8
  frame :=
    { eip := 0x8048000#32
      cs := gdtUserCode
      eflags := 0x202#32
      userEsp := 0xBFFFF000#32
      ss := gdtUserData }
  active := []

theorem twoSignals_deliver :
    NestStep twoSignals twoSignals.deliver := by
  refine .deliver twoSignals ?_
  intro sig h
  cases h

/-- The handler of `SIGUSR1` alone can return. -/
theorem sigreturn_restores_iff_single :
    twoSignals.deliver.Restores
      { addr := 0xBFFFEFE0#32
        saved := savedContext twoSignals.sig twoSignals.frame
        interrupted := false } := by
  have hactive : twoSignals.deliver.active =
      [{ addr := 0xBFFFEFE0#32
         saved := savedContext twoSignals.sig twoSignals.frame
         interrupted := false }] := by
    decide +kernel
  exact (sigreturn_restores_iff rfl rfl
    (Relation.ReflTransGen.single twoSignals_deliver) hactive).mpr
    ⟨rfl, by decide⟩

/-- Both handlers were started and the inner one has returned. -/
def outerAlone : NestSys :=
  twoSignals.deliver.deliver.sigreturn

theorem outerAlone_reachable :
    Relation.ReflTransGen NestStep twoSignals outerAlone := by
  refine ((Relation.ReflTransGen.single twoSignals_deliver).tail
    (.deliver _ ?_)).tail (.sigreturn _ ?_)
  · intro sig h
    cases h
  · decide +kernel

/-- The return of the outer handler fails. -/
theorem nested_sigreturn_fails :
    Relation.ReflTransGen NestStep twoSignals outerAlone ∧
      outerAlone.active.length = 1 ∧
      (sysRtSigreturn outerAlone.sig outerAlone.mem outerAlone.frame).1 =
        -1 :=
  ⟨outerAlone_reachable, by decide +kernel, by decide +kernel⟩

end Signal
end Homunculos
