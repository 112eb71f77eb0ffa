import Homunculos.Lib.Bytes

/-!
# Signals

`sys_rt_sigaction`, `sys_rt_sigprocmask`, `sys_rt_sigreturn`, `signal_send`
and `signal_check_and_deliver` of `kernel/signal.c`.

The user half of a task's memory is a function from 32-bit addresses to bytes.
A signal frame is written to it and read back byte by byte, since user code
can change it in between.  Accesses of the kernel to the user half do not
fault here.
-/

namespace Homunculos
namespace Signal

def sigKill : Nat := 9

def sigChld : Nat := 17

def sigCont : Nat := 18

def sigStop : Nat := 19

def nsig : Nat := 32

def sigDfl : BitVec 32 := 0#32

def sigIgn : BitVec 32 := 1#32

def saNodefer : BitVec 32 := 0x40000000#32

def gdtUserCode : BitVec 32 := 0x1B#32

def gdtUserData : BitVec 32 := 0x23#32

/-- `1 << (sig - 1)`. -/
def sigBit (sig : Nat) : BitVec 32 :=
  1#32 <<< (sig - 1)

/-- `(1 << (SIGKILL - 1)) | (1 << (SIGSTOP - 1))`. -/
def unblockable : BitVec 32 :=
  sigBit sigKill ||| sigBit sigStop

/-- The signal state of `struct task`. -/
structure SigTask where
  isUser : Bool
  pendingSignals : BitVec 32
  signalMask : BitVec 32
  signalSigframe : BitVec 32
  signalHandlers : Nat → BitVec 32
  signalHandlersMask : Nat → BitVec 32
  signalHandlersFlags : Nat → BitVec 32

structure IretFrame where
  eip : BitVec 32
  cs : BitVec 32
  eflags : BitVec 32
  userEsp : BitVec 32
  ss : BitVec 32
deriving DecidableEq

/-- The words of `struct sigframe` before its trampoline. -/
structure Sigframe where
  savedEip : BitVec 32
  savedCs : BitVec 32
  savedEflags : BitVec 32
  savedEsp : BitVec 32
  savedSs : BitVec 32
  savedMask : BitVec 32
deriving DecidableEq

/-- The memory of a user task. -/
abbrev UserMem := BitVec 32 → BitVec 8

/-- The bytes from `a` on. -/
def load (m : UserMem) (a : BitVec 32) (i : Nat) : BitVec 8 :=
  m (a + BitVec.ofNat 32 i)

/-- Copy `n` bytes to the addresses from `a` on. -/
def store (m : UserMem) (a : BitVec 32) (n : Nat) (b : Nat → BitVec 8) : UserMem :=
  fun x => if (x - a).toNat < n then b (x - a).toNat else m x

/-- The 32 bytes of `struct sigframe`; the last two words are the trampoline. -/
def Sigframe.bytes (sf : Sigframe) : Nat → BitVec 8 :=
  Bytes.wordsBytes
    [sf.savedEip, sf.savedCs, sf.savedEflags, sf.savedEsp, sf.savedSs,
      sf.savedMask, 0x0000ADB8#32, 0x0080CD00#32]

/-- The signal frame at address `a`. -/
def readSigframe (m : UserMem) (a : BitVec 32) : Sigframe where
  savedEip := Bytes.word (fun j => load m a (4 * 0 + j))
  savedCs := Bytes.word (fun j => load m a (4 * 1 + j))
  savedEflags := Bytes.word (fun j => load m a (4 * 2 + j))
  savedEsp := Bytes.word (fun j => load m a (4 * 3 + j))
  savedSs := Bytes.word (fun j => load m a (4 * 4 + j))
  savedMask := Bytes.word (fun j => load m a (4 * 5 + j))

def signalInitTask (t : SigTask) : SigTask :=
  { t with
    pendingSignals := 0#32
    signalMask := 0#32
    signalSigframe := 0#32
    signalHandlers := fun _ => sigDfl
    signalHandlersMask := fun _ => 0#32
    signalHandlersFlags := fun _ => 0#32 }

/-- `signal_send` to the task `t`. -/
def signalSend (t : SigTask) (sig : Nat) : SigTask :=
  if sig < 1 ∨ nsig ≤ sig then
    t
  else
    { t with pendingSignals := t.pendingSignals ||| sigBit sig }

structure Sigaction where
  saHandler : BitVec 32
  saMask : BitVec 32
  saFlags : BitVec 32

/-- `sys_rt_sigaction`; the old action is only copied out. -/
def sysRtSigaction (t : SigTask) (signum : Nat) (act : Option Sigaction) : Int × SigTask :=
  if signum < 1 ∨ nsig ≤ signum then
    (-1, t)
  else if signum = sigKill ∨ signum = sigStop then
    (-1, t)
  else
    match act with
    | none => (0, t)
    | some a =>
      (0, { t with
        signalHandlers :=
          Function.update t.signalHandlers signum a.saHandler
        signalHandlersMask :=
          Function.update t.signalHandlersMask signum a.saMask
        signalHandlersFlags :=
          Function.update t.signalHandlersFlags signum a.saFlags })

/-- `sys_rt_sigprocmask`; the old mask is only copied out. -/
def sysRtSigprocmask (t : SigTask) (how : Nat) (set : Option (BitVec 32)) : Int × SigTask :=
  match set with
  | none => (0, t)
  | some newMask =>
    match how with
    | 0 =>
      (0, { t with
        signalMask := (t.signalMask ||| newMask) &&& ~~~unblockable })
    | 1 =>
      (0, { t with
        signalMask := (t.signalMask &&& ~~~newMask) &&& ~~~unblockable })
    | 2 => (0, { t with signalMask := newMask &&& ~~~unblockable })
    | _ => (-1, t)

/-- `sys_rt_sigreturn` with the return frame of the call. -/
def sysRtSigreturn (t : SigTask) (m : UserMem) (f : IretFrame) : Int × SigTask × IretFrame :=
  if t.signalSigframe = 0#32 then
    (-1, t, f)
  else
    let frame := readSigframe m t.signalSigframe
    (0, { t with signalSigframe := 0#32, signalMask := frame.savedMask },
      { eip := frame.savedEip
        cs := frame.savedCs
        eflags := frame.savedEflags
        userEsp := frame.savedEsp
        ss := frame.savedSs })

def signalDefaultTerminates (sig : Nat) : Bool :=
  !(sig == sigChld || sig == sigCont)

/-- The context that a signal frame saves. -/
def savedContext (t : SigTask) (f : IretFrame) : Sigframe where
  savedEip := f.eip
  savedCs := f.cs
  savedEflags := f.eflags
  savedEsp := f.userEsp
  savedSs := f.ss
  savedMask := t.signalMask

/-- What became of a task with pending signals. -/
inductive Delivered where
  | returned
  | handler (sig : Nat)
  | exited (sig : Nat)
deriving DecidableEq

/-- `frame_esp`: the address of the signal frame below the user stack. -/
def frameEsp (f : IretFrame) : BitVec 32 :=
  f.userEsp - 32#32

/-- `new_esp`: the stack pointer that the handler starts with. -/
def newEsp (f : IretFrame) : BitVec 32 :=
  frameEsp f - 8#32

/-- The user memory with the handler's call frame and the signal frame. -/
def frameMem (t : SigTask) (m : UserMem) (f : IretFrame) (sig : Nat) : UserMem :=
  store
    (store m (newEsp f) 8 (Bytes.wordsBytes [frameEsp f + 24#32, BitVec.ofNat 32 sig]))
    (frameEsp f) 32 (savedContext t f).bytes

/-- The mask while the handler of `sig` runs. -/
def handlerMask (t : SigTask) (sig : Nat) : BitVec 32 :=
  let own :=
    if t.signalHandlersFlags sig &&& saNodefer = 0#32 then
      t.signalMask ||| sigBit sig
    else
      t.signalMask
  (own ||| t.signalHandlersMask sig) &&& ~~~unblockable

/-- Task, user memory, return frame and what became of the task. -/
abbrev Delivery := SigTask × UserMem × IretFrame × Delivered

/-- The last part of the loop: start the handler of `sig`. -/
def startHandler (t : SigTask) (m : UserMem) (f : IretFrame) (sig : Nat) : Delivery :=
  ({ t with
      signalSigframe := frameEsp f
      signalMask := handlerMask t sig },
    frameMem t m f sig,
    { f with eip := t.signalHandlers sig, userEsp := newEsp f },
    .handler sig)

/-- The loop of `signal_check_and_deliver` over the pending signals in increasing order. The
search restarts at 1 in every round, but the bits below are clear by then. -/
def deliverFrom (pending : BitVec 32) (t : SigTask) (m : UserMem)
    (f : IretFrame) : List Nat → Delivery
  | [] => (t, m, f, .returned)
  | sig :: sigs =>
    if pending.getLsbD (sig - 1) then
      let t' := { t with
        pendingSignals := t.pendingSignals &&& ~~~sigBit sig }
      if sig = sigKill ∨ sig = sigStop then
        (t', m, f, .exited sig)
      else if t'.signalHandlers sig = sigIgn then
        deliverFrom pending t' m f sigs
      else if t'.signalHandlers sig = sigDfl then
        if signalDefaultTerminates sig then
          (t', m, f, .exited sig)
        else
          deliverFrom pending t' m f sigs
      else
        startHandler t' m f sig
    else
      deliverFrom pending t m f sigs

/-- `signal_check_and_deliver` on the return frame `f` of the current task. -/
def signalCheckAndDeliver (t : SigTask) (m : UserMem) (f : IretFrame) : Delivery :=
  if t.isUser = false then
    (t, m, f, .returned)
  else if f.cs ≠ gdtUserCode then
    (t, m, f, .returned)
  else
    deliverFrom (t.pendingSignals &&& ~~~t.signalMask) t m f
      (List.range' 1 31)

section Memory

variable (m : UserMem)

theorem load_store
    (a : BitVec 32) {n i : Nat} (b : Nat → BitVec 8) (hi : i < n) (hlt : i < 2 ^ 32) :
    load (store m a n b) a i = b i := by
  have hoff : (a + BitVec.ofNat 32 i - a).toNat = i := by
    rw [BitVec.add_comm, BitVec.add_sub_cancel, BitVec.toNat_ofNat, Nat.mod_eq_of_lt hlt]
  unfold load store
  rw [hoff, if_pos hi]

theorem readSigframe_congr
    {m m' : UserMem} {a : BitVec 32} (h : ∀ i, i < 32 → load m' a i = load m a i) :
    readSigframe m' a = readSigframe m a := by
  have hword : ∀ k, k < 8 →
      Bytes.word (fun j => load m' a (4 * k + j)) =
        Bytes.word (fun j => load m a (4 * k + j)) := by
    intro k hk
    apply Bytes.word_congr
    intro j hj
    exact h _ (by omega)
  unfold readSigframe
  rw [hword 0 (by decide), hword 1 (by decide), hword 2 (by decide),
    hword 3 (by decide), hword 4 (by decide), hword 5 (by decide)]

theorem readSigframe_store (a : BitVec 32) (sf : Sigframe) :
    readSigframe (store m a 32 sf.bytes) a = sf := by
  have hword : ∀ k, k < 8 →
      Bytes.word (fun j => load (store m a 32 sf.bytes) a (4 * k + j)) =
        [sf.savedEip, sf.savedCs, sf.savedEflags, sf.savedEsp, sf.savedSs,
          sf.savedMask, 0x0000ADB8#32, 0x0080CD00#32].getD k 0#32 := by
    intro k hk
    rw [← Bytes.word_wordsBytes]
    apply Bytes.word_congr
    intro j hj
    exact load_store m a _ (by omega) (by omega)
  unfold readSigframe
  rw [hword 0 (by decide), hword 1 (by decide), hword 2 (by decide),
    hword 3 (by decide), hword 4 (by decide), hword 5 (by decide)]
  rfl

end Memory

section Dispositions

variable (t : SigTask) (sig : Nat)

/-- The signal ends the task. -/
def Fatal : Prop :=
  sig = sigKill ∨ sig = sigStop ∨
    t.signalHandlers sig = sigDfl ∧ signalDefaultTerminates sig = true

/-- The signal is ignored, as the task has set it or by default. -/
def Ignored : Prop :=
  ¬ (sig = sigKill ∨ sig = sigStop) ∧ (t.signalHandlers sig = sigIgn ∨
    t.signalHandlers sig = sigDfl ∧ signalDefaultTerminates sig = false)

end Dispositions

section Deliver

variable {t : SigTask} {m : UserMem} {f : IretFrame} {pending : BitVec 32} {sig : Nat}

/-- The bits of `pending` for these signals are cleared. -/
def dropAll (pending : BitVec 32) : BitVec 32 → List Nat → BitVec 32 :=
  List.foldl (fun p sig => if pending.getLsbD (sig - 1) then p &&& ~~~sigBit sig else p)

theorem dropAll_cons (p : BitVec 32) (sigs : List Nat) :
    dropAll pending p (sig :: sigs) = dropAll pending
      (if pending.getLsbD (sig - 1) then p &&& ~~~sigBit sig else p) sigs :=
  rfl

/-- The loop drops a front part of the signals and stops at a signal that is not ignored. -/
theorem deliverFrom_spec (pending : BitVec 32) (sigs : List Nat) (t : SigTask) :
    ∃ pre post, sigs = pre ++ post ∧
      (∀ s ∈ pre, pending.getLsbD (s - 1) = true → Ignored t s) ∧
      ((post = [] ∧ deliverFrom pending t m f sigs =
          ({ t with pendingSignals := dropAll pending t.pendingSignals pre }, m, f, .returned)) ∨
        ∃ sig rest t', post = sig :: rest ∧ pending.getLsbD (sig - 1) = true ∧ ¬ Ignored t sig ∧
          t' = { t with pendingSignals := dropAll pending t.pendingSignals (pre ++ [sig]) } ∧
          (Fatal t sig → deliverFrom pending t m f sigs = (t', m, f, .exited sig)) ∧
          (¬ Fatal t sig → deliverFrom pending t m f sigs = startHandler t' m f sig)) := by
  induction sigs generalizing t with
  | nil => exact ⟨[], [], rfl, by simp, Or.inl ⟨rfl, rfl⟩⟩
  | cons sig sigs ih =>
    by_cases hbit : pending.getLsbD (sig - 1) = true
    · by_cases hign : Ignored t sig
      · obtain ⟨pre, post, rfl, hpre, hcases⟩ :=
          ih { t with pendingSignals := t.pendingSignals &&& ~~~sigBit sig }
        have hloop : deliverFrom pending t m f (sig :: (pre ++ post)) = deliverFrom pending
            { t with pendingSignals := t.pendingSignals &&& ~~~sigBit sig } m f (pre ++ post) := by
          obtain ⟨hkill, hset | ⟨hdfl, hkeeps⟩⟩ := hign
          · simp [deliverFrom, hbit, hkill, hset]
          · simp [deliverFrom, hbit, hkill, hdfl, hkeeps]
        refine ⟨sig :: pre, post, rfl, ?_, ?_⟩
        · rintro s (_ | ⟨_, hs⟩) hs'
          · exact hign
          · exact hpre s hs hs'
        · simp only [hloop, List.cons_append, dropAll_cons, if_pos hbit]
          exact hcases
      · refine ⟨[], sig :: sigs, rfl, by simp, Or.inr ⟨sig, sigs, _, rfl, hbit, hign, rfl, ?_, ?_⟩⟩
        · rintro (rfl | rfl | ⟨hdfl, hends⟩)
          · simp [deliverFrom, hbit, dropAll]
          · simp [deliverFrom, hbit, dropAll]
          · simp [deliverFrom, hbit, dropAll, hdfl, hends, sigDfl, sigIgn]
        · intro hlives
          unfold Fatal at hlives
          unfold Ignored at hign
          have hign' : t.signalHandlers sig ≠ sigIgn := by tauto
          have hdfl : t.signalHandlers sig ≠ sigDfl := by
            cases hends : signalDefaultTerminates sig <;> tauto
          have hkill : ¬ (sig = sigKill ∨ sig = sigStop) := by tauto
          simp [deliverFrom, hbit, dropAll, hkill, hign', hdfl]
    · obtain ⟨pre, post, rfl, hpre, hcases⟩ := ih t
      refine ⟨sig :: pre, post, rfl, ?_, ?_⟩
      · rintro s (_ | ⟨_, hs⟩) hs'
        · exact absurd hs' hbit
        · exact hpre s hs hs'
      · simpa only [deliverFrom, List.cons_append, dropAll_cons, if_neg hbit] using hcases

/--
Everything `signal_check_and_deliver` can do: leave memory, frame, mask and frame address alone,
or start one handler in the state before the call.
-/
theorem signalCheckAndDeliver_cases (t : SigTask) (m : UserMem) (f : IretFrame) :
    ((∀ sig, (signalCheckAndDeliver t m f).2.2.2 ≠ .handler sig) ∧
        (signalCheckAndDeliver t m f).2.1 = m ∧
        (signalCheckAndDeliver t m f).2.2.1 = f ∧
        (signalCheckAndDeliver t m f).1.signalMask = t.signalMask ∧
        (signalCheckAndDeliver t m f).1.signalSigframe = t.signalSigframe) ∨
      ∃ sig p, signalCheckAndDeliver t m f =
        startHandler { t with pendingSignals := p } m f sig := by
  unfold signalCheckAndDeliver
  by_cases huser : t.isUser = false
  · rw [if_pos huser]
    left
    exact ⟨fun _ h => Delivered.noConfusion h, rfl, rfl, rfl, rfl⟩
  · rw [if_neg huser]
    by_cases hcs : f.cs ≠ gdtUserCode
    · rw [if_pos hcs]
      left
      exact ⟨fun _ h => Delivered.noConfusion h, rfl, rfl, rfl, rfl⟩
    · rw [if_neg hcs]
      obtain ⟨pre, post, -, -, hcases⟩ := deliverFrom_spec (m := m) (f := f)
        (t.pendingSignals &&& ~~~t.signalMask) _ t
      rcases hcases with ⟨-, hout⟩ | ⟨sig, rest, t', -, -, -, rfl, hends, hruns⟩
      · rw [hout]
        simp
      · by_cases hfatal : Fatal t sig
        · rw [hends hfatal]
          simp
        · exact Or.inr ⟨sig, _, hruns hfatal⟩

end Deliver

end Signal
end Homunculos
