import Homunculos.Signal.Model

/-!
# The signal that is delivered

`signal_check_and_deliver` works off the unmasked pending signals in increasing order.  It
drops those that are ignored and stops at the first other one, which ends the task or gets
its handler.
-/

namespace Homunculos
namespace Signal

section Dispositions

variable (t : SigTask) (sig : Nat)

/-- The signal is pending and not masked. -/
def Due : Prop :=
  1 ≤ sig ∧ sig < nsig ∧ (t.pendingSignals &&& ~~~t.signalMask).getLsbD (sig - 1) = true

/-- The lowest signal that is due and not ignored. -/
def First : Prop :=
  Due t sig ∧ ¬ Ignored t sig ∧ ∀ s, s < sig → Due t s → Ignored t s

end Dispositions

/-- What `signal_check_and_deliver` has to make of a task. -/
structure DeliveredRight (t : SigTask) (m : UserMem) (f : IretFrame) (r : Delivery) : Prop where
  exited_iff : ∀ sig, r.2.2.2 = .exited sig ↔ First t sig ∧ Fatal t sig
  handler_iff : ∀ sig, r.2.2.2 = .handler sig ↔ First t sig ∧ ¬ Fatal t sig
  /-- Only what is due, up to the delivered signal, is no longer pending. -/
  pending : (∀ sig, r.2.2.2 ≠ .exited sig) → ∀ i, i < 32 →
    (r.1.pendingSignals.getLsbD i = true ↔ t.pendingSignals.getLsbD i = true ∧
      ¬ (Due t (i + 1) ∧ ∀ sig, r.2.2.2 = .handler sig → i + 1 ≤ sig))
  frame : ∀ sig, r.2.2.2 = .handler sig →
    r = startHandler { t with pendingSignals := r.1.pendingSignals } m f sig
  mask : ∀ sig, r.2.2.2 = .handler sig → ∀ i, i < 32 →
    (r.1.signalMask.getLsbD i = true ↔
      (t.signalMask.getLsbD i = true ∨ (t.signalHandlersMask sig).getLsbD i = true ∨
        t.signalHandlersFlags sig &&& saNodefer = 0#32 ∧ i + 1 = sig) ∧
      i + 1 ≠ sigKill ∧ i + 1 ≠ sigStop)
  idle : r.2.2.2 = .returned → r.2.1 = m ∧ r.2.2.1 = f ∧ r.1.signalMask = t.signalMask

section Loop

variable {t : SigTask} {m : UserMem} {f : IretFrame} {pending : BitVec 32} {sig : Nat}

theorem getLsbD_sigBit {i : Nat} (hi : i < 32) :
    (sigBit sig).getLsbD i = decide (i = sig - 1) := by
  simp only [sigBit]
  grind

theorem getLsbD_dropAll
    {sigs : List Nat} (hpos : ∀ s ∈ sigs, 1 ≤ s) (p : BitVec 32) {i : Nat} (hi : i < 32) :
    (dropAll pending p sigs).getLsbD i = true ↔
      p.getLsbD i = true ∧ ¬ (pending.getLsbD i = true ∧ i + 1 ∈ sigs) := by
  induction sigs generalizing p with
  | nil => simp [dropAll]
  | cons s sigs ih =>
    have hs := hpos s List.mem_cons_self
    have hrest := ih (fun s hs => hpos s (List.mem_cons_of_mem _ hs))
    rw [dropAll_cons, hrest]
    split
    · simp only [BitVec.getLsbD_and, BitVec.getLsbD_not, getLsbD_sigBit hi]
      grind
    · grind

theorem getLsbD_handlerMask {i : Nat} (hi : i < 32) (hsig : 1 ≤ sig) :
    (handlerMask t sig).getLsbD i = true ↔
      (t.signalMask.getLsbD i = true ∨ (t.signalHandlersMask sig).getLsbD i = true ∨
        t.signalHandlersFlags sig &&& saNodefer = 0#32 ∧ i + 1 = sig) ∧
      i + 1 ≠ sigKill ∧ i + 1 ≠ sigStop := by
  unfold handlerMask unblockable sigKill sigStop
  split <;>
    simp only [BitVec.getLsbD_and, BitVec.getLsbD_or, BitVec.getLsbD_not, getLsbD_sigBit hi] <;>
    grind

theorem First.unique {s : Nat} (h : First t sig) (h' : First t s) :
    s = sig := by
  rcases Nat.lt_trichotomy s sig with hlt | heq | hgt
  · exact absurd (h.2.2 s hlt h'.1) h'.2.1
  · exact heq
  · exact absurd (h'.2.2 sig hgt h.1) h.2.1

/-- What is delivered, and what becomes of the pending signals and of the mask. -/
theorem signal_delivery_exact
    (t : SigTask) (m : UserMem) (f : IretFrame) (huser : t.isUser = true)
    (hcs : f.cs = gdtUserCode) :
    DeliveredRight t m f (signalCheckAndDeliver t m f) := by
  have hloop : signalCheckAndDeliver t m f = deliverFrom (t.pendingSignals &&& ~~~t.signalMask)
      t m f (List.range' 1 31) := by
    simp [signalCheckAndDeliver, huser, hcs]
  obtain ⟨pre, post, hsplit, hpre, hcases⟩ :=
    deliverFrom_spec (m := m) (f := f) (t.pendingSignals &&& ~~~t.signalMask) (List.range' 1 31) t
  obtain ⟨k, hk, rfl, hpost⟩ := List.range'_eq_append_iff.mp hsplit
  have hlow : ∀ s, s ≤ k → Due t s → Ignored t s := fun s hs hdue =>
    hpre s (List.mem_range'_1.mpr ⟨hdue.1, by omega⟩) hdue.2.2
  have hbits : ∀ j, j ≤ 31 → ∀ i, i < 32 →
      ((dropAll (t.pendingSignals &&& ~~~t.signalMask) t.pendingSignals
        (List.range' 1 j)).getLsbD i = true ↔
        t.pendingSignals.getLsbD i = true ∧ ¬ (Due t (i + 1) ∧ i + 1 ≤ j)) := by
    intro j hj i hi
    rw [getLsbD_dropAll (fun s hs => (List.mem_range'_1.mp hs).1) _ hi]
    simp only [Due, nsig]
    grind
  rw [hloop]
  rcases hcases with ⟨rfl, hout⟩ | ⟨sig, rest, t', rfl, hbit, hacts, rfl, hends, hruns⟩
  · -- nothing but ignored signals is due
    obtain rfl : k = 31 := by
      have hlen := congrArg List.length hpost
      simp only [List.length_nil, List.length_range'] at hlen
      omega
    have hnone : ∀ sig, ¬ First t sig := fun sig hfirst =>
      hfirst.2.1 (hlow sig (Nat.le_of_lt_succ hfirst.1.2.1) hfirst.1)
    rw [hout]
    refine ⟨by simp [hnone], by simp [hnone], fun _ i hi => ?_, by simp, by simp, by simp⟩
    rw [hbits 31 le_rfl i hi]
    simp only [Due, nsig]
    grind
  · obtain ⟨hlt, rfl⟩ : k < 31 ∧ sig = k + 1 := by
      have hlen := congrArg List.length hpost
      have hsig := List.eq_of_range'_eq_append_cons hsplit
      simp only [List.length_cons, List.length_range'] at hlen hsig
      omega
    have hfirst : First t (k + 1) :=
      ⟨⟨Nat.le_add_left _ _, Nat.succ_lt_succ hlt, hbit⟩, hacts,
        fun s hs => hlow s (Nat.le_of_lt_succ hs)⟩
    have hiff : ∀ s, First t s ↔ k + 1 = s := fun s =>
      ⟨fun h => h.unique hfirst, fun h => h ▸ hfirst⟩
    have hconcat : List.range' 1 (k + 1) = List.range' 1 k ++ [k + 1] := by
      rw [List.range'_1_concat, Nat.add_comm]
    rw [← hconcat] at hends hruns
    by_cases hfatal : Fatal t (k + 1)
    · rw [hends hfatal]
      refine ⟨?_, ?_, by simp, by simp, by simp, by simp⟩
      · grind
      · grind
    · rw [hruns hfatal]
      refine ⟨?_, ?_, fun _ i hi => ?_, ?_, ?_, ?_⟩
      · grind [startHandler]
      · grind [startHandler]
      · refine (hbits (k + 1) (by omega) i hi).trans ?_
        simp [startHandler]
      · rintro s ⟨⟩
        rfl
      · rintro s ⟨⟩ i hi
        exact getLsbD_handlerMask hi (Nat.le_add_left _ _)
      · rintro ⟨⟩

end Loop

/-- A user task with a handler for every signal. -/
def eagerTask : SigTask :=
  ⟨true, 0#32, 0#32, 0#32, fun _ => 0x1000#32, fun _ => 0#32, fun _ => 0#32⟩

/-- The task has been sent three signals, the lowest of which is blocked. -/
def sentTask : SigTask :=
  (sysRtSigprocmask (signalSend (signalSend (signalSend eagerTask 15) 10) 2) 0 (some 2#32)).2

theorem signal_delivery_exact_sent :
    sentTask.pendingSignals = 0x4202#32 ∧
      (signalCheckAndDeliver sentTask (fun _ => 0#8) ⟨0, gdtUserCode, 0, 0, 0⟩).2.2.2 =
        .handler 10 ∧
      DeliveredRight sentTask (fun _ => 0#8) ⟨0, gdtUserCode, 0, 0, 0⟩
        (signalCheckAndDeliver sentTask (fun _ => 0#8) ⟨0, gdtUserCode, 0, 0, 0⟩) :=
  ⟨rfl, rfl, signal_delivery_exact _ _ _ rfl rfl⟩

end Signal
end Homunculos
