import Mathlib.Logic.Basic

/-!
# Loops that may not end

A loop is its body: from a state it goes on to another state or leaves with a result.
The number of rounds is bounded from outside, so a loop ends if some bound is enough.
-/

namespace Homunculos
namespace Loop

universe u v

variable {σ : Type u} {ρ : Type v} {body : σ → σ ⊕ ρ} {s t : σ} {r : ρ}

/-- At most `n` rounds; `none` if they are too few. -/
def loop (body : σ → σ ⊕ ρ) : Nat → σ → Option ρ
  | 0, _ => none
  | n + 1, s =>
    match body s with
    | .inl t => loop body n t
    | .inr r => some r

/-- The loop leaves after some number of rounds. -/
def Ends (body : σ → σ ⊕ ρ) (s : σ) : Prop :=
  ∃ n, (loop body n s).isSome = true

theorem loop_exit (h : body s = .inr r) (n : Nat) :
    loop body (n + 1) s = some r := by
  rw [loop, h]

theorem loop_next (h : body s = .inl t) (n : Nat) :
    loop body (n + 1) s = loop body n t := by
  rw [loop, h]

theorem Ends.next (h : body s = .inl t) (hs : Ends body s) :
    Ends body t := by
  obtain ⟨n, hn⟩ := hs
  cases n with
  | zero => cases hn
  | succ n =>
    rw [loop_next h] at hn
    exact ⟨n, hn⟩

/-- A loop that always goes on inside of `I` uses up every number of rounds. -/
theorem not_ends_of_going_on {I : σ → Prop} (h : ∀ s, I s → ∃ t, body s = .inl t ∧ I t) (hs : I s) :
    ¬ Ends body s := by
  rintro ⟨n, hn⟩
  induction n generalizing s with
  | zero => cases hn
  | succ n ih =>
    obtain ⟨t, hbody, ht⟩ := h s hs
    rw [loop_next hbody] at hn
    exact ih ht hn

end Loop
end Homunculos
