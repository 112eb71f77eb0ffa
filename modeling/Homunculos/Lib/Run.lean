import Mathlib.Logic.Relation
import Mathlib.Data.List.Induction

/-!
# Runs and their invariants

A system is a step relation, or a step function over a list of events, some of
which are allowed only in some states.  What one step keeps, a run keeps.
-/

namespace Homunculos
namespace Run

section Relations

variable {σ : Type} {step : σ → σ → Prop} {P : σ → Prop}

/-- Every step from a state with `P` leads to a state with `P`. -/
def Keeps (step : σ → σ → Prop) (P : σ → Prop) : Prop :=
  ∀ ⦃s s'⦄, step s s' → P s → P s'

theorem Keeps.run
    (h : Keeps step P) {s s' : σ} (hrun : Relation.ReflTransGen step s s') (hs : P s) :
    P s' := by
  induction hrun with
  | refl => exact hs
  | tail _ hstep ih => exact h hstep ih

end Relations

section Events

variable {σ ε : Type} {step : σ → ε → σ} {ok : σ → ε → Prop} {s : σ} {es : List ε}

/-- Every event is allowed in the state in which it happens. -/
def Allowed (step : σ → ε → σ) (ok : σ → ε → Prop) : σ → List ε → Prop
  | _, [] => True
  | s, e :: es => ok s e ∧ Allowed step ok (step s e) es

theorem Allowed.invariant {P : σ → Prop} (h : Allowed step ok s es) (hs : P s)
    (hstep : ∀ s e, e ∈ es → ok s e → P s → P (step s e)) :
    P (es.foldl step s) := by
  induction es generalizing s with
  | nil => exact hs
  | cons e es ih =>
    exact ih h.2 (hstep s e List.mem_cons_self h.1 hs)
      (fun s e' he' => hstep s e' (List.mem_cons_of_mem _ he'))

theorem Allowed.append {pre : List ε} (h : Allowed step ok s (pre ++ es)) :
    Allowed step ok s pre ∧ Allowed step ok (pre.foldl step s) es := by
  induction pre generalizing s with
  | nil => exact ⟨trivial, h⟩
  | cons e pre ih =>
    obtain ⟨hpre, hes⟩ := ih h.2
    exact ⟨⟨h.1, hpre⟩, hes⟩

theorem Allowed.mono
    {ok' : σ → ε → Prop} (h : Allowed step ok s es) (himp : ∀ s e, ok s e → ok' s e) :
    Allowed step ok' s es := by
  induction es generalizing s with
  | nil => trivial
  | cons e es ih => exact ⟨himp s e h.1, ih h.2⟩

/-- Two conditions on events that agree wherever `I` holds allow the same runs. -/
theorem Allowed.congr
    {valid ok' : σ → ε → Prop} {I : σ → Prop} (hvalid : Allowed step valid s es) (hI : I s)
    (hkeep : ∀ s e, valid s e → ok s e → I s → I (step s e))
    (hiff : ∀ s e, valid s e → I s → (ok s e ↔ ok' s e)) :
    Allowed step ok s es ↔ Allowed step ok' s es := by
  induction es generalizing s with
  | nil => exact Iff.rfl
  | cons e es ih =>
    have hfirst := hiff s e hvalid.1 hI
    constructor
    · rintro ⟨hok, hes⟩
      exact ⟨hfirst.mp hok, (ih hvalid.2 (hkeep s e hvalid.1 hok hI)).mp hes⟩
    · rintro ⟨hok', hes⟩
      have hok := hfirst.mpr hok'
      exact ⟨hok, (ih hvalid.2 (hkeep s e hvalid.1 hok hI)).mpr hes⟩

/-- If an event keeps `P` exactly when it is allowed, then `P` holds all along a run exactly if
every event of the run is allowed. `I` is what every event keeps. -/
theorem Allowed.always_iff
    {valid : σ → ε → Prop} {I P : σ → Prop} (hvalid : Allowed step valid s es) (hI : I s) (hP : P s)
    (hkeep : ∀ s e, valid s e → I s → I (step s e))
    (hstep : ∀ s e, valid s e → I s → P s → (P (step s e) ↔ ok s e)) :
    (∀ pre, pre <+: es → P (pre.foldl step s)) ↔ Allowed step ok s es := by
  induction es generalizing s with
  | nil =>
    refine ⟨fun _ => trivial, fun _ pre hpre => ?_⟩
    rw [List.prefix_nil.mp hpre]
    exact hP
  | cons e es ih =>
    have hiff := hstep s e hvalid.1 hI hP
    have hI' := hkeep s e hvalid.1 hI
    constructor
    · intro h
      have hP' : P (step s e) := h [e] (List.prefix_append [e] es)
      refine ⟨hiff.mp hP', (ih hvalid.2 hI' hP').mp ?_⟩
      intro pre hpre
      exact h (e :: pre) (List.cons_prefix_cons.mpr ⟨rfl, hpre⟩)
    · rintro ⟨hok, hes⟩ pre hpre
      have hrest := (ih hvalid.2 hI' (hiff.mpr hok)).mpr hes
      cases pre with
      | nil => exact hP
      | cons e' pre =>
        obtain ⟨rfl, hpre'⟩ := List.cons_prefix_cons.mp hpre
        exact hrest pre hpre'

end Events

section Partial

variable {σ ε : Type} {step : σ → ε → Option σ} {s : σ}

theorem foldlM_total
    {I : σ → Prop} (hI : I s) (hstep : ∀ s e, I s → ∃ s', step s e = some s' ∧ I s') (es : List ε) :
    ∃ s', es.foldlM step s = some s' ∧ I s' := by
  induction es generalizing s with
  | nil => exact ⟨s, rfl, hI⟩
  | cons e es ih =>
    obtain ⟨s1, hs1, hI1⟩ := hstep s e hI
    obtain ⟨s', hrun, hI'⟩ := ih hI1
    refine ⟨s', ?_, hI'⟩
    rw [List.foldlM_cons, hs1]
    exact hrun

/-- The same as `Allowed.always_iff` for a step function that may fail. -/
theorem foldlM_always_iff {I P : σ → Prop} {ok : σ → ε → Prop} (hI : I s) (hP : P s)
    (hstep : ∀ s e, I s → ∃ s', step s e = some s' ∧ I s' ∧ (P s → (P s' ↔ ok s e))) (es : List ε) :
    ∃ s', es.foldlM step s = some s' ∧
      ((∀ pre s', pre <+: es → pre.foldlM step s = some s' → P s') ↔
        ∀ pre e s', pre ++ [e] <+: es → pre.foldlM step s = some s' → ok s' e) := by
  have htotal : ∀ es : List ε, ∃ s', es.foldlM step s = some s' ∧ I s' := by
    apply foldlM_total hI
    intro s e hs
    obtain ⟨s', hs', hI', -⟩ := hstep s e hs
    exact ⟨s', hs', hI'⟩
  have hconcat : ∀ (pre : List ε) e s', pre.foldlM step s = some s' →
      (pre ++ [e]).foldlM step s = step s' e := by
    intro pre e s' hrun
    rw [List.foldlM_append, hrun]
    simp
  obtain ⟨s', hrun, -⟩ := htotal es
  refine ⟨s', hrun, ?_, ?_⟩
  · intro halways pre e s1 hpre hrun1
    obtain ⟨s2, hrun2, hI2⟩ := htotal pre
    obtain rfl : s1 = s2 := Option.some.inj (hrun1.symm.trans hrun2)
    obtain ⟨s3, hs3, -, hiff⟩ := hstep s1 e hI2
    apply (hiff (halways pre s1 ((List.prefix_append pre [e]).trans hpre) hrun1)).mp
    exact halways (pre ++ [e]) s3 hpre ((hconcat pre e s1 hrun1).trans hs3)
  · intro hok pre
    induction pre using List.reverseRecOn with
    | nil =>
      intro s1 _ hrun1
      exact Option.some.inj hrun1 ▸ hP
    | append_singleton pre e ih =>
      intro s1 hpre hrun1
      obtain ⟨s2, hrun2, hI2⟩ := htotal pre
      obtain ⟨s3, hs3, -, hiff⟩ := hstep s2 e hI2
      rw [hconcat pre e s2 hrun2] at hrun1
      obtain rfl : s1 = s3 := Option.some.inj (hrun1.symm.trans hs3)
      have hbefore := ih s2 ((List.prefix_append pre [e]).trans hpre) hrun2
      exact (hiff hbefore).mpr (hok pre e s2 hpre hrun2)

end Partial

end Run
end Homunculos
