import Homunculos.Vfs.OpenFile

/-!
# Pipe ends

Which open file is which end of which pipe.  An open file is at most one end;
`PipesOk` says that an end is at most one open file, that the end counters of
a used pipe tell which of its ends are open, and that a pipe is used exactly
as long as it has an open end.
-/

namespace Homunculos
namespace Vfs

open Ipc Function

/-- The ends that open files are, against the pipe pool. -/
structure PipesOk (ends : Slot → Option (PipeEnd × PipeNo)) (pipes : PipeNo → Pipe)
    (used : PipeNo → Bool) : Prop where
  used_of_end : ∀ f e p, ends f = some (e, p) → used p = true
  unique : ∀ f g e p, ends f = some (e, p) → ends g = some (e, p) → f = g
  open_of_used : ∀ p, used p = true → ∃ f e, ends f = some (e, p)
  refs_of_open : ∀ f e p, ends f = some (e, p) → e.refs (pipes p) = 1
  refs_of_closed : ∀ e p, used p = true →
    (∀ f, ends f ≠ some (e, p)) → e.refs (pipes p) = 0

/-- The end at the other side. -/
def PipeEnd.other : PipeEnd → PipeEnd
  | .read => .write
  | .write => .read

theorem eq_or_eq_other (e e' : PipeEnd) :
    e' = e ∨ e' = e.other := by
  cases e with
  | read =>
    cases e' with
    | read => exact Or.inl rfl
    | write => exact Or.inr rfl
  | write =>
    cases e' with
    | read => exact Or.inr rfl
    | write => exact Or.inl rfl

theorem other_ne (e : PipeEnd) :
    e.other ≠ e := by
  cases e with
  | read =>
    intro h
    cases h
  | write =>
    intro h
    cases h

theorem refs_pipeNew (e : PipeEnd) :
    e.refs pipeNew = 1 := by
  cases e with
  | read => rfl
  | write => rfl

/-- Closing an open end: its counter drops to 0, and the pipe is freed if the other end is
closed. -/
theorem close_spec {e : PipeEnd} {p : Pipe} (h : e.refs p = 1) :
    e.refs (e.close p).1 = 0 ∧
      e.other.refs (e.close p).1 = e.other.refs p ∧
      ((e.close p).2.2 = true ↔ e.other.refs p = 0) := by
  cases e with
  | read =>
    replace h : p.readRefs = 1 := h
    by_cases hwake : 0 ≤ p.writerPid
    · simp [PipeEnd.close, PipeEnd.refs, PipeEnd.other, pipeCloseRead, h, hwake]
    · simp [PipeEnd.close, PipeEnd.refs, PipeEnd.other, pipeCloseRead, h, hwake]
  | write =>
    replace h : p.writeRefs = 1 := h
    by_cases hwake : 0 ≤ p.readerPid
    · simp [PipeEnd.close, PipeEnd.refs, PipeEnd.other, pipeCloseWrite, h, hwake]
    · simp [PipeEnd.close, PipeEnd.refs, PipeEnd.other, pipeCloseWrite, h, hwake]

section Rules

variable {ends : Slot → Option (PipeEnd × PipeNo)}
variable {pipes pipes' : PipeNo → Pipe} {used : PipeNo → Bool}

theorem slot_ne_of_end_ne
    {f g : Slot} {x y : PipeEnd × PipeNo} (hf : ends f = some x) (hg : ends g = some y)
    (hne : y ≠ x) :
    g ≠ f := by
  rintro rfl
  rw [hf] at hg
  injection hg with hxy
  exact hne hxy.symm

theorem PipesOk.congr_unused
    (h : PipesOk ends pipes used) (hpipes : ∀ p, used p = true → pipes' p = pipes p) :
    PipesOk ends pipes' used := by
  refine ⟨h.used_of_end, h.unique, h.open_of_used, ?_, ?_⟩
  · intro f e p hf
    rw [hpipes p (h.used_of_end f e p hf)]
    exact h.refs_of_open f e p hf
  · intro e p hp hclosed
    rw [hpipes p hp]
    exact h.refs_of_closed e p hp hclosed

section New

variable (h : PipesOk ends pipes used) {p : PipeNo} {rf wf : Slot} (hp : used p = false)
variable (hrf : ends rf = none) (hwf : ends wf = none) (hne : rf ≠ wf)
include h hp hrf hwf hne

theorem PipesOk.ends_addPipe {q : PipeNo} {f : Slot} {e : PipeEnd} :
    update (update ends rf (some (.read, p))) wf (some (.write, p)) f = some (e, q) ↔
      (q = p ∧ (e = .read ∧ f = rf ∨ e = .write ∧ f = wf)) ∨
        (q ≠ p ∧ ends f = some (e, q)) := by
  have hold : ends f = some (e, q) → q ≠ p := by
    rintro hf rfl
    rw [h.used_of_end f e q hf] at hp
    cases hp
  by_cases hw : f = wf
  · subst hw
    rw [hwf]
    cases e with
    | read => simp [hne.symm]
    | write => simp [eq_comm]
  · rw [update_of_ne hw]
    by_cases hr : f = rf
    · subst hr
      rw [hrf]
      cases e with
      | read => simp [eq_comm]
      | write => simp [hw]
    · rw [update_of_ne hr]
      simp only [hr, hw, and_false, false_or]
      exact ⟨fun hf => ⟨hold hf, hf⟩, fun hf => hf.2⟩

theorem PipesOk.addPipe :
    PipesOk (update (update ends rf (some (.read, p))) wf (some (.write, p)))
      (update pipes p pipeNew) (update used p true) := by
  have hends := fun f e q =>
    h.ends_addPipe (f := f) (e := e) (q := q) hp hrf hwf hne
  refine ⟨?_, ?_, ?_, ?_, ?_⟩
  · intro f e q hf
    rcases (hends f e q).mp hf with ⟨rfl, _⟩ | ⟨hq, hf⟩
    · exact update_self ..
    · rw [update_of_ne hq]
      exact h.used_of_end f e q hf
  · intro f g e q hf hg
    rcases (hends f e q).mp hf with ⟨hq, hf⟩ | ⟨hq, hf⟩
    · rcases (hends g e q).mp hg with ⟨_, hg⟩ | ⟨hq', _⟩
      · cases e with
        | read =>
          have hf' : f = rf := by simpa using hf
          have hg' : g = rf := by simpa using hg
          exact hf'.trans hg'.symm
        | write =>
          have hf' : f = wf := by simpa using hf
          have hg' : g = wf := by simpa using hg
          exact hf'.trans hg'.symm
      · exact absurd hq hq'
    · rcases (hends g e q).mp hg with ⟨hq', _⟩ | ⟨_, hg⟩
      · exact absurd hq' hq
      · exact h.unique f g e q hf hg
  · intro q hq
    by_cases hqp : q = p
    · exact ⟨rf, .read, (hends rf .read q).mpr
        (Or.inl ⟨hqp, Or.inl ⟨rfl, rfl⟩⟩)⟩
    · rw [update_of_ne hqp] at hq
      obtain ⟨f, e, hf⟩ := h.open_of_used q hq
      exact ⟨f, e, (hends f e q).mpr (Or.inr ⟨hqp, hf⟩)⟩
  · intro f e q hf
    rcases (hends f e q).mp hf with ⟨rfl, _⟩ | ⟨hq, hf⟩
    · rw [update_self]
      exact refs_pipeNew e
    · rw [update_of_ne hq]
      exact h.refs_of_open f e q hf
  · intro e q hq hclosed
    by_cases hqp : q = p
    · exfalso
      cases e with
      | read =>
        exact hclosed rf ((hends rf .read q).mpr (Or.inl ⟨hqp, Or.inl ⟨rfl, rfl⟩⟩))
      | write =>
        exact hclosed wf ((hends wf .write q).mpr (Or.inl ⟨hqp, Or.inr ⟨rfl, rfl⟩⟩))
    · rw [update_of_ne hqp] at hq ⊢
      apply h.refs_of_closed e q hq
      intro f hf
      exact hclosed f ((hends f e q).mpr (Or.inr ⟨hqp, hf⟩))

end New

theorem ends_closeEnd {f g : Slot} {x : PipeEnd × PipeNo} :
    update ends f none g = some x ↔ g ≠ f ∧ ends g = some x := by
  by_cases hg : g = f
  · subst hg
    simp
  · simp [hg]

theorem PipesOk.eq_other (h : PipesOk ends pipes used) {f g : Slot} {e e' : PipeEnd} {p : PipeNo}
    (hf : ends f = some (e, p)) (hg : ends g = some (e', p)) (hne : g ≠ f) :
    e' = e.other := by
  rcases eq_or_eq_other e e' with rfl | he
  · exact absurd (h.unique g f e' p hg hf) hne
  · exact he

theorem used_closeEnd {e : PipeEnd} {p q : PipeNo} (hopen : e.refs (pipes p) = 1) :
    (if (e.close (pipes p)).2.2 then
        update used p false else used) q = true ↔
      used q = true ∧ (q = p → e.other.refs (pipes p) ≠ 0) := by
  obtain ⟨_, _, hfreed⟩ := close_spec hopen
  by_cases hq : q = p
  · subst hq
    by_cases hz : e.other.refs (pipes q) = 0
    · rw [if_pos (hfreed.mpr hz)]
      simp [hz]
    · have hnot : ¬ (e.close (pipes q)).2.2 = true := by
        intro ht
        exact hz (hfreed.mp ht)
      rw [if_neg hnot]
      simp [hz]
  · split
    · simp [hq]
    · simp [hq]

theorem PipesOk.closeEnd (h : PipesOk ends pipes used) {f : Slot} {e : PipeEnd} {p : PipeNo}
    (hf : ends f = some (e, p)) :
    PipesOk
      (update ends f none)
      (update pipes p (e.close (pipes p)).1)
      (if (e.close (pipes p)).2.2 then
        update used p false
      else
        used) := by
  have hopen := h.refs_of_open f e p hf
  obtain ⟨hzero, hother, _⟩ := close_spec hopen
  refine ⟨?_, ?_, ?_, ?_, ?_⟩
  · intro g e' q hg
    obtain ⟨hgf, hg⟩ := ends_closeEnd.mp hg
    refine (used_closeEnd hopen).mpr ⟨h.used_of_end g e' q hg, ?_⟩
    rintro rfl
    rw [← h.eq_other hf hg hgf, h.refs_of_open g e' q hg]
    exact one_ne_zero
  · intro g g' e' q hg hg'
    exact h.unique g g' e' q (ends_closeEnd.mp hg).2 (ends_closeEnd.mp hg').2
  · intro q hq'
    obtain ⟨hq, hleft⟩ := (used_closeEnd hopen).mp hq'
    by_cases hqp : q = p
    · subst hqp
      by_contra hno
      apply hleft rfl
      apply h.refs_of_closed e.other q hq
      intro g hg
      have hgf : g ≠ f := slot_ne_of_end_ne hf hg (by simp [other_ne e])
      exact hno ⟨g, e.other, ends_closeEnd.mpr ⟨hgf, hg⟩⟩
    · obtain ⟨g, e', hg⟩ := h.open_of_used q hq
      have hgf : g ≠ f := slot_ne_of_end_ne hf hg (by simp [hqp])
      exact ⟨g, e', ends_closeEnd.mpr ⟨hgf, hg⟩⟩
  · intro g e' q hg
    obtain ⟨hgf, hg⟩ := ends_closeEnd.mp hg
    by_cases hqp : q = p
    · subst hqp
      have he := h.eq_other hf hg hgf
      rw [update_self, he, hother, ← he]
      exact h.refs_of_open g e' q hg
    · rw [update_of_ne hqp]
      exact h.refs_of_open g e' q hg
  · intro e' q hq' hclosed
    obtain ⟨hq, _⟩ := (used_closeEnd hopen).mp hq'
    by_cases hqp : q = p
    · subst hqp
      rw [update_self]
      rcases eq_or_eq_other e e' with rfl | he
      · exact hzero
      · rw [he, hother, ← he]
        apply h.refs_of_closed e' q hq
        intro g hg
        have hgf : g ≠ f :=
          slot_ne_of_end_ne hf hg (by simp [he, other_ne e])
        exact hclosed g (ends_closeEnd.mpr ⟨hgf, hg⟩)
    · rw [update_of_ne hqp]
      apply h.refs_of_closed e' q hq
      intro g hg
      have hgf : g ≠ f := slot_ne_of_end_ne hf hg (by simp [hqp])
      exact hclosed g (ends_closeEnd.mpr ⟨hgf, hg⟩)

end Rules

end Vfs
end Homunculos
