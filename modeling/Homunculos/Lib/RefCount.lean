import Mathlib.Data.Fintype.Card
import Mathlib.Tactic

/-!
# Counted references

A table whose entries point to objects, and objects that count the pointers to
them.  Besides the entries of the table there are pointers that are held
elsewhere, such as a local variable between the creation of an object and the
moment the table is written; `held` has their number for each object.

Each rule is about one small step: an object is created, a pointer is copied
or dropped, a held pointer is stored in the table, an entry is taken out.
-/

namespace Homunculos
namespace RefCount

open Function

universe u v

section Table

variable {ι : Type u} {φ : Type v} [Fintype ι] [DecidableEq φ]

/-- The entries of the table that point to `f`. -/
def refs (tbl : ι → Option φ) (f : φ) : Nat :=
  (Finset.univ.filter (fun i => tbl i = some f)).card

theorem refs_eq_zero_iff (tbl : ι → Option φ) (f : φ) :
    refs tbl f = 0 ↔ ∀ i, tbl i ≠ some f := by
  simp [refs]

theorem refs_pos {tbl : ι → Option φ} {i : ι} {f : φ} (h : tbl i = some f) :
    0 < refs tbl f := by
  apply Nat.pos_of_ne_zero
  intro hzero
  exact (refs_eq_zero_iff tbl f).mp hzero i h

theorem refs_eq_others [DecidableEq ι] (tbl : ι → Option φ) (i : ι) (f : φ) :
    refs tbl f =
      ((Finset.univ.erase i).filter (fun j => tbl j = some f)).card +
        (if tbl i = some f then 1 else 0) := by
  unfold refs
  rw [← Finset.insert_erase (Finset.mem_univ i), Finset.filter_insert]
  by_cases h : tbl i = some f
  · rw [if_pos h, if_pos h]
    simp
  · rw [if_neg h, if_neg h]
    simp

theorem refs_update [DecidableEq ι] (tbl : ι → Option φ) (i : ι) (v : Option φ) (f : φ) :
    refs (update tbl i v) f + (if tbl i = some f then 1 else 0) =
      refs tbl f + (if v = some f then 1 else 0) := by
  rw [refs_eq_others tbl i f, refs_eq_others (update tbl i v) i f, update_self]
  have hothers :
      (Finset.univ.erase i).filter
          (fun j => update tbl i v j = some f) =
        (Finset.univ.erase i).filter (fun j => tbl j = some f) := by
    apply Finset.filter_congr
    intro j hj
    rw [update_of_ne (Finset.ne_of_mem_erase hj)]
  rw [hothers]
  omega

/-- One more pointer to `f` is held. -/
def hold (held : φ → Nat) (f : φ) : φ → Nat :=
  update held f (held f + 1)

@[simp]
theorem hold_self (held : φ → Nat) (f : φ) :
    hold held f f = held f + 1 := by
  simp [hold]

@[simp]
theorem hold_of_ne (held : φ → Nat) {f g : φ} (h : g ≠ f) :
    hold held f g = held g := by
  simp [hold, h]

theorem hold_comm (held : φ → Nat) (f g : φ) :
    hold (hold held f) g = hold (hold held g) f := by
  funext x
  by_cases hf : x = f
  · subst hf
    by_cases hg : x = g
    · subst hg
      rfl
    · simp [hg]
  · by_cases hg : x = g
    · subst hg
      simp [hf]
    · simp [hf, hg]

/-- Every used object knows the number of pointers to it; the others have none. -/
structure Counted (tbl : ι → Option φ) (held : φ → Nat) (used : φ → Prop)
    (count : φ → Int) : Prop where
  count_eq : ∀ f, used f → count f = refs tbl f + held f
  used_iff : ∀ f, used f ↔ 0 < refs tbl f + held f

variable {tbl tbl' : ι → Option φ} {held held' : φ → Nat}
variable {used used' : φ → Prop} {count count' : φ → Int} {i : ι} {f : φ}

theorem Counted.used_of_entry (h : Counted tbl held used count) (hi : tbl i = some f) :
    used f := by
  have hpos := refs_pos hi
  exact (h.used_iff f).mpr (by omega)

theorem Counted.used_of_hold (h : Counted tbl (hold held f) used count) :
    used f := by
  apply (h.used_iff f).mpr
  rw [hold_self]
  omega

theorem Counted.move
    (h : Counted tbl held used count) (htotal : ∀ g, refs tbl' g + held' g = refs tbl g + held g) :
    Counted tbl' held' used count := by
  refine ⟨?_, ?_⟩
  · intro g hg
    have hc := h.count_eq g hg
    have ht := htotal g
    omega
  · intro g
    rw [htotal g]
    exact h.used_iff g

theorem refs_take [DecidableEq ι] (held : φ → Nat) (hi : tbl i = some f) (g : φ) :
    refs (update tbl i none) g + hold held f g = refs tbl g + held g := by
  have hu := refs_update tbl i none g
  by_cases hg : g = f
  · subst hg
    simp [hi] at hu ⊢
    omega
  · have hne : ¬ f = g := fun he => hg he.symm
    simp [hi, hne] at hu
    rw [hold_of_ne held hg, hu]

theorem Counted.store
    [DecidableEq ι] (h : Counted tbl (hold held f) used count) (hi : tbl i = none) :
    Counted (update tbl i (some f)) held used count := by
  apply h.move
  intro g
  have htake := refs_take held (update_self i (some f) tbl) g
  rw [update_idem, ← hi, update_eq_self] at htake
  exact htake.symm

theorem Counted.take [DecidableEq ι] (h : Counted tbl held used count) (hi : tbl i = some f) :
    Counted (update tbl i none) (hold held f) used count :=
  h.move (refs_take held hi)

theorem Counted.change_one (h : Counted tbl held used count)
    (hrest : ∀ g, g ≠ f → held' g = held g ∧ (used' g ↔ used g) ∧ count' g = count g)
    (hcount : used' f → count' f = refs tbl f + held' f)
    (hused : used' f ↔ 0 < refs tbl f + held' f) :
    Counted tbl held' used' count' := by
  refine ⟨?_, ?_⟩
  · intro g hg
    by_cases hgf : g = f
    · subst hgf
      exact hcount hg
    · obtain ⟨hheld, hu, hc⟩ := hrest g hgf
      rw [hheld, hc]
      exact h.count_eq g (hu.mp hg)
  · intro g
    by_cases hgf : g = f
    · subst hgf
      exact hused
    · obtain ⟨hheld, hu, -⟩ := hrest g hgf
      rw [hheld, hu]
      exact h.used_iff g

variable (h : Counted tbl held used count)
include h

theorem Counted.copy (hf : used f) (hused : ∀ g, used' g ↔ used g)
    (hcount : count' f = count f + 1) (hother : ∀ g, g ≠ f → count' g = count g) :
    Counted tbl (hold held f) used' count' := by
  refine h.change_one (fun g hg => ⟨hold_of_ne held hg, hused g, hother g hg⟩) ?_ ?_
  · intro _
    have hc := h.count_eq f hf
    rw [hold_self]
    omega
  · simp [hused f, hf]

theorem Counted.create (hf : ¬ used f) (hused : ∀ g, used' g ↔ used g ∨ g = f)
    (hcount : count' f = 1) (hother : ∀ g, g ≠ f → count' g = count g) :
    Counted tbl (hold held f) used' count' := by
  have hzero : refs tbl f + held f = 0 := by
    by_contra hne
    exact hf ((h.used_iff f).mpr (by omega))
  refine h.change_one (fun g hg => ⟨hold_of_ne held hg, ?_, hother g hg⟩) ?_ ?_
  · simp [hused g, hg]
  · intro _
    rw [hold_self]
    omega
  · simp [hused f]

omit h

theorem Counted.drop
    (h : Counted tbl (hold held f) used count) (hmany : 1 < count f) (hused : ∀ g, used' g ↔ used g)
    (hcount : count' f = count f - 1) (hother : ∀ g, g ≠ f → count' g = count g) :
    Counted tbl held used' count' := by
  have hf := h.count_eq f h.used_of_hold
  rw [hold_self] at hf
  refine h.change_one
    (fun g hg => ⟨(hold_of_ne held hg).symm, hused g, hother g hg⟩) ?_ ?_
  · intro _
    omega
  · rw [hused f]
    exact iff_of_true h.used_of_hold (by omega)

theorem Counted.dropLast (h : Counted tbl (hold held f) used count) (hlast : count f ≤ 1)
    (hused : ∀ g, used' g ↔ used g ∧ g ≠ f) (hother : ∀ g, g ≠ f → count' g = count g) :
    Counted tbl held used' count' := by
  have hf := h.count_eq f h.used_of_hold
  rw [hold_self] at hf
  refine h.change_one (fun g hg => ⟨(hold_of_ne held hg).symm, ?_, hother g hg⟩) ?_ ?_
  · simp [hused g, hg]
  · intro hg
    exact absurd rfl ((hused f).mp hg).2
  · rw [hused f]
    exact iff_of_false (fun hg => hg.2 rfl) (by omega)

end Table

end RefCount
end Homunculos
