import Homunculos.Lib.Bitmap

/-!
# Counted bitmaps in groups

Bits are arranged in groups of different sizes.  Each group counts its clear
bits and there is a count for all groups.  Taking a clear bit and giving a set
bit back keep the counts right.

What the bits are for is a set of numbers: each valid bit stands for a number,
and the set bits are the numbers in use.  Taking a bit adds a new number to
the set, giving a bit back removes one.
-/

namespace Homunculos
namespace GroupAlloc

open Bitmap

/-- The bits, the count of each group and the total count. -/
structure Groups where
  bits : Nat → Nat → Bool
  free : Nat → Nat
  total : Nat

section Counts

variable {G : Nat} {size : Nat → Nat} {s s' : Groups} {v : Bool} {g i : Nat}

/-- The counts of `G` groups with `size g` valid bits each are right. -/
structure Counted (G : Nat) (size : Nat → Nat) (s : Groups) : Prop where
  free_eq : ∀ g, g < G → s.free g = zeros (s.bits g) (size g)
  total_eq : s.total = ∑ g ∈ Finset.range G, s.free g

/-- Bit `i` of group `g` becomes `v`. -/
structure Put (G : Nat) (size : Nat → Nat) (v : Bool) (g i : Nat) (s s' : Groups) : Prop where
  group : g < G
  index : i < size g
  bits : ∀ g' j, g' < G → j < size g' →
    s'.bits g' j = if g' = g ∧ j = i then v else s.bits g' j

/-- Bit `i` of group `g` changes to `v`, and the counts follow. -/
structure Change (G : Nat) (size : Nat → Nat) (v : Bool) (g i : Nat) (s s' : Groups) : Prop
    extends Put G size v g i s s' where
  old : s.bits g i = !v
  free : ∀ g', g' < G →
    s'.free g' =
      if g' = g then (if v then s.free g - 1 else s.free g + 1)
      else s.free g'
  total : s'.total = if v then s.total - 1 else s.total + 1

variable (h : Counted G size s)
include h

theorem Counted.congr (hbits : ∀ g' j, g' < G → j < size g' → s'.bits g' j = s.bits g' j)
    (hfree : ∀ g', g' < G → s'.free g' = s.free g') (htotal : s'.total = s.total) :
    Counted G size s' := by
  refine ⟨?_, ?_⟩
  · intro g' hg'
    rw [hfree g' hg', h.free_eq g' hg']
    exact zeros_congr (fun j hj => (hbits g' j hg' hj).symm)
  · rw [htotal, h.total_eq]
    apply Finset.sum_congr rfl
    intro g' hg'
    exact (hfree g' (Finset.mem_range.mp hg')).symm

theorem Counted.free_le_total (hg : g < G) :
    s.free g ≤ s.total := by
  rw [h.total_eq]
  exact Finset.single_le_sum (f := s.free) (fun _ _ => Nat.zero_le _)
    (Finset.mem_range.mpr hg)

theorem Counted.free_pos (hg : g < G) (hi : i < size g) (hbit : s.bits g i = false) :
    0 < s.free g := by
  apply Nat.pos_of_ne_zero
  rw [h.free_eq g hg]
  intro hzero
  rw [(zeros_eq_zero_iff _ _).mp hzero i hi] at hbit
  cases hbit

theorem Counted.free_lt (hg : g < G) (hi : i < size g) (hbit : s.bits g i = true) :
    s.free g < size g := by
  have hmore := zeros_clear (f := s.bits g)
    (g := fun j => !decide (j = i) && s.bits g j) hi hbit (fun _ => rfl)
  have hle := zeros_le (fun j => !decide (j = i) && s.bits g j) (size g)
  rw [h.free_eq g hg]
  omega

theorem Counted.total_lt (hg : g < G) (hi : i < size g) (hbit : s.bits g i = true) :
    s.total < ∑ g' ∈ Finset.range G, size g' := by
  rw [h.total_eq]
  apply Finset.sum_lt_sum
  · intro g' hg'
    rw [h.free_eq g' (Finset.mem_range.mp hg')]
    exact zeros_le _ _
  · exact ⟨g, Finset.mem_range.mpr hg, h.free_lt hg hi hbit⟩

theorem Counted.change_free (hc : Change G size v g i s s') {g' : Nat} (hg' : g' < G) :
    s'.free g' = zeros (s'.bits g') (size g') := by
  rw [hc.free g' hg']
  by_cases hgg : g' = g
  · subst hgg
    rw [if_pos rfl, h.free_eq g' hg']
    have hsame : zeros (s'.bits g') (size g') =
        zeros (fun j => if j = i then v else s.bits g' j) (size g') := by
      apply zeros_congr
      intro j hj
      rw [hc.bits g' j hg' hj]
      simp
    cases v with
    | true =>
      have hless := zeros_set (f := s.bits g')
        (g := fun j => if j = i then true else s.bits g' j) hc.index hc.old (by simp)
      rw [if_pos rfl]
      omega
    | false =>
      have hmore := zeros_clear (f := s.bits g')
        (g := fun j => if j = i then false else s.bits g' j) hc.index hc.old (by simp)
      rw [if_neg (by decide), hsame, hmore]
  · rw [if_neg hgg, h.free_eq g' hg']
    apply zeros_congr
    intro j hj
    rw [hc.bits g' j hg' hj, if_neg (fun hx => hgg hx.1)]

theorem Counted.change (hc : Change G size v g i s s') :
    Counted G size s' := by
  refine ⟨fun g' hg' => h.change_free hc hg', ?_⟩
  have hmem : g ∈ Finset.range G := Finset.mem_range.mpr hc.group
  have hrest : ∑ g' ∈ (Finset.range G).erase g, s'.free g' =
      ∑ g' ∈ (Finset.range G).erase g, s.free g' := by
    apply Finset.sum_congr rfl
    intro g' hg'
    rw [hc.free g' (Finset.mem_range.mp (Finset.mem_of_mem_erase hg')),
      if_neg (Finset.ne_of_mem_erase hg')]
  have hold := Finset.add_sum_erase (Finset.range G) s.free hmem
  have hself := hc.free g hc.group
  rw [if_pos rfl] at hself
  rw [hc.total, h.total_eq, ← Finset.add_sum_erase (Finset.range G) s'.free hmem, hself]
  cases v with
  | true =>
    have hpos := h.free_pos hc.group hc.index hc.old
    rw [if_pos rfl, if_pos rfl]
    omega
  | false =>
    rw [if_neg (by decide), if_neg (by decide)]
    omega

end Counts

section Numbers

variable {G per first : Nat} {size : Nat → Nat} {s s' : Groups} {g i : Nat}

/-- The numbers in use, with `per` numbers for each group from `first` on. -/
def used (G : Nat) (size : Nat → Nat) (per first : Nat) (s : Groups) : Set Nat :=
  {n | ∃ g i, g < G ∧ i < size g ∧ n = g * per + i + first ∧ s.bits g i = true}

theorem number_inj
    {g' j : Nat} (hi : i < per) (hj : j < per) (h : g' * per + j + first = g * per + i + first) :
    g' = g ∧ j = i := by
  have hper : 0 < per := by omega
  have hsum : per * g' + j = per * g + i := by
    rw [Nat.mul_comm per g', Nat.mul_comm per g]
    omega
  have hdiv := congrArg (· / per) hsum
  have hmod := congrArg (· % per) hsum
  simp only [Nat.mul_add_div hper, Nat.div_eq_of_lt hi, Nat.div_eq_of_lt hj] at hdiv
  simp only [Nat.mul_add_mod, Nat.mod_eq_of_lt hi, Nat.mod_eq_of_lt hj] at hmod
  exact ⟨hdiv, hmod⟩

theorem mem_used_iff (hsize : ∀ g, g < G → size g ≤ per) (hg : g < G) (hi : i < size g) :
    g * per + i + first ∈ used G size per first s ↔ s.bits g i = true := by
  constructor
  · rintro ⟨g', j, hg', hj, hn, hbit⟩
    obtain ⟨rfl, rfl⟩ := number_inj (lt_of_lt_of_le hj (hsize g' hg'))
      (lt_of_lt_of_le hi (hsize g hg)) hn
    exact hbit
  · intro hbit
    exact ⟨g, i, hg, hi, rfl, hbit⟩

theorem used_congr (hbits : ∀ g' j, g' < G → j < size g' → s'.bits g' j = s.bits g' j) :
    used G size per first s' = used G size per first s := by
  ext n
  constructor
  · rintro ⟨g, i, hg, hi, hn, hbit⟩
    exact ⟨g, i, hg, hi, hn, (hbits g i hg hi).symm.trans hbit⟩
  · rintro ⟨g, i, hg, hi, hn, hbit⟩
    exact ⟨g, i, hg, hi, hn, (hbits g i hg hi).trans hbit⟩

theorem used_take (hsize : ∀ g, g < G → size g ≤ per) (hc : Put G size true g i s s') :
    used G size per first s' =
      insert (g * per + i + first) (used G size per first s) := by
  ext n
  constructor
  · rintro ⟨g', j, hg', hj, rfl, hbit⟩
    rw [hc.bits g' j hg' hj] at hbit
    by_cases hself : g' = g ∧ j = i
    · obtain ⟨rfl, rfl⟩ := hself
      exact Set.mem_insert _ _
    · rw [if_neg hself] at hbit
      exact Set.mem_insert_of_mem _ ⟨g', j, hg', hj, rfl, hbit⟩
  · rintro (rfl | ⟨g', j, hg', hj, rfl, hbit⟩)
    · refine (mem_used_iff hsize hc.group hc.index).mpr ?_
      rw [hc.bits g i hc.group hc.index, if_pos ⟨rfl, rfl⟩]
    · refine (mem_used_iff hsize hg' hj).mpr ?_
      rw [hc.bits g' j hg' hj]
      split
      · rfl
      · exact hbit

theorem used_give (hsize : ∀ g, g < G → size g ≤ per) (hc : Put G size false g i s s') :
    used G size per first s' =
      used G size per first s \ {g * per + i + first} := by
  ext n
  constructor
  · rintro ⟨g', j, hg', hj, rfl, hbit⟩
    rw [hc.bits g' j hg' hj] at hbit
    by_cases hself : g' = g ∧ j = i
    · rw [if_pos hself] at hbit
      cases hbit
    · rw [if_neg hself] at hbit
      refine ⟨⟨g', j, hg', hj, rfl, hbit⟩, ?_⟩
      intro hn
      exact hself (number_inj (lt_of_lt_of_le hc.index (hsize g hc.group))
        (lt_of_lt_of_le hj (hsize g' hg')) hn)
  · rintro ⟨⟨g', j, hg', hj, rfl, hbit⟩, hne⟩
    refine (mem_used_iff hsize hg' hj).mpr ?_
    rw [hc.bits g' j hg' hj, if_neg ?_]
    · exact hbit
    · rintro ⟨rfl, rfl⟩
      exact hne rfl

end Numbers

end GroupAlloc
end Homunculos
