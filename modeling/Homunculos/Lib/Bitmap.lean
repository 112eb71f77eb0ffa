import Mathlib

/-!
# Bitmaps packed into machine words

A bitmap is an array of words of a fixed width.  Bit `i` is bit `i % w` of
word `i / w`; setting and clearing a bit rewrite one word with the usual
or-mask and and-not-mask.  The lemmas say what the two updates do to every
bit, so that users never look inside a word again.

The second half counts clear bits below a bound and describes the first-fit
scan that a loop over bit indices performs.
-/

namespace Homunculos
namespace Bitmap

open Function

/-- A bitmap as an array of `w`-bit words. -/
abbrev Words (w : Nat) := Nat → BitVec w

section Words

variable {w : Nat}

/-- Bit `i` of the bitmap. -/
def test (bm : Words w) (i : Nat) : Bool :=
  (bm (i / w)).getLsbD (i % w)

/-- Or the mask of bit `i` into its word. -/
def set (bm : Words w) (i : Nat) : Words w :=
  update bm (i / w)
    (bm (i / w) ||| (1#w <<< (i % w)))

/-- And the complement of the mask of bit `i` into its word. -/
def clear (bm : Words w) (i : Nat) : Words w :=
  update bm (i / w)
    (bm (i / w) &&& ~~~(1#w <<< (i % w)))

theorem getLsbD_mask (k j : Nat) (hj : j < w) :
    (1#w <<< k).getLsbD j = decide (j = k) := by
  rw [BitVec.getLsbD_shiftLeft]
  by_cases hkj : j < k
  · have hne : j ≠ k := by omega
    simp [hkj, hne]
  · by_cases heq : j = k
    · subst heq
      simp [hj]
      omega
    · have hpos : j - k ≠ 0 := by omega
      simp [heq, hpos]

theorem index_eq_iff (i j : Nat) :
    (j / w = i / w ∧ j % w = i % w) ↔ j = i := by
  constructor
  · rintro ⟨hdiv, hmod⟩
    rw [← Nat.div_add_mod j w, ← Nat.div_add_mod i w, hdiv, hmod]
  · rintro rfl
    exact ⟨rfl, rfl⟩

/-- Setting bit `i` sets that bit and no other. -/
theorem test_set (hw : 0 < w) (bm : Words w) (i j : Nat) :
    test (set bm i) j = (decide (j = i) || test bm j) := by
  have hjw : j % w < w := Nat.mod_lt _ hw
  unfold test set
  by_cases hword : j / w = i / w
  · rw [hword, update_self, BitVec.getLsbD_or,
      getLsbD_mask _ _ hjw, Bool.or_comm]
    congr 1
    have hiff := index_eq_iff (w := w) i j
    simp only [hword, true_and] at hiff
    exact decide_eq_decide.mpr hiff
  · have hne : j ≠ i := by
      rintro rfl
      exact hword rfl
    rw [update_of_ne hword]
    simp [hne]

/-- Clearing bit `i` clears that bit and no other. -/
theorem test_clear (hw : 0 < w) (bm : Words w) (i j : Nat) :
    test (clear bm i) j = (!decide (j = i) && test bm j) := by
  have hjw : j % w < w := Nat.mod_lt _ hw
  unfold test clear
  by_cases hword : j / w = i / w
  · rw [hword, update_self, BitVec.getLsbD_and,
      BitVec.getLsbD_not, getLsbD_mask _ _ hjw, Bool.and_comm]
    have hiff := index_eq_iff (w := w) i j
    simp only [hword, true_and] at hiff
    have hdec : decide (j % w = i % w) = decide (j = i) :=
      decide_eq_decide.mpr hiff
    simp [hdec, hjw]
  · have hne : j ≠ i := by
      rintro rfl
      exact hword rfl
    rw [update_of_ne hword]
    simp [hne]

theorem words_ext (hw : 0 < w) {bm bm' : Words w} (h : ∀ i, test bm' i = test bm i) :
    bm' = bm := by
  funext q
  apply BitVec.eq_of_getLsbD_eq
  intro k hk
  have hbit := h (w * q + k)
  have hdiv : (w * q + k) / w = q := by
    rw [Nat.mul_add_div hw, Nat.div_eq_of_lt hk, Nat.add_zero]
  have hmod : (w * q + k) % w = k := by
    rw [Nat.mul_add_mod, Nat.mod_eq_of_lt hk]
  unfold test at hbit
  rw [hdiv, hmod] at hbit
  exact hbit

end Words

section Counting

/-- Number of clear bits below `n`. -/
def zeros (bits : Nat → Bool) (n : Nat) : Nat :=
  ((Finset.range n).filter (fun i => bits i = false)).card

theorem zeros_le (bits : Nat → Bool) (n : Nat) :
    zeros bits n ≤ n := by
  have h := Finset.card_filter_le
    (Finset.range n) (fun i => bits i = false)
  rwa [Finset.card_range] at h

variable {f g : Nat → Bool}

theorem zeros_congr {n : Nat} (h : ∀ i, i < n → f i = g i) :
    zeros f n = zeros g n := by
  unfold zeros
  congr 1
  apply Finset.filter_congr
  intro i hi
  rw [h i (Finset.mem_range.mp hi)]

theorem zeros_eq_zero_iff (bits : Nat → Bool) (n : Nat) :
    zeros bits n = 0 ↔ ∀ i, i < n → bits i = true := by
  unfold zeros
  rw [Finset.card_eq_zero, Finset.filter_eq_empty_iff]
  constructor
  · intro h i hi
    have hne := h (Finset.mem_range.mpr hi)
    simpa using hne
  · intro h i hi
    simp [h i (Finset.mem_range.mp hi)]

theorem zeros_set {n i : Nat} (hi : i < n) (hf : f i = false)
    (hg : ∀ j, g j = (decide (j = i) || f j)) :
    zeros g n + 1 = zeros f n := by
  have hsplit :
      (Finset.range n).filter (fun j => f j = false) =
        insert i ((Finset.range n).filter (fun j => g j = false)) := by
    ext j
    simp only [Finset.mem_filter, Finset.mem_insert, hg j]
    by_cases hji : j = i
    · subst hji
      simp [hi, hf]
    · simp [hji]
  have hnot :
      i ∉ (Finset.range n).filter (fun j => g j = false) := by
    simp [hg i]
  unfold zeros
  rw [hsplit, Finset.card_insert_of_notMem hnot]

theorem zeros_clear {n i : Nat} (hi : i < n) (hf : f i = true)
    (hg : ∀ j, g j = (!decide (j = i) && f j)) :
    zeros g n = zeros f n + 1 := by
  refine (zeros_set hi ?_ ?_).symm
  · simp [hg i]
  · intro j
    by_cases hji : j = i
    · subst hji
      simp [hf]
    · simp [hg j, hji]

end Counting

section Scan

/-- The first clear bit below `n`, as a loop over bit numbers finds it. -/
def firstZero (bits : Nat → Bool) (n : Nat) : Option Nat :=
  (List.range n).find? (fun i => !bits i)

variable {bits : Nat → Bool}

theorem firstZero_some {n i : Nat} (h : firstZero bits n = some i) :
    i < n ∧ bits i = false := by
  refine ⟨?_, ?_⟩
  · exact List.mem_range.mp (List.mem_of_find?_eq_some h)
  · simpa using List.find?_some h

theorem firstZero_least
    {n i j : Nat} (h : firstZero bits n = some i) (hj : j < i) :
    bits j = true := by
  have hbefore := (List.find?_range_eq_some.mp h).2.2 j hj
  simpa using hbefore

theorem firstZero_none {n : Nat} :
    firstZero bits n = none ↔ ∀ i, i < n → bits i = true := by
  unfold firstZero
  simp [List.find?_eq_none]

theorem firstZero_congr {f g : Nat → Bool} {n : Nat} (h : ∀ i, i < n → f i = g i) :
    firstZero f n = firstZero g n := by
  apply List.find?_congr
  intro i hi
  rw [h i (List.mem_range.mp hi)]

end Scan

end Bitmap
end Homunculos
