import Mathlib.Data.List.Nodup
import Mathlib.Logic.Function.Basic

/-!
# Singly linked lists

Nodes with a `next` pointer each.  `Seg` says that following the pointers from
one place leads through a list of nodes to another; a whole list is a segment
that ends at the null pointer.  A walk along the pointers looks for the first
node that passes a test and needs as many steps as the list has nodes.
-/

namespace Homunculos
namespace Linked

variable {α : Type} {next : α → Option α}

/-- From `p` the pointers lead through the nodes of the list to `q`. -/
def Seg (next : α → Option α) : Option α → List α → Option α → Prop
  | p, [], q => p = q
  | p, x :: l, q => p = some x ∧ Seg next (next x) l q

/-- Follow the pointers to the first node that passes the test, in `n` steps. -/
def walk (next : α → Option α) (test : α → Bool) : Nat → Option α → Option (Option α)
  | _, none => some none
  | 0, some _ => none
  | n + 1, some x =>
    if test x then
      some (some x)
    else
      walk next test n (next x)

section Segments

variable {p q : Option α} {x : α} {l l1 l2 : List α}

theorem seg_append :
    Seg next p (l1 ++ l2) q ↔
      ∃ m, Seg next p l1 m ∧ Seg next m l2 q := by
  induction l1 generalizing p with
  | nil =>
    constructor
    · intro h
      exact ⟨p, rfl, h⟩
    · rintro ⟨m, rfl, h⟩
      exact h
  | cons y l1 ih =>
    constructor
    · rintro ⟨hp, h⟩
      obtain ⟨m, hfirst, hrest⟩ := ih.mp h
      exact ⟨m, ⟨hp, hfirst⟩, hrest⟩
    · rintro ⟨m, ⟨hp, hfirst⟩, hrest⟩
      exact ⟨hp, ih.mpr ⟨m, hfirst, hrest⟩⟩

theorem Seg.congr {next' : α → Option α} (h : Seg next p l q) (hsame : ∀ y ∈ l, next' y = next y) :
    Seg next' p l q := by
  induction l generalizing p with
  | nil => exact h
  | cons y l ih =>
    refine ⟨h.1, ?_⟩
    rw [hsame y List.mem_cons_self]
    exact ih h.2 (fun z hz => hsame z (List.mem_cons_of_mem _ hz))

theorem Seg.head?_eq (h : Seg next p l none) :
    l.head? = p := by
  cases l with
  | nil => exact h.symm
  | cons y l => exact h.1.symm

theorem Seg.unique (h1 : Seg next p l1 none) (h2 : Seg next p l2 none) :
    l1 = l2 := by
  induction l1 generalizing p l2 with
  | nil =>
    cases l2 with
    | nil => rfl
    | cons y l2 =>
      rw [show p = none from h1] at h2
      cases h2.1
  | cons x l1 ih =>
    rw [h1.1] at h2
    cases l2 with
    | nil => cases h2
    | cons y l2 =>
      obtain rfl : x = y := Option.some.inj h2.1
      rw [ih h1.2 h2.2]

variable [DecidableEq α]

theorem Seg.update {y : α} (h : Seg next p l q) (hy : y ∉ l) (r : Option α) :
    Seg (Function.update next y r) p l q := by
  apply h.congr
  intro z hz
  have hne : z ≠ y := fun heq => hy (heq ▸ hz)
  exact Function.update_of_ne hne _ _

theorem Seg.update_last (h : Seg next p (l ++ [x]) q) (hx : x ∉ l) (r : Option α) :
    Seg (Function.update next x r) p (l ++ [x]) r := by
  obtain ⟨m, hfirst, hlast⟩ := seg_append.mp h
  refine seg_append.mpr ⟨m, hfirst.update hx r, hlast.1, ?_⟩
  exact Function.update_self ..

end Segments

section Walk

variable {p : Option α} {l : List α}

theorem Seg.walk_eq {test : α → Bool} {n : Nat} (h : Seg next p l none) (hn : l.length ≤ n) :
    walk next test n p = some (l.find? test) := by
  induction l generalizing p n with
  | nil =>
    rw [show p = none from h]
    cases n with
    | zero => rfl
    | succ n => rfl
  | cons x l ih =>
    rw [h.1]
    cases n with
    | zero => simp at hn
    | succ n =>
      rw [walk, List.find?_cons]
      cases htest : test x with
      | true => rfl
      | false => exact ih h.2 (by simpa using hn)

end Walk

section Predecessor

variable [DecidableEq α] {p : Option α} {a b : List α} {x y : α}

/-- The node before `y` is the first one that points to `y`. -/
theorem Seg.find?_pred
    (h : Seg next p (a ++ x :: y :: b) none) (hnodup : (a ++ x :: y :: b).Nodup) :
    (a ++ x :: y :: b).find? (fun z => decide (next z = some y)) = some x := by
  induction a generalizing p with
  | nil =>
    have hx : next x = some y := h.2.1
    simp [hx]
  | cons z a ih =>
    obtain ⟨_, hrest⟩ := h
    rw [List.cons_append, List.nodup_cons] at hnodup
    have hz : next z ≠ some y := by
      intro hzy
      cases a with
      | nil =>
        have hx : next z = some x := hrest.1
        have hxy : x = y := Option.some.inj (hx.symm.trans hzy)
        have hnot := (List.nodup_cons.mp hnodup.2).1
        exact hnot (hxy ▸ List.mem_cons_self)
      | cons w a =>
        have hw : next z = some w := hrest.1
        have hwy : w = y := Option.some.inj (hw.symm.trans hzy)
        have hnot := (List.nodup_cons.mp hnodup.2).1
        apply hnot
        rw [hwy]
        simp
    rw [List.cons_append, List.find?_cons]
    simp only [hz]
    exact ih hrest hnodup.2

end Predecessor

end Linked
end Homunculos
