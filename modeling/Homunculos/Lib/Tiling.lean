import Mathlib

/-!
# Tilings by records

A run of offsets is tiled by records of different lengths when each record
starts where the one before it ends and the last one ends at the end.  A scan
from record to record finds the first one that a visitor wants, and a record can
be replaced by others that tile the same offsets.
-/

namespace Homunculos
namespace Tiling

universe u v

section Tilings

variable {R : Type u} {γ : Type v} {record record' : Nat → R} {len : R → Nat} {visit : R → Option γ}

/-- The records from one offset to another. -/
inductive Tiled (record : Nat → R) (len : R → Nat) : Nat → Nat → List R → Prop
  | done (o : Nat) :
      Tiled record len o o []
  | step
      {o e : Nat}
      {rs : List R}
      (hpos : 0 < len (record o))
      (rest : Tiled record len (o + len (record o)) e rs) :
      Tiled record len o e (record o :: rs)

/-- The first record that the visitor wants, with its offset. -/
def firstHit (len : R → Nat) (visit : R → Option γ) : Nat → List R → Option (Nat × γ)
  | _, [] => none
  | o, r :: rs =>
    match visit r with
    | some x => some (o, x)
    | none => firstHit len visit (o + len r) rs

/-- Go from record to record up to `e`. The result is `none` at a record of length 0, where there
is no next record. -/
def scan (record : Nat → R) (len : R → Nat) (visit : R → Option γ)
    (e : Nat) : Nat → Nat → Option (Option (Nat × γ))
  | 0, _ => none
  | n + 1, o =>
    if e ≤ o then
      some none
    else if len (record o) = 0 then
      none
    else
      match visit (record o) with
      | some x => some (some (o, x))
      | none => scan record len visit e n (o + len (record o))

/-- Where the scan stands when it stops. -/
def stopAt (record : Nat → R) (len : R → Nat) (visit : R → Option γ) (e : Nat) : Nat → Nat → Nat
  | 0, o => o
  | n + 1, o =>
    if e ≤ o ∨ len (record o) = 0 then
      o
    else
      match visit (record o) with
      | some _ => o
      | none => stopAt record len visit e n (o + len (record o))

/-- The records from an offset on, up to `e` or to a record of length 0. -/
def tilesFrom (record : Nat → R) (len : R → Nat) (e : Nat) : Nat → Nat → List R
  | 0, _ => []
  | n + 1, o =>
    if e ≤ o ∨ len (record o) = 0 then
      []
    else
      record o :: tilesFrom record len e n (o + len (record o))

variable {rs : List R}

theorem Tiled.le {o e : Nat} (h : Tiled record len o e rs) :
    o ≤ e := by
  induction h with
  | done o => exact le_refl o
  | step hpos rest ih => omega

theorem Tiled.length_le {o e : Nat} (h : Tiled record len o e rs) :
    o + rs.length ≤ e := by
  induction h with
  | done o => simp
  | step hpos rest ih =>
    rw [List.length_cons]
    omega

theorem Tiled.append
    {o m e : Nat} {rs rs' : List R} (h : Tiled record len o m rs) (h' : Tiled record len m e rs') :
    Tiled record len o e (rs ++ rs') := by
  induction h with
  | done o => exact h'
  | step hpos rest ih => exact Tiled.step hpos (ih h')

theorem Tiled.congr {o e : Nat} (h : Tiled record len o e rs)
    (hsame : ∀ p, o ≤ p → record p ∈ rs → p + len (record p) ≤ e → record' p = record p) :
    Tiled record' len o e rs := by
  induction h with
  | done o => exact Tiled.done o
  | @step o e rs hpos rest ih =>
    have hhead := hsame o (le_refl o) List.mem_cons_self rest.le
    have htail := ih (fun p hp hmem => hsame p (by omega) (List.mem_cons_of_mem _ hmem))
    rw [← hhead] at hpos htail ⊢
    exact Tiled.step hpos htail

theorem firstHit_eq_none {o : Nat} :
    firstHit len visit o rs = none ↔ ∀ r ∈ rs, visit r = none := by
  induction rs generalizing o with
  | nil => simp [firstHit]
  | cons r rs ih =>
    cases hr : visit r with
    | some x => simp [firstHit, hr]
    | none => simp [firstHit, hr, ih]

theorem Tiled.of_firstHit {o e p : Nat} {x : γ} (h : Tiled record len o e rs)
    (hhit : firstHit len visit o rs = some (p, x)) :
    ∃ pre post, rs = pre ++ record p :: post ∧ visit (record p) = some x ∧
      Tiled record len o p pre ∧ (∀ r ∈ pre, visit r = none) ∧
      Tiled record len (p + len (record p)) e post := by
  induction h with
  | done o => simp [firstHit] at hhit
  | @step o e rs hpos rest ih =>
    rw [firstHit] at hhit
    cases hr : visit (record o) with
    | some y =>
      rw [hr] at hhit
      simp only [Option.some.injEq, Prod.mk.injEq] at hhit
      obtain ⟨rfl, rfl⟩ := hhit
      exact ⟨[], rs, rfl, hr, Tiled.done o, by simp, rest⟩
    | none =>
      rw [hr] at hhit
      obtain ⟨pre, post, hrs, hvisit, hpre, hskipped, hpost⟩ := ih hhit
      refine ⟨record o :: pre, post, ?_, hvisit, Tiled.step hpos hpre, ?_, hpost⟩
      · rw [hrs, List.cons_append]
      · exact List.forall_mem_cons.mpr ⟨hr, hskipped⟩

theorem Tiled.scan_eq
    {o e n : Nat} (h : Tiled record len o e rs) (hn : rs.length < n) :
    scan record len visit e n o = some (firstHit len visit o rs) := by
  induction h generalizing n with
  | done o =>
    obtain ⟨m, rfl⟩ : ∃ m, n = m + 1 := ⟨n - 1, by omega⟩
    rw [scan, if_pos (le_refl o)]
    rfl
  | @step o e rs hpos rest ih =>
    rw [List.length_cons] at hn
    obtain ⟨m, rfl⟩ : ∃ m, n = m + 1 := ⟨n - 1, by omega⟩
    have hle := rest.le
    rw [scan, if_neg (by omega), if_neg (by omega), firstHit]
    cases hr : visit (record o) with
    | some x => rfl
    | none => exact ih (by omega)

end Tilings

end Tiling
end Homunculos
