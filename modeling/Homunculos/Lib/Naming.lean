import Mathlib

/-!
# Names in lists

A directory as a list of names with what they stand for.  A name may be in the list
more than once, and a search takes the first one.  An entry is put somewhere, or the
first entry of a name is taken out.
-/

namespace Homunculos
namespace Naming

universe u v

variable {ν : Type u} {ι : Type v}

/-- The entry `x` has come into the list. -/
def PutIn (x : ν × ι) (l l' : List (ν × ι)) : Prop :=
  ∃ pre post, l = pre ++ post ∧ l' = pre ++ x :: post

/-- The first entry of the name is out of the list. -/
def TakenOut (name : ν) (e : ι) (l l' : List (ν × ι)) : Prop :=
  ∃ pre post, l = pre ++ (name, e) :: post ∧ l' = pre ++ post ∧ ∀ x ∈ pre, x.1 ≠ name

section Put

variable {x : ν × ι} {l l' : List (ν × ι)}

theorem PutIn.perm (h : PutIn x l l') :
    l'.Perm (x :: l) := by
  obtain ⟨pre, post, rfl, rfl⟩ := h
  exact List.perm_middle

theorem PutIn.nodup
    (h : PutIn x l l') (hnodup : (l.map Prod.fst).Nodup) (hnew : x.1 ∉ l.map Prod.fst) :
    (l'.map Prod.fst).Nodup := by
  rw [(h.perm.map Prod.fst).nodup_iff, List.map_cons, List.nodup_cons]
  exact ⟨hnew, hnodup⟩

end Put

section Take

variable {name : ν} {e : ι} {l l' : List (ν × ι)}

theorem TakenOut.perm (h : TakenOut name e l l') :
    l.Perm ((name, e) :: l') := by
  obtain ⟨pre, post, rfl, rfl, -⟩ := h
  exact List.perm_middle

theorem TakenOut.nodup (h : TakenOut name e l l') (hnodup : (l.map Prod.fst).Nodup) :
    (l'.map Prod.fst).Nodup := by
  rw [(h.perm.map Prod.fst).nodup_iff, List.map_cons, List.nodup_cons] at hnodup
  exact hnodup.2

end Take

section Lookup

variable [BEq ν] [LawfulBEq ν] {name : ν} {e : ι} {l l' : List (ν × ι)}

theorem mem_of_lookup (h : l.lookup name = some e) :
    (name, e) ∈ l := by
  obtain ⟨pre, post, rfl, -⟩ := List.lookup_eq_some_iff.mp h
  exact List.mem_append_right _ List.mem_cons_self

theorem TakenOut.lookup_eq (h : TakenOut name e l l') :
    l.lookup name = some e := by
  obtain ⟨pre, post, rfl, -, hpre⟩ := h
  rw [List.lookup_eq_some_iff]
  refine ⟨pre, post, rfl, ?_⟩
  intro p hp
  have hne := hpre p hp
  simpa [bne_iff_ne] using Ne.symm hne

theorem lookup_eq_none :
    l.lookup name = none ↔ ∀ e, (name, e) ∉ l := by
  rw [List.lookup_eq_none_iff]
  constructor
  · intro h e he
    have hne := h _ he
    simp at hne
  · rintro h ⟨n, e⟩ hp
    have hne : name ≠ n := by
      rintro rfl
      exact h e hp
    simpa [bne_iff_ne] using hne

end Lookup

end Naming
end Homunculos
