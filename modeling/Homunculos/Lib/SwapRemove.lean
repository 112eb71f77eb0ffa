import Mathlib.Data.List.Basic
import Mathlib.Data.List.Perm.Basic

/-!
# Removing from an unordered table

The last element of the table takes the place of the one that is removed.
-/

namespace Homunculos
namespace SwapRemove

universe u

variable {α : Type u} {l : List α} {i : Nat}

/-- `table[i] = table[count - 1]; count--` -/
def swapRemove (l : List α) (i : Nat) : List α :=
  match l.getLast? with
  | none => []
  | some x => (l.set i x).dropLast

theorem swapRemove_concat (l : List α) (x : α) (i : Nat) :
    swapRemove (l ++ [x]) i = l.set i x := by
  have hlast : (l ++ [x]).getLast? = some x := List.getLast?_concat
  unfold swapRemove
  rw [hlast]
  dsimp only
  rw [List.set_append]
  split
  · exact List.dropLast_concat
  · rename_i hi
    rw [List.set_eq_of_length_le (Nat.not_lt.mp hi)]
    cases i - l.length with
    | zero => exact List.dropLast_concat
    | succ j => exact List.dropLast_concat

theorem swapRemove_perm (hi : i < l.length) : l.Perm (l[i] :: swapRemove l i) := by
  rcases List.eq_nil_or_concat' l with rfl | ⟨l, x, rfl⟩
  · cases hi
  · rw [swapRemove_concat]
    have hfront : (l ++ [x]).Perm (x :: l) := List.perm_append_singleton x l
    by_cases hin : i < l.length
    · -- the element at `i` comes out and `x` takes its place
      have hset : (l.set i x).Perm (x :: l.eraseIdx i) := by
        rw [List.set_eq_take_append_cons_drop, if_pos hin, List.eraseIdx_eq_take_drop_succ]
        exact List.perm_middle
      have hout : (x :: l).Perm (x :: l[i] :: l.eraseIdx i) :=
        (List.getElem_cons_eraseIdx_perm hin).symm.cons x
      rw [List.getElem_append_left hin]
      exact ((hfront.trans hout).trans (List.Perm.swap _ _ _)).trans (hset.symm.cons _)
    · have hlen : i = l.length := by
        rw [List.length_append, List.length_singleton] at hi
        omega
      subst hlen
      rw [List.set_eq_of_length_le (Nat.le_refl _), List.getElem_concat_length rfl]
      exact hfront

end SwapRemove
end Homunculos
