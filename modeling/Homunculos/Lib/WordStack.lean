import Mathlib.Data.BitVec
import Mathlib.Logic.Function.Basic

/-!
# A stack of words

Words of 32 bits on a stack that grows down, in a memory of words by their byte
address.  A push puts a word under those that are there; what is kept of the
memory above a pointer is kept of the stack.
-/

namespace Homunculos
namespace WordStack

open Function

abbrev Word := BitVec 32

/-- The address of word `i` above a pointer. -/
def wordAt (p : Word) (i : Nat) : Word :=
  p + BitVec.ofNat 32 (4 * i)

/-- The words stand in memory from the pointer on. -/
def Holds (mem : Word → Word) (p : Word) (ws : List Word) : Prop :=
  ∀ i w, ws[i]? = some w → mem (wordAt p i) = w

variable {mem mem' : Word → Word} {p : Word} {as ws : List Word} {w : Word}

theorem wordAt_zero (p : Word) :
    wordAt p 0 = p := by
  simp [wordAt]

theorem wordAt_add (p : Word) (i j : Nat) :
    wordAt (wordAt p i) j = wordAt p (i + j) := by
  unfold wordAt
  rw [Nat.mul_add, BitVec.ofNat_add, BitVec.add_assoc]

theorem wordAt_sub_four (p : Word) (i : Nat) :
    wordAt (p - 4#32) (i + 1) = wordAt p i := by
  unfold wordAt
  bv_omega

theorem sub_four_ne_wordAt (p : Word) {i : Nat} (hi : i < 2 ^ 29) :
    wordAt p i ≠ p - 4#32 := by
  unfold wordAt
  bv_omega

theorem Holds.push (h : Holds mem p ws) (hlen : ws.length < 2 ^ 29) (w : Word) :
    Holds (update mem (p - 4#32) w) (p - 4#32) (w :: ws) := by
  intro i x hx
  cases i with
  | zero =>
    rw [wordAt_zero, update_self]
    exact Option.some.inj hx
  | succ i =>
    rw [List.getElem?_cons_succ] at hx
    have hi : i < ws.length := (List.getElem?_eq_some_iff.mp hx).1
    rw [wordAt_sub_four, update_of_ne (sub_four_ne_wordAt p (by omega))]
    exact h i x hx

theorem Holds.head (h : Holds mem p (w :: ws)) :
    mem p = w := by
  have hzero := h 0 w rfl
  rwa [wordAt_zero] at hzero

theorem Holds.kept (h : Holds mem p (as ++ ws))
    (hmem : ∀ i, as.length ≤ i → i < as.length + ws.length → mem' (wordAt p i) = mem (wordAt p i)) :
    Holds mem' (wordAt p as.length) ws := by
  intro i w hw
  have hi : i < ws.length := (List.getElem?_eq_some_iff.mp hw).1
  rw [wordAt_add, hmem (as.length + i) (by omega) (by omega)]
  apply h
  rw [List.getElem?_append_right (by omega), Nat.add_sub_cancel_left]
  exact hw

theorem holds_nil (mem : Word → Word) (p : Word) :
    Holds mem p [] := by
  intro i w hw
  cases hw

end WordStack
end Homunculos
