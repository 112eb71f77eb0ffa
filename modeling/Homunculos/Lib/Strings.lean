import Homunculos.Lib.Bytes

/-!
# Strings and arrays of words in memory

A C string in a run of bytes is a list of bytes without a zero, followed by a
zero.  Reading it goes byte by byte to the zero; `none` when the bytes that may
be looked at hold none.  An array of words is written word after word, upwards,
or pushed on a stack, downwards.
-/

namespace Homunculos
namespace Bytes

/-- The list and a zero byte stand at offset `a`. -/
def HoldsString (m : Nat → BitVec 8) (a : Nat) (s : List (BitVec 8)) : Prop :=
  ∀ i, i ≤ s.length → m (a + i) = s.getD i 0#8

/-- The bytes from `a` to the next zero, looking at `n` bytes. -/
def readString (m : Nat → BitVec 8) : Nat → Nat → Option (List (BitVec 8))
  | 0, _ => none
  | n + 1, a => if m a = 0#8 then some [] else (readString m n (a + 1)).map (fun s => m a :: s)

/-- The loop `while (s[len]) len++` from address `a`, looking at `n` bytes. -/
def stringLen (m : Nat → BitVec 8) : Nat → Nat → Option Nat
  | 0, _ => none
  | n + 1, a => if m a = 0#8 then some 0 else (stringLen m n (a + 1)).map (fun len => len + 1)

/-- Words are written one after the other from offset `a` on. -/
def putWords (m : Nat → BitVec 8) : Nat → List Nat → Nat → BitVec 8
  | _, [] => m
  | a, v :: vs => putWords (putU32 m a v) (a + 4) vs

/-- `*(--sp) = v` -/
def pushWord (x : (Nat → BitVec 8) × Nat) (v : Nat) : (Nat → BitVec 8) × Nat :=
  (putU32 x.1 (x.2 - 4) v, x.2 - 4)

/-- Words are pushed one after the other. -/
def pushWords (x : (Nat → BitVec 8) × Nat) (vs : List Nat) : (Nat → BitVec 8) × Nat :=
  vs.foldl pushWord x

/-- The words stand one after the other from offset `a` on. -/
def HoldsWords (m : Nat → BitVec 8) (a : Nat) (vs : List Nat) : Prop :=
  ∀ i v, vs[i]? = some v → u32 m (a + 4 * i) = v

section Strings

variable {m m' : Nat → BitVec 8} {a n : Nat} {s : List (BitVec 8)}

theorem HoldsString.head {b : BitVec 8} (h : HoldsString m a (b :: s)) :
    m a = b :=
  h 0 (Nat.zero_le _)

theorem HoldsString.tail {b : BitVec 8} (h : HoldsString m a (b :: s)) :
    HoldsString m (a + 1) s := by
  intro i hi
  have hbyte := h (i + 1) (by simpa using hi)
  rw [Nat.add_right_comm, Nat.add_assoc]
  simpa using hbyte

theorem HoldsString.congr
    {a' : Nat} (h : HoldsString m a s) (heq : ∀ i, i ≤ s.length → m' (a' + i) = m (a + i)) :
    HoldsString m' a' s := by
  intro i hi
  rw [heq i hi, h i hi]

theorem readString_eq (h : HoldsString m a s) (hzero : 0#8 ∉ s) (hn : s.length < n) :
    readString m n a = some s := by
  induction s generalizing a n with
  | nil =>
    obtain ⟨n, rfl⟩ := Nat.exists_eq_succ_of_ne_zero (Nat.ne_of_gt hn)
    have hbyte : m a = 0#8 := h 0 (Nat.zero_le _)
    rw [readString, if_pos hbyte]
  | cons b s ih =>
    rw [List.length_cons] at hn
    obtain ⟨n, rfl⟩ := Nat.exists_eq_succ_of_ne_zero (Nat.ne_of_gt (Nat.zero_lt_of_lt hn))
    have hb : b ≠ 0#8 := fun hb => hzero (hb ▸ List.mem_cons_self)
    have hs : 0#8 ∉ s := fun hs => hzero (List.mem_cons_of_mem _ hs)
    rw [readString, h.head, if_neg hb, ih h.tail hs (by omega)]
    rfl

theorem stringLen_eq_map (m : Nat → BitVec 8) (n a : Nat) :
    stringLen m n a = (readString m n a).map List.length := by
  induction n generalizing a with
  | zero => rfl
  | succ n ih =>
    rw [stringLen, readString]
    split
    · rfl
    · rw [ih (a + 1), Option.map_map, Option.map_map]
      rfl

theorem stringLen_eq (h : HoldsString m a s) (hzero : 0#8 ∉ s) (hn : s.length < n) :
    stringLen m n a = some s.length := by
  rw [stringLen_eq_map, readString_eq h hzero hn]
  rfl

end Strings

section Words

variable {m : Nat → BitVec 8} {a k : Nat} {vs : List Nat}

theorem putWords_of_apart (h : k < a ∨ a + 4 * vs.length ≤ k) :
    putWords m a vs k = m k := by
  induction vs generalizing m a with
  | nil => rfl
  | cons v vs ih =>
    rw [List.length_cons] at h
    rw [putWords, ih (by omega), putU32_of_apart (by omega)]

theorem u32_putWords_of_apart (h : k + 4 ≤ a ∨ a + 4 * vs.length ≤ k) :
    u32 (putWords m a vs) k = u32 m k := by
  apply u32_congr
  intro j hj
  exact putWords_of_apart (by omega)

theorem HoldsWords.head {v : Nat} (h : HoldsWords m a (v :: vs)) :
    u32 m a = v :=
  h 0 v rfl

theorem HoldsWords.tail {v : Nat} (h : HoldsWords m a (v :: vs)) :
    HoldsWords m (a + 4) vs := by
  intro i w hw
  have hword := h (i + 1) w (by simpa using hw)
  rw [← hword]
  congr 1
  omega

theorem HoldsWords.congr {m' : Nat → BitVec 8} (h : HoldsWords m a vs)
    (heq : ∀ k, a ≤ k → k < a + 4 * vs.length → m' k = m k) :
    HoldsWords m' a vs := by
  intro i v hv
  have hi := List.getElem?_eq_some_iff.mp hv |>.1
  rw [← h i v hv]
  exact u32_congr (fun j hj => heq _ (by omega) (by omega))

theorem holdsWords_putWords (m : Nat → BitVec 8) (a : Nat) (hlt : ∀ v ∈ vs, v < 2 ^ 32) :
    HoldsWords (putWords m a vs) a vs := by
  induction vs generalizing m a with
  | nil =>
    intro i v hv
    cases hv
  | cons w vs ih =>
    intro i v hv
    rw [putWords]
    cases i with
    | zero =>
      have hw : w = v := by simpa using hv
      rw [u32_putWords_of_apart (by omega), Nat.add_zero, u32_putU32_self,
        Nat.mod_eq_of_lt (hlt w List.mem_cons_self), hw]
    | succ i =>
      have hstep := ih (putU32 m a w) (a + 4)
        (fun v hv => hlt v (List.mem_cons_of_mem _ hv)) i v (by simpa using hv)
      rw [← hstep]
      congr 1
      omega

theorem HoldsWords.map_range {ws : List Nat} (h : HoldsWords m a (vs ++ ws)) :
    (List.range vs.length).map (fun i => u32 m (a + 4 * i)) = vs := by
  apply List.ext_getElem
  · simp
  · intro i hi hi'
    rw [List.getElem_map, List.getElem_range]
    apply h i
    rw [List.getElem?_append_left hi', List.getElem?_eq_getElem hi']

theorem HoldsWords.cons {v : Nat} (hhead : u32 m a = v) (htail : HoldsWords m (a + 4) vs) :
    HoldsWords m a (v :: vs) := by
  intro i w hw
  cases i with
  | zero =>
    have hv : v = w := by simpa using hw
    rw [Nat.add_zero, hhead, hv]
  | succ i =>
    rw [← htail i w (by simpa using hw)]
    congr 1
    omega

/-- What was pushed last stands first, and the bytes outside of the stack are kept. -/
theorem pushWords_spec
    (m : Nat → BitVec 8) (sp : Nat) (hlt : ∀ v ∈ vs, v < 2 ^ 32) (hroom : 4 * vs.length ≤ sp) :
    (pushWords (m, sp) vs).2 = sp - 4 * vs.length ∧
      (∀ ws, HoldsWords m sp ws →
        HoldsWords (pushWords (m, sp) vs).1 (sp - 4 * vs.length) (vs.reverse ++ ws)) ∧
      ∀ k, k < sp - 4 * vs.length ∨ sp ≤ k → (pushWords (m, sp) vs).1 k = m k := by
  induction vs generalizing m sp with
  | nil => exact ⟨rfl, fun _ hws => hws, fun _ _ => rfl⟩
  | cons v vs ih =>
    rw [List.length_cons] at hroom ⊢
    have hv := hlt v List.mem_cons_self
    obtain ⟨hsp, hholds, hkept⟩ := ih (putU32 m (sp - 4) v) (sp - 4)
      (fun w hw => hlt w (List.mem_cons_of_mem _ hw)) (by omega)
    have hpush : pushWords (m, sp) (v :: vs) = pushWords (putU32 m (sp - 4) v, sp - 4) vs := rfl
    have hlow : sp - 4 - 4 * vs.length = sp - 4 * (vs.length + 1) := by omega
    rw [hpush]
    rw [hlow] at hsp hholds hkept
    refine ⟨hsp, ?_, ?_⟩
    · intro ws hws
      rw [List.reverse_cons, List.append_assoc]
      apply hholds
      refine HoldsWords.cons ?_ ?_
      · rw [u32_putU32_self, Nat.mod_eq_of_lt hv]
      · rw [show sp - 4 + 4 = sp by omega]
        apply hws.congr
        intro k hk _
        exact putU32_of_apart (by omega)
    · intro k hk
      rw [hkept k (by omega), putU32_of_apart (by omega)]

end Words

end Bytes
end Homunculos
