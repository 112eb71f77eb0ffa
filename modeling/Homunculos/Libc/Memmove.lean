import Mathlib

/-!
# `memmove`

The string instructions advance both pointers, and `memmove` returns the advanced one.
-/

namespace Homunculos
namespace Libc

abbrev Memory := BitVec 32 → BitVec 8

/-- What the string instructions change -/
structure Moving where
  mem : Memory
  esi : BitVec 32
  edi : BitVec 32

/-- `movsb` or `movsd`: `n` bytes are read, and then written. -/
def Moving.movs (s : Moving) (n : Nat) : Moving where
  mem a := if (a - s.edi).toNat < n then s.mem (s.esi + (a - s.edi)) else s.mem a
  esi := s.esi + BitVec.ofNat 32 n
  edi := s.edi + BitVec.ofNat 32 n

/-- The instruction with `rep` and the count `k` -/
def Moving.rep (s : Moving) (n : Nat) : Nat → Moving
  | 0 => s
  | k + 1 => (s.movs n).rep n k

def memmove (mem : Memory) (dstPtr srcPtr len : BitVec 32) : Memory × BitVec 32 :=
  let s : Moving := ⟨mem, srcPtr, dstPtr⟩
  let s :=
    if srcPtr % 4#32 = 0#32 ∧ dstPtr % 4#32 = 0#32 then
      (s.rep 4 (len >>> 2).toNat).rep 1 (len &&& 3#32).toNat
    else
      s.rep 1 len.toNat
  (s.mem, s.edi)

section Moves

variable (mem : Memory) (dst src len : BitVec 32)

/-- The bytes are moved and the rest stays. -/
structure Copies : Prop where
  moved : ∀ i, i < len → (memmove mem dst src len).1 (dst + i) = mem (src + i)
  frame : ∀ a, (∀ i, i < len → a ≠ dst + i) → (memmove mem dst src len).1 a = mem a

/-- The result is the destination, too. -/
structure Moves : Prop extends Copies mem dst src len where
  result : (memmove mem dst src len).2 = dst

/-- The first `m` bytes have been moved. -/
structure Moved (m : Nat) (s : Moving) : Prop where
  esi : s.esi = src + BitVec.ofNat 32 m
  edi : s.edi = dst + BitVec.ofNat 32 m
  mem : ∀ y, s.mem (dst + y) = if y.toNat < m then mem (src + y) else mem (dst + y)

variable {mem dst src len} {s : Moving} {m n k : Nat}

theorem toNat_sub_ofNat_lt_iff (y : BitVec 32) (h : m + n < 2 ^ 32) :
    (y - BitVec.ofNat 32 m).toNat < n ↔ m ≤ y.toNat ∧ y.toNat < m + n := by
  rw [BitVec.toNat_sub, BitVec.toNat_ofNat]
  omega

theorem le_toNat_sub {y d : BitVec 32} (hm : m ≤ y.toNat) (hd : y.toNat < d.toNat) :
    m ≤ (y - d).toNat := by
  rw [BitVec.toNat_sub]
  omega

/-- What is read has not been written if the destination does not start inside the source. -/
theorem Moved.movs (h : Moved mem dst src m s) (hapart : dst = src ∨ len ≤ dst - src)
    (hlen : m + n ≤ len.toNat) :
    Moved mem dst src (m + n) (s.movs n) := by
  refine ⟨?_, ?_, ?_⟩
  · rw [Moving.movs, h.esi, BitVec.add_assoc, ← BitVec.ofNat_add]
  · rw [Moving.movs, h.edi, BitVec.add_assoc, ← BitVec.ofNat_add]
  intro y
  have hoff : dst + y - s.edi = y - BitVec.ofNat 32 m := by
    rw [h.edi]
    abel
  have hfrom : s.esi + (y - BitVec.ofNat 32 m) = dst + (y - (dst - src)) := by
    rw [h.esi]
    abel
  have hsource : dst + (y - (dst - src)) = src + y := by
    abel
  have hin := toNat_sub_ofNat_lt_iff y (show m + n < 2 ^ 32 by have := len.isLt; omega)
  simp only [Moving.movs, hoff, hfrom, h.mem, hin]
  by_cases hy : m ≤ y.toNat ∧ y.toNat < m + n
  · rw [if_pos hy, if_pos hy.2, hsource]
    rcases hapart with rfl | hle
    · simp
    · have hlt : y.toNat < (dst - src).toNat :=
        (hy.2.trans_le hlen).trans_le (BitVec.le_def.mp hle)
      exact if_neg (Nat.not_lt.mpr (le_toNat_sub hy.1 hlt))
  · rw [if_neg hy]
    split_ifs <;> first | rfl | omega

theorem Moved.rep (h : Moved mem dst src m s) (hapart : dst = src ∨ len ≤ dst - src)
    (hlen : m + n * k ≤ len.toNat) :
    Moved mem dst src (m + n * k) (s.rep n k) := by
  induction k generalizing m s with
  | zero => exact h
  | succ k ih =>
    rw [Nat.mul_succ] at hlen ⊢
    rw [Moving.rep, Nat.add_comm (n * k), ← Nat.add_assoc]
    exact ih (h.movs hapart (by omega)) (by omega)

theorem words_add_rest (len : BitVec 32) :
    4 * (len >>> 2).toNat + 1 * (len &&& 3#32).toNat = len.toNat := by
  rw [BitVec.toNat_ushiftRight, Nat.shiftRight_eq_div_pow, BitVec.toNat_and,
    show (3#32).toNat = 2 ^ 2 - 1 from rfl, Nat.and_two_pow_sub_one_eq_mod]
  omega

theorem memmove_copies (hapart : dst = src ∨ len ≤ dst - src) :
    Copies mem dst src len := by
  have hmoved : ∀ y, (memmove mem dst src len).1 (dst + y) =
      if y < len then mem (src + y) else mem (dst + y) := by
    have hwords := words_add_rest len
    have hstart : Moved mem dst src 0 ⟨mem, src, dst⟩ := ⟨by simp, by simp, by simp⟩
    unfold memmove
    dsimp only
    split
    · have hall := (hstart.rep hapart (n := 4) (k := (len >>> 2).toNat) (by omega)).rep hapart
        (n := 1) (k := (len &&& 3#32).toNat) (by omega)
      rw [Nat.zero_add, hwords] at hall
      exact hall.mem
    · have hall := hstart.rep hapart (n := 1) (k := len.toNat) (by omega)
      rw [Nat.zero_add, Nat.one_mul] at hall
      exact hall.mem
  refine ⟨fun i hi => (hmoved i).trans (if_pos hi), fun a ha => ?_⟩
  have hout : ¬ a - dst < len := fun hin => ha _ hin (by abel)
  have hback : dst + (a - dst) = a := by abel
  have hframe := (hmoved (a - dst)).trans (if_neg hout)
  rwa [hback] at hframe

theorem Moving.rep_zero (h : ∀ a, s.mem a = 0#8) (a : BitVec 32) :
    (s.rep n k).mem a = 0#8 := by
  induction k generalizing s with
  | zero => exact h a
  | succ k ih =>
    refine ih fun b => ?_
    unfold movs
    dsimp only
    split
    · exact h _
    · exact h _

/-- A memory with one byte, at the destination; it is written before it is read. -/
theorem Moving.rep_marked (hn : 0 < n) (hn' : n ≤ (dst - src).toNat) (hk : 0 < k) (a : BitVec 32) :
    ((⟨fun b => if b = dst then 1#8 else 0#8, src, dst⟩ : Moving).rep n k).mem a = 0#8 := by
  obtain ⟨k, rfl⟩ := Nat.exists_eq_succ_of_ne_zero hk.ne'
  refine Moving.rep_zero (s := Moving.movs _ n) (fun b => ?_) a
  unfold movs
  dsimp only
  split
  next hin =>
    refine if_neg fun heq => ?_
    rw [eq_sub_of_add_eq' heq] at hin
    omega
  next hout =>
    refine if_neg fun heq => ?_
    simp [heq, hn] at hout

theorem apart_of_copies (h : ∀ mem, Copies mem dst src len) :
    dst = src ∨ len ≤ dst - src := by
  by_contra hnot
  obtain ⟨hne, hlt⟩ := not_or.mp hnot
  have hlt : dst - src < len := BitVec.not_le.mp hlt
  have hpos : (dst - src).toNat ≠ 0 := by
    intro hzero
    exact hne (sub_eq_zero.mp (BitVec.eq_of_toNat_eq hzero))
  have hlen : (dst - src).toNat < len.toNat := hlt
  have hmoved := (h fun b => if b = dst then 1#8 else 0#8).moved (dst - src) hlt
  have hback : src + (dst - src) = dst := by abel
  rw [hback, if_pos rfl] at hmoved
  have hwords := words_add_rest len
  unfold memmove at hmoved
  dsimp only at hmoved
  split at hmoved
  next halign =>
    have hdiv : 4 ≤ (dst - src).toNat := by
      have hsrc : src.toNat % 4 = 0 := congrArg BitVec.toNat halign.1
      have hdst : dst.toNat % 4 = 0 := congrArg BitVec.toNat halign.2
      rw [BitVec.toNat_sub] at hpos ⊢
      omega
    have hrest : (len &&& 3#32).toNat < 4 := by
      rw [BitVec.toNat_and, show (3#32).toNat = 2 ^ 2 - 1 from rfl, Nat.and_two_pow_sub_one_eq_mod]
      omega
    rw [Moving.rep_zero (Moving.rep_marked (by decide) hdiv (by omega))] at hmoved
    cases hmoved
  next =>
    rw [Moving.rep_marked (by decide) (by omega) (by omega)] at hmoved
    cases hmoved

theorem Moving.edi_rep (s : Moving) (n k : Nat) :
    (s.rep n k).edi = s.edi + BitVec.ofNat 32 (n * k) := by
  induction k generalizing s with
  | zero => simp [rep]
  | succ k ih =>
    rw [rep, ih, movs, BitVec.add_assoc, ← BitVec.ofNat_add, Nat.mul_succ, Nat.add_comm]

theorem memmove_result (mem : Memory) (dst src len : BitVec 32) :
    (memmove mem dst src len).2 = dst + len := by
  unfold memmove
  dsimp only
  split
  · rw [Moving.edi_rep, Moving.edi_rep, BitVec.add_assoc, ← BitVec.ofNat_add, words_add_rest,
      BitVec.ofNat_toNat, BitVec.setWidth_eq]
  · rw [Moving.edi_rep, Nat.one_mul, BitVec.ofNat_toNat, BitVec.setWidth_eq]

/-- Whatever is in memory, the bytes are copied as they should exactly if the destination does not
start inside the source; but the result is the destination only if there are none. -/
theorem memmove_moves_iff (dst src len : BitVec 32) :
    ((∀ mem, Copies mem dst src len) ↔ dst = src ∨ len ≤ dst - src) ∧
      ∀ mem, Moves mem dst src len ↔ len = 0#32 := by
  refine ⟨⟨apart_of_copies, fun hapart mem => memmove_copies hapart⟩, fun mem => ⟨?_, ?_⟩⟩
  · intro h
    have hresult := (memmove_result mem dst src len).symm.trans h.result
    simpa using hresult
  · rintro rfl
    exact ⟨memmove_copies (Or.inr (BitVec.le_def.mpr (Nat.zero_le _))), by simp [memmove_result]⟩

end Moves

/-- Two bytes moved up by one: the first is written over the second before that is read, and the
result is the end of the destination. -/
theorem memmove_up_one :
    (memmove (BitVec.setWidth 8) 1#32 0#32 2#32).1 2#32 = 0#8 ∧
      (memmove (BitVec.setWidth 8) 1#32 0#32 2#32).2 = 3#32 ∧
      ¬ Moves (BitVec.setWidth 8) 1#32 0#32 2#32 := by
  refine ⟨by decide, by decide, fun h => ?_⟩
  have hresult := h.result
  revert hresult
  decide

end Libc
end Homunculos
