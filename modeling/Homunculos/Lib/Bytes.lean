import Mathlib

/-!
# Little-endian words in bytes

A run of bytes is a function from offsets.  A 32-bit word is four bytes, lowest
first; a record of words is laid out word after word.  Reading a word of a
record from its bytes gives the word back.

The second half is about records with fields of two and four bytes inside a
larger run: reading and writing a field as a number, copying a part of one run
into another, and looking at a part as a run of its own.
-/

namespace Homunculos
namespace Bytes

/-- Byte `i` of a word. -/
def byteAt (v : BitVec 32) (i : Nat) : BitVec 8 :=
  v.extractLsb' (8 * i) 8

/-- The word in the first four bytes. -/
def word (b : Nat → BitVec 8) : BitVec 32 :=
  b 3 ++ b 2 ++ b 1 ++ b 0

/-- The bytes of a record of words. -/
def wordsBytes (ws : List (BitVec 32)) (i : Nat) : BitVec 8 :=
  byteAt (ws.getD (i / 4) 0#32) (i % 4)

theorem word_congr {b b' : Nat → BitVec 8} (h : ∀ i, i < 4 → b i = b' i) :
    word b = word b' := by
  unfold word
  rw [h 0 (by decide), h 1 (by decide), h 2 (by decide), h 3 (by decide)]

theorem word_byteAt (v : BitVec 32) :
    word (byteAt v) = v := by
  apply BitVec.eq_of_getLsbD_eq
  intro i hi
  simp only [word, byteAt, BitVec.getLsbD_append, BitVec.getLsbD_extractLsb']
  by_cases h0 : i < 8
  · simp [h0]
  · by_cases h1 : i - 8 < 8
    · simp only [h0, h1, if_true, if_false, decide_true, Bool.true_and]
      congr 1
      omega
    · by_cases h2 : i - 8 - 8 < 8
      · simp only [h0, h1, h2, if_true, if_false, decide_true,
          Bool.true_and]
        congr 1
        omega
      · have h3 : i - 8 - 8 - 8 < 8 := by omega
        simp only [h0, h1, h2, h3, if_false, decide_true, Bool.true_and]
        congr 1
        omega

/-- Word `k` of a record, read from its bytes. -/
theorem word_wordsBytes (ws : List (BitVec 32)) (k : Nat) :
    word (fun j => wordsBytes ws (4 * k + j)) = ws.getD k 0#32 := by
  have hbytes : ∀ j, j < 4 →
      wordsBytes ws (4 * k + j) = byteAt (ws.getD k 0#32) j := by
    intro j hj
    unfold wordsBytes
    have hdiv : (4 * k + j) / 4 = k := by omega
    have hmod : (4 * k + j) % 4 = j := by omega
    rw [hdiv, hmod]
  rw [word_congr hbytes, word_byteAt]

section Fields

/-- The 16-bit number at offset `o`. -/
def u16 (m : Nat → BitVec 8) (o : Nat) : Nat :=
  (m o).toNat + 256 * (m (o + 1)).toNat

/-- The 32-bit number at offset `o`. -/
def u32 (m : Nat → BitVec 8) (o : Nat) : Nat :=
  u16 m o + 65536 * u16 m (o + 2)

/-- One byte is written at offset `o`. -/
def putU8 (m : Nat → BitVec 8) (o v : Nat) : Nat → BitVec 8 :=
  fun k => if k = o then BitVec.ofNat 8 v else m k

/-- A 16-bit number is written at offset `o`. -/
def putU16 (m : Nat → BitVec 8) (o v : Nat) : Nat → BitVec 8 :=
  fun k =>
    if k = o then BitVec.ofNat 8 v
    else if k = o + 1 then BitVec.ofNat 8 (v / 256)
    else m k

/-- A 32-bit number is written at offset `o`. -/
def putU32 (m : Nat → BitVec 8) (o v : Nat) : Nat → BitVec 8 :=
  putU16 (putU16 m o v) (o + 2) (v / 65536)

/-- The first `len` bytes of `src` are copied to offset `d`. -/
def copy (dst : Nat → BitVec 8) (d : Nat) (src : Nat → BitVec 8) (len : Nat) : Nat → BitVec 8 :=
  fun k => if d ≤ k ∧ k < d + len then src (k - d) else dst k

/-- The `len` bytes at offset `o`, as a run of their own. -/
def slice (m : Nat → BitVec 8) (o len : Nat) : Nat → BitVec 8 :=
  fun q => if q < len then m (o + q) else 0#8

variable {m m' : Nat → BitVec 8} {o o' : Nat}

theorem u16_lt (m : Nat → BitVec 8) (o : Nat) :
    u16 m o < 65536 := by
  unfold u16
  omega

theorem u32_lt (m : Nat → BitVec 8) (o : Nat) :
    u32 m o < 2 ^ 32 := by
  have h0 := u16_lt m o
  have h1 := u16_lt m (o + 2)
  unfold u32
  omega

theorem u16_congr (h : ∀ j, j < 2 → m (o + j) = m' (o + j)) :
    u16 m o = u16 m' o := by
  unfold u16
  rw [h 1 (by decide)]
  exact congrArg (fun b : BitVec 8 => b.toNat + _) (h 0 (by decide))

theorem u32_congr (h : ∀ j, j < 4 → m (o + j) = m' (o + j)) :
    u32 m o = u32 m' o := by
  have hlow : u16 m o = u16 m' o :=
    u16_congr (fun j hj => h j (by omega))
  have hhigh : u16 m (o + 2) = u16 m' (o + 2) := by
    apply u16_congr
    intro j hj
    rw [Nat.add_assoc]
    exact h (2 + j) (by omega)
  unfold u32
  rw [hlow, hhigh]

@[simp]
theorem u16_putU16_self (m : Nat → BitVec 8) (o v : Nat) :
    u16 (putU16 m o v) o = v % 65536 := by
  have hne : o + 1 ≠ o := by omega
  simp only [u16, putU16, if_true, if_neg hne, BitVec.toNat_ofNat]
  omega

variable {k v : Nat}

theorem putU16_of_ne (h0 : k ≠ o) (h1 : k ≠ o + 1) :
    putU16 m o v k = m k := by
  simp [putU16, h0, h1]

theorem u16_putU16_of_apart {v : Nat} (h : o' + 1 < o ∨ o + 1 < o') :
    u16 (putU16 m o v) o' = u16 m o' := by
  apply u16_congr
  intro j hj
  exact putU16_of_ne (by omega) (by omega)

@[simp]
theorem u32_putU32_self (m : Nat → BitVec 8) (o v : Nat) :
    u32 (putU32 m o v) o = v % 2 ^ 32 := by
  have hlow : u16 (putU32 m o v) o = v % 65536 := by
    unfold putU32
    rw [u16_putU16_of_apart (by omega), u16_putU16_self]
  have hhigh : u16 (putU32 m o v) (o + 2) = v / 65536 % 65536 :=
    u16_putU16_self _ _ _
  unfold u32
  omega

theorem putU32_of_apart (h : k < o ∨ o + 4 ≤ k) :
    putU32 m o v k = m k := by
  unfold putU32
  rw [putU16_of_ne (by omega) (by omega), putU16_of_ne (by omega) (by omega)]

theorem u32_putU32_of_apart {v : Nat} (h : o' + 4 ≤ o ∨ o + 4 ≤ o') :
    u32 (putU32 m o v) o' = u32 m o' := by
  apply u32_congr
  intro j hj
  exact putU32_of_apart (by omega)

theorem u32_putU16_of_apart {v : Nat} (h : o' + 4 ≤ o ∨ o + 2 ≤ o') :
    u32 (putU16 m o v) o' = u32 m o' := by
  apply u32_congr
  intro j hj
  exact putU16_of_ne (by omega) (by omega)

theorem putU8_self (m : Nat → BitVec 8) (o v : Nat) :
    putU8 m o v o = BitVec.ofNat 8 v :=
  if_pos rfl

theorem putU8_of_ne (h : k ≠ o) :
    putU8 m o v k = m k :=
  if_neg h

theorem putU16_congr (h : m k = m' k) :
    putU16 m o v k = putU16 m' o v k := by
  unfold putU16
  rw [h]

theorem putU32_congr (h : m k = m' k) :
    putU32 m o v k = putU32 m' o v k :=
  putU16_congr (putU16_congr h)

theorem copy_inside {dst src : Nat → BitVec 8} {d len k : Nat} (h0 : d ≤ k) (h1 : k < d + len) :
    copy dst d src len k = src (k - d) := by
  unfold copy
  rw [if_pos ⟨h0, h1⟩]

theorem copy_outside {dst src : Nat → BitVec 8} {d len k : Nat} (h : k < d ∨ d + len ≤ k) :
    copy dst d src len k = dst k := by
  unfold copy
  rw [if_neg (by omega)]

theorem copy_congr {dst dst' src : Nat → BitVec 8} {d len k : Nat} (h : dst k = dst' k) :
    copy dst d src len k = copy dst' d src len k := by
  unfold copy
  rw [h]

theorem slice_of_lt {len q : Nat} (h : q < len) :
    slice m o len q = m (o + q) := by
  unfold slice
  rw [if_pos h]

theorem slice_congr {len : Nat} (h : ∀ q, q < len → m (o + q) = m' (o' + q)) :
    slice m o len = slice m' o' len := by
  funext q
  unfold slice
  by_cases hq : q < len
  · rw [if_pos hq, if_pos hq, h q hq]
  · rw [if_neg hq, if_neg hq]

end Fields

end Bytes
end Homunculos
