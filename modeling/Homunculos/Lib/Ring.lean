import Mathlib

/-!
# Ring buffers

A buffer of `cap` cells with a read position, a write position and a count.
The count is what makes the queue: its contents are the `count` cells from the
read position on, cyclically.  A push behind and a pop in front are the two
operations of a queue as long as the write position agrees with the count.
-/

namespace Homunculos

/-- A ring of `cap` cells. -/
structure Ring (α : Type) where
  buf : Nat → α
  readPos : Nat
  writePos : Nat
  count : Nat

namespace Ring

open Function

variable {α : Type} (cap : Nat)

/-- The queue a ring stands for. -/
def toList (r : Ring α) : List α :=
  (List.range r.count).map (fun i => r.buf ((r.readPos + i) % cap))

/-- Store at the write position and advance it. -/
def push (r : Ring α) (a : α) : Ring α where
  buf := update r.buf r.writePos a
  readPos := r.readPos
  writePos := (r.writePos + 1) % cap
  count := r.count + 1

/-- Advance the read position. -/
def pop (r : Ring α) : Ring α where
  buf := r.buf
  readPos := (r.readPos + 1) % cap
  writePos := r.writePos
  count := r.count - 1

/-- The positions and the count agree. -/
structure Valid (r : Ring α) : Prop where
  count_le : r.count ≤ cap
  readPos_lt : r.readPos < cap
  writePos_eq : r.writePos = (r.readPos + r.count) % cap

variable {cap} {r : Ring α}

@[simp] theorem length_toList (r : Ring α) :
    (r.toList cap).length = r.count := by
  simp [toList]

theorem offset_ne {p i j : Nat} (hij : i < j) (hj : j < cap) :
    (p + i) % cap ≠ (p + j) % cap := by
  intro heq
  have hmod : i % cap = j % cap := Nat.ModEq.add_left_cancel' p heq
  rw [Nat.mod_eq_of_lt (hij.trans hj), Nat.mod_eq_of_lt hj] at hmod
  omega

theorem Valid.push (h : r.Valid cap) (hroom : r.count < cap) (a : α) :
    (r.push cap a).Valid cap := by
  refine ⟨hroom, h.readPos_lt, ?_⟩
  simp only [Ring.push]
  rw [h.writePos_eq, Nat.mod_add_mod, Nat.add_assoc]

theorem Valid.toList_push (h : r.Valid cap) (hroom : r.count < cap) (a : α) :
    (r.push cap a).toList cap = r.toList cap ++ [a] := by
  simp only [toList, Ring.push, List.range_succ, List.map_append, List.map_cons, List.map_nil]
  congr 1
  · apply List.map_congr_left
    intro i hi
    have hne := offset_ne (p := r.readPos) (List.mem_range.mp hi) hroom
    rw [← h.writePos_eq] at hne
    rw [update_of_ne hne]
  · rw [← h.writePos_eq, update_self]

theorem Valid.pop (h : r.Valid cap) (hsome : 0 < r.count) :
    (r.pop cap).Valid cap := by
  have hcap : 0 < cap := hsome.trans_le h.count_le
  refine ⟨?_, Nat.mod_lt _ hcap, ?_⟩
  · have hle := h.count_le
    simp only [Ring.pop]
    omega
  · simp only [Ring.pop]
    rw [h.writePos_eq, Nat.mod_add_mod]
    congr 1
    omega

theorem Valid.toList_pop (h : r.Valid cap) (hsome : 0 < r.count) :
    r.toList cap = r.buf r.readPos :: (r.pop cap).toList cap := by
  obtain ⟨n, hn⟩ := Nat.exists_eq_succ_of_ne_zero hsome.ne'
  simp only [toList, Ring.pop, hn, List.range_succ_eq_map, List.map_cons, List.map_map]
  congr 1
  · rw [Nat.add_zero, Nat.mod_eq_of_lt h.readPos_lt]
  · apply List.map_congr_left
    intro i _
    simp only [comp_apply, Nat.mod_add_mod]
    congr 2
    omega

end Ring
end Homunculos
