import Homunculos.Lib.Bytes

/-!
# Block devices

`block_read` and `block_write` of `kernel/block.c` over a device of 512-byte
sectors.  A device tells for each sector whether it can be read and written; a
transfer stops at the first sector that fails, with the sectors before it
done.
-/

namespace Homunculos
namespace Block

open Bytes

/-- A registered device: its sectors, and which of them fail. -/
structure BlockDevice where
  data : Nat → Nat → BitVec 8
  readOk : Nat → Bool
  writeOk : Nat → Bool

/-- A sector is written. -/
def BlockDevice.setSector (dev : BlockDevice) (s : Nat) (bytes : Nat → BitVec 8) : BlockDevice :=
  { dev with data := Function.update dev.data s bytes }

/-- `lba + i` in 32 bits. -/
def sectorNo (lba i : Nat) : Nat :=
  (lba + i) % 2 ^ 32

/-- The loop of `block_read` from sector `i` on, with `n` sectors to go. -/
def blockReadLoop
    (dev : BlockDevice) (lba : Nat) : Nat → Nat → (Nat → BitVec 8) → Bool × (Nat → BitVec 8)
  | _, 0, buf => (true, buf)
  | i, n + 1, buf =>
    if dev.readOk (sectorNo lba i) then
      blockReadLoop dev lba (i + 1) n
        (copy buf (512 * i) (dev.data (sectorNo lba i)) 512)
    else
      (false, buf)

/-- `block_read`: whether it succeeds, and the buffer. -/
def blockRead (dev : BlockDevice) (lba count : Nat)
    (buf : Nat → BitVec 8) : Bool × (Nat → BitVec 8) :=
  blockReadLoop dev lba 0 count buf

/-- The loop of `block_write` from sector `i` on, with `n` sectors to go. -/
def blockWriteLoop (lba : Nat) (buf : Nat → BitVec 8) : Nat → Nat → BlockDevice → Bool × BlockDevice
  | _, 0, dev => (true, dev)
  | i, n + 1, dev =>
    if dev.writeOk (sectorNo lba i) then
      blockWriteLoop lba buf (i + 1) n
        (dev.setSector (sectorNo lba i) (fun j => buf (512 * i + j)))
    else
      (false, dev)

/-- `block_write`: whether it succeeds, and the device. -/
def blockWrite (dev : BlockDevice) (lba count : Nat) (buf : Nat → BitVec 8) : Bool × BlockDevice :=
  blockWriteLoop lba buf 0 count dev

/-- No sector fails. -/
structure BlockDevice.Healthy (dev : BlockDevice) : Prop where
  read : ∀ s, dev.readOk s = true
  write : ∀ s, dev.writeOk s = true

section Read

variable {dev : BlockDevice} {lba : Nat} {buf : Nat → BitVec 8}

theorem blockReadLoop_done {i n : Nat} (h : (blockReadLoop dev lba i n buf).1 = true) (k : Nat) :
    (blockReadLoop dev lba i n buf).2 k =
      if 512 * i ≤ k ∧ k < 512 * (i + n) then
        dev.data (sectorNo lba (k / 512)) (k % 512)
      else
        buf k := by
  induction n generalizing i buf with
  | zero =>
    rw [if_neg (by omega)]
    rfl
  | succ n ih =>
    unfold blockReadLoop at h ⊢
    by_cases hok : dev.readOk (sectorNo lba i) = true
    · rw [if_pos hok] at h ⊢
      rw [ih h]
      by_cases hlater : 512 * (i + 1) ≤ k ∧ k < 512 * (i + 1 + n)
      · rw [if_pos hlater, if_pos (by omega)]
      · rw [if_neg hlater]
        by_cases hnow : 512 * i ≤ k ∧ k < 512 * (i + 1)
        · have hdiv : k / 512 = i := by omega
          have hmod : k - 512 * i = k % 512 := by omega
          rw [if_pos (by omega), copy_inside hnow.1 (by omega), hdiv, hmod]
        · rw [if_neg (by omega), copy_outside (by omega)]
    · rw [if_neg hok] at h
      cases h

theorem blockReadLoop_healthy (h : dev.Healthy) (i n : Nat) :
    (blockReadLoop dev lba i n buf).1 = true := by
  induction n generalizing i buf with
  | zero => rfl
  | succ n ih =>
    unfold blockReadLoop
    rw [if_pos (h.read _)]
    exact ih (i + 1)

end Read

section Write

variable {lba : Nat} {buf : Nat → BitVec 8}

theorem BlockDevice.Healthy.setSector
    {dev : BlockDevice} (h : dev.Healthy) (s : Nat) (bytes : Nat → BitVec 8) :
    (dev.setSector s bytes).Healthy :=
  ⟨h.read, h.write⟩

theorem blockWriteLoop_frame (lba : Nat) (buf : Nat → BitVec 8) (dev : BlockDevice) (i n : Nat) :
    (blockWriteLoop lba buf i n dev).2.readOk = dev.readOk ∧
      (blockWriteLoop lba buf i n dev).2.writeOk = dev.writeOk ∧
      ∀ s, (∀ j, i ≤ j → j < i + n → s ≠ sectorNo lba j) →
        (blockWriteLoop lba buf i n dev).2.data s = dev.data s := by
  induction n generalizing i dev with
  | zero => exact ⟨rfl, rfl, fun _ _ => rfl⟩
  | succ n ih =>
    unfold blockWriteLoop
    split
    · obtain ⟨hread, hwrite, hdata⟩ := ih
        (dev.setSector (sectorNo lba i) (fun j => buf (512 * i + j))) (i + 1)
      refine ⟨hread, hwrite, ?_⟩
      intro s hs
      rw [hdata s (fun j hj hj' => hs j (by omega) (by omega))]
      exact Function.update_of_ne (hs i (by omega) (by omega)) ..
    · exact ⟨rfl, rfl, fun _ _ => rfl⟩

theorem blockWriteLoop_done {dev : BlockDevice} {i n : Nat} (hfit : lba + (i + n) ≤ 2 ^ 32)
    (h : (blockWriteLoop lba buf i n dev).1 = true) {j : Nat} (hi : i ≤ j) (hj : j < i + n) :
    (blockWriteLoop lba buf i n dev).2.data (sectorNo lba j) =
      fun q => buf (512 * j + q) := by
  induction n generalizing i dev with
  | zero => omega
  | succ n ih =>
    unfold blockWriteLoop at h ⊢
    split at h
    next hok =>
      rw [if_pos hok]
      by_cases hji : j = i
      · subst hji
        have hlater : ∀ j', j + 1 ≤ j' → j' < j + 1 + n →
            sectorNo lba j ≠ sectorNo lba j' := by
          intro j' hj' hj''
          unfold sectorNo
          omega
        rw [(blockWriteLoop_frame _ _ _ (j + 1) n).2.2 _ hlater]
        exact Function.update_self ..
      · exact ih (by omega) h (by omega) (by omega)
    next =>
      cases h

theorem blockWriteLoop_healthy {dev : BlockDevice} (h : dev.Healthy) (i n : Nat) :
    (blockWriteLoop lba buf i n dev).1 = true := by
  induction n generalizing i dev with
  | zero => rfl
  | succ n ih =>
    unfold blockWriteLoop
    rw [if_pos (h.write _)]
    exact ih (h.setSector _ _) (i + 1)

end Write

end Block
end Homunculos
