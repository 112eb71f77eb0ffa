import Mathlib

/-!
# The shift flag of the keyboard driver

`kbd_process_scancode` of `drivers/ps2/kbd.c`.  A bit map holds the keys that are down, from
their make and release codes; `kbd_shift` is one flag for both shift keys.  The release of one
of them clears it, whether the other one is down or not.
-/

namespace Homunculos
namespace Drivers

open Function

def kbdScanNormal : List Char :=
  "\x00\x1b1234567890-=\x08\tqwertyuiop[]\n\x00asdfghjkl;'`\x00\\zxcvbnm,./\x00*\x00 ".toList

def kbdScanShift : List Char :=
  "\x00\x1b!@#$%^&*()_+\x08\tQWERTYUIOP\x7b\x7d\n\x00ASDFGHJKL:\"~\x00|ZXCVBNM<>?\x00*\x00 ".toList

/-- The variables of the driver; the keys are the scancodes 0 to 127. -/
structure Kbd where
  buffer : Nat → Char
  head : Nat
  tail : Nat
  shift : Bool
  caps : Bool
  keyState : BitVec 7 → Bool

def kbdInit : Kbd := ⟨fun _ => '\x00', 0, 0, false, false, fun _ => false⟩

def kbdPush (k : Kbd) (c : Char) : Kbd :=
  let next := (k.head + 1) % 256
  if next ≠ k.tail then
    { k with buffer := update k.buffer k.head c, head := next }
  else
    k

/-- The table of characters in use. -/
def Kbd.table (k : Kbd) : List Char :=
  if k.shift then kbdScanShift else kbdScanNormal

def Kbd.char (k : Kbd) (key : BitVec 7) : Char :=
  let c := k.table.getD key.toNat '\x00'
  if 'a' ≤ c ∧ c ≤ 'z' ∧ k.caps then c.toUpper else c

def isShift (key : BitVec 7) : Bool :=
  key = 0x2A || key = 0x36

/-- `kbd_process_scancode`, and whether it sends `SIGINT` to the current task. -/
def kbdProcessScancode (k : Kbd) (scancode : BitVec 8) : Kbd × Bool :=
  let key := scancode.setWidth 7
  if scancode.msb then
    ({ k with
      keyState := update k.keyState key false
      shift := if isShift key then false else k.shift }, false)
  else if k.keyState key then
    (k, false)
  else
    let k := { k with keyState := update k.keyState key true }
    if key = 0x1D then
      (k, false)
    else if isShift key then
      ({ k with shift := true }, false)
    else if key = 0x3A then
      ({ k with caps := !k.caps }, false)
    else if k.keyState 0x1D ∧ key = 0x2E then
      (k, true)
    else if k.char key = '\x00' then
      (k, false)
    else
      (kbdPush k (k.char key), false)

/-- The driver after a sequence of scancodes. -/
def kbdRun (codes : List (BitVec 8)) : Kbd :=
  codes.foldl (fun k c => (kbdProcessScancode k c).1) kbdInit

/-- The keys that are held according to the codes. -/
def heldKeys (codes : List (BitVec 8)) : BitVec 7 → Bool :=
  codes.foldl (fun held c => update held (c.setWidth 7) (!c.msb)) (fun _ => false)

/-- One of the shift keys is held. -/
def shiftHeld (codes : List (BitVec 8)) : Bool :=
  heldKeys codes 0x2A || heldKeys codes 0x36

section Step

variable (k : Kbd) (c : BitVec 8)

theorem kbdPush_keeps (c : Char) :
    (kbdPush k c).keyState = k.keyState ∧ (kbdPush k c).shift = k.shift := by
  unfold kbdPush
  dsimp only
  split
  · exact ⟨rfl, rfl⟩
  · exact ⟨rfl, rfl⟩

theorem process_keys :
    (kbdProcessScancode k c).1.keyState = update k.keyState (c.setWidth 7) (!c.msb) ∧
      (kbdProcessScancode k c).1.shift =
        if isShift (c.setWidth 7) ∧ (c.msb ∨ k.keyState (c.setWidth 7) = false) then !c.msb
        else k.shift := by
  unfold kbdProcessScancode
  dsimp only
  generalize c.setWidth 7 = key
  cases c.msb with
  | true => simp
  | false =>
    cases hkey : k.keyState key with
    | true =>
      have hsame : update k.keyState key true = k.keyState := hkey ▸ update_eq_self ..
      simp [hsame]
    | false =>
      simp only [Bool.false_eq_true, Bool.not_false, or_true]
      by_cases hshift : isShift key
      · have hctrl : key ≠ 0x1D := by
          rintro rfl
          cases hshift
        simp only [hctrl, hshift, if_true, if_false, and_self]
      · simp only [hshift, Bool.false_eq_true, if_false]
        split
        · exact ⟨rfl, rfl⟩
        · split
          · exact ⟨rfl, rfl⟩
          · split
            · exact ⟨rfl, rfl⟩
            · split
              · exact ⟨rfl, rfl⟩
              · exact kbdPush_keeps _ _

end Step

section Runs

variable (codes : List (BitVec 8)) (c : BitVec 8)

theorem kbdRun_concat :
    kbdRun (codes ++ [c]) = (kbdProcessScancode (kbdRun codes) c).1 :=
  List.foldl_concat ..

theorem heldKeys_concat :
    heldKeys (codes ++ [c]) = update (heldKeys codes) (c.setWidth 7) (!c.msb) :=
  List.foldl_concat ..

theorem keyState_kbdRun :
    (kbdRun codes).keyState = heldKeys codes := by
  induction codes using List.reverseRecOn with
  | nil => rfl
  | append_singleton codes c ih => rw [kbdRun_concat, heldKeys_concat, (process_keys _ c).1, ih]

theorem release_iff : ∀ c : BitVec 8, (c = 0xAA ↔ c.msb = true ∧ c.setWidth 7 = 0x2A) ∧
    (c = 0xB6 ↔ c.msb = true ∧ c.setWidth 7 = 0x36) := by
  decide

/-- If the flag is right, the next code keeps it right unless it releases one shift key while
the other one is held. -/
theorem shift_step_iff (h : (kbdRun codes).shift = shiftHeld codes) :
    (kbdRun (codes ++ [c])).shift = shiftHeld (codes ++ [c]) ↔
      (c = 0xAA → heldKeys codes 0x36 = false) ∧ (c = 0xB6 → heldKeys codes 0x2A = false) := by
  rw [kbdRun_concat, (process_keys _ c).2, keyState_kbdRun, h, (release_iff c).1, (release_iff c).2]
  unfold shiftHeld
  rw [heldKeys_concat]
  generalize c.setWidth 7 = key, heldKeys codes = held
  by_cases hl : key = 0x2A#7
  · subst hl
    cases c.msb with
    | false => cases held 0x2A with
      | false => simp [isShift]
      | true => simp [isShift]
    | true => simp [isShift]
  · by_cases hr : key = 0x36#7
    · subst hr
      cases c.msb with
      | false => cases held 0x36 with
        | false => simp [isShift]
        | true => simp [isShift]
      | true => simp [isShift]
    · simp [isShift, hl, hr, update_of_ne (Ne.symm hl), update_of_ne (Ne.symm hr)]

/-- The flag and the table are right after every prefix of the codes exactly if no shift key is
released while the other one is held. -/
theorem shift_right_iff :
    (∀ pre, pre <+: codes → (kbdRun pre).shift = shiftHeld pre ∧
      (kbdRun pre).table = if shiftHeld pre then kbdScanShift else kbdScanNormal) ↔
      ∀ pre c, pre ++ [c] <+: codes →
        (c = 0xAA → heldKeys pre 0x36 = false) ∧ (c = 0xB6 → heldKeys pre 0x2A = false) := by
  constructor
  · intro h pre c hpre
    apply (shift_step_iff pre c (h pre ((List.prefix_append pre [c]).trans hpre)).1).mp
    exact (h _ hpre).1
  · intro h pre hpre
    have hshift : (kbdRun pre).shift = shiftHeld pre := by
      induction pre using List.reverseRecOn with
      | nil => rfl
      | append_singleton pre c ih =>
        exact (shift_step_iff pre c (ih ((List.prefix_append pre [c]).trans hpre))).mpr
          (h pre c hpre)
    refine ⟨hshift, ?_⟩
    unfold Kbd.table
    rw [hshift]

/-- Both shift keys are pressed and the left one is released. -/
theorem shift_lost :
    (kbdRun [0x2A, 0x36, 0xAA]).shift = false ∧ heldKeys [0x2A, 0x36, 0xAA] 0x36 = true := by
  decide

end Runs

end Drivers
end Homunculos
