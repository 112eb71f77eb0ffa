import Homunculos.Lib.Bitmap

/-!
# Physical frames and page-table words

The lower half of `arch/i386/mm.c`: the frame bitmap, the frame allocator and
the words stored in page directories and page tables.

The kernel identity-maps the first 16 MiB, so a pointer to a page-aligned
object is modelled by its frame number and physical memory is an array of
frames of 1024 words.  A directory or table entry keeps the frame number in
its upper twenty bits and the flags in its lower twelve.
-/

namespace Homunculos
namespace Mm

open Function

/-- `IDENT_PAGES`: the frames covered by the identity map and the bitmap. -/
def identPages : Nat := 4096

/-- `DIR_SIZE`: entries of one directory or table. -/
def dirSize : Nat := 1024

def mmPresent : BitVec 32 := 0x001#32

def mmRw : BitVec 32 := 0x002#32

def mmUser : BitVec 32 := 0x004#32

/-- The frame bitmap and the physical memory, by frame and word index. -/
structure State where
  frameBitmap : Bitmap.Words 32
  mem : Nat → Nat → BitVec 32

def bitmapTest (s : State) (frame : Nat) : Bool :=
  Bitmap.test s.frameBitmap frame

def bitmapSet (s : State) (frame : Nat) : State :=
  { s with frameBitmap := Bitmap.set s.frameBitmap frame }

def bitmapClear (s : State) (frame : Nat) : State :=
  { s with frameBitmap := Bitmap.clear s.frameBitmap frame }

/-- `mm_frame_alloc`: first clear bit of the bitmap; frame 0 is the null pointer. -/
def mmFrameAlloc (s : State) : Nat × State :=
  match Bitmap.firstZero (bitmapTest s) identPages with
  | some i => (i, bitmapSet s i)
  | none => (0, s)

def mmFrameFree (s : State) (frame : Nat) : State :=
  if frame < identPages then bitmapClear s frame else s

/-- Number of clear bits of the frame bitmap. -/
def freeFrames (s : State) : Nat :=
  Bitmap.zeros (bitmapTest s) identPages

/-- Store one word of a frame. -/
def setWord (s : State) (frame idx : Nat) (v : BitVec 32) : State :=
  { s with
    mem := update s.mem frame
      (update (s.mem frame) idx v) }

/-- `memcpy(dst, src, FRAME)` between two frames. -/
def copyFrame (s : State) (dst src : Nat) : State :=
  { s with mem := update s.mem dst (s.mem src) }

/-- `memset(frame, 0, FRAME)`. -/
def zeroFrame (s : State) (frame : Nat) : State :=
  { s with mem := update s.mem frame (fun _ => 0#32) }

/-- `entry & MM_PRESENT`. -/
def present (e : BitVec 32) : Bool :=
  e.getLsbD 0

/-- `entry & ~0xFFF` as a frame number. -/
def entryFrame (e : BitVec 32) : Nat :=
  e.toNat / 4096

/-- `entry & 0xFFF`. -/
def entryFlags (e : BitVec 32) : BitVec 32 :=
  e &&& 0xFFF#32

/-- `(uint32_t)frame | flags`. -/
def mkEntry (frame : Nat) (flags : BitVec 32) : BitVec 32 :=
  BitVec.ofNat 32 (frame * 4096) ||| flags

section Entries

theorem entryFlags_toNat (e : BitVec 32) :
    (entryFlags e).toNat = e.toNat % 4096 := by
  exact Nat.and_two_pow_sub_one_eq_mod e.toNat 12

theorem entryFlags_lt (e : BitVec 32) :
    (entryFlags e).toNat < 4096 := by
  rw [entryFlags_toNat]
  exact Nat.mod_lt _ (by decide)

variable {flags : BitVec 32} {frame : Nat}

theorem present_iff_odd (e : BitVec 32) :
    present e = decide (e.toNat % 2 = 1) := by
  unfold present
  rw [BitVec.getLsbD, Nat.testBit_zero]

variable (hframe : frame < identPages) (hflags : flags.toNat < 4096)
include hframe hflags

theorem mkEntry_toNat :
    (mkEntry frame flags).toNat = frame * 4096 + flags.toNat := by
  unfold identPages at hframe
  unfold mkEntry
  rw [BitVec.toNat_or, BitVec.toNat_ofNat,
    Nat.mod_eq_of_lt (by omega : frame * 4096 < 2 ^ 32)]
  have h := Nat.shiftLeft_add_eq_or_of_lt
    (i := 12) (b := flags.toNat) hflags frame
  rw [Nat.shiftLeft_eq] at h
  exact h.symm

theorem entryFrame_mkEntry :
    entryFrame (mkEntry frame flags) = frame := by
  unfold entryFrame
  rw [mkEntry_toNat hframe hflags]
  omega

theorem entryFlags_mkEntry :
    entryFlags (mkEntry frame flags) = flags := by
  apply BitVec.eq_of_toNat_eq
  rw [entryFlags_toNat, mkEntry_toNat hframe hflags]
  omega

theorem present_mkEntry :
    present (mkEntry frame flags) = present flags := by
  rw [present_iff_odd, present_iff_odd, mkEntry_toNat hframe hflags]
  congr 1
  apply propext
  omega

omit hframe hflags

theorem present_entryFlags (e : BitVec 32) :
    present (entryFlags e) = present e := by
  rw [present_iff_odd, present_iff_odd, entryFlags_toNat]
  congr 1
  apply propext
  omega

@[simp] theorem present_zero :
    present 0#32 = false := by
  decide

end Entries

section Frames

variable (s : State)

@[simp] theorem bitmapTest_setWord (frame idx f : Nat) (v : BitVec 32) :
    bitmapTest (setWord s frame idx v) f = bitmapTest s f := rfl

theorem freeFrames_setWord (frame idx : Nat) (v : BitVec 32) :
    freeFrames (setWord s frame idx v) = freeFrames s := rfl

@[simp] theorem bitmapTest_copyFrame (dst src f : Nat) :
    bitmapTest (copyFrame s dst src) f = bitmapTest s f := rfl

@[simp] theorem bitmapTest_zeroFrame (frame f : Nat) :
    bitmapTest (zeroFrame s frame) f = bitmapTest s f := rfl

@[simp] theorem bitmapTest_bitmapSet (frame f : Nat) :
    bitmapTest (bitmapSet s frame) f =
      (decide (f = frame) || bitmapTest s f) :=
  Bitmap.test_set (by decide) s.frameBitmap frame f

@[simp] theorem bitmapTest_bitmapClear (frame f : Nat) :
    bitmapTest (bitmapClear s frame) f =
      (!decide (f = frame) && bitmapTest s f) :=
  Bitmap.test_clear (by decide) s.frameBitmap frame f

@[simp] theorem mem_bitmapSet (frame : Nat) :
    (bitmapSet s frame).mem = s.mem := rfl

@[simp] theorem mem_mmFrameFree (frame : Nat) :
    (mmFrameFree s frame).mem = s.mem := by
  unfold mmFrameFree
  split
  · rfl
  · rfl

theorem bitmapTest_mmFrameFree {frame : Nat} (hframe : frame < identPages) (f : Nat) :
    bitmapTest (mmFrameFree s frame) f =
      (!decide (f = frame) && bitmapTest s f) := by
  unfold mmFrameFree
  rw [if_pos hframe, bitmapTest_bitmapClear]

theorem bitmapTest_mmFrameFree_of_ne {frame f : Nat} (hne : f ≠ frame) :
    bitmapTest (mmFrameFree s frame) f = bitmapTest s f := by
  unfold mmFrameFree
  split
  · simp [hne]
  · rfl

@[simp] theorem mem_setWord_self (frame idx : Nat) (v : BitVec 32) :
    (setWord s frame idx v).mem frame =
      update (s.mem frame) idx v := by
  simp [setWord]

theorem mem_setWord_of_ne {frame f : Nat} (idx : Nat) (v : BitVec 32) (hne : f ≠ frame) :
    (setWord s frame idx v).mem f = s.mem f := by
  simp [setWord, hne]

@[simp] theorem mem_copyFrame_self (dst src : Nat) :
    (copyFrame s dst src).mem dst = s.mem src := by
  simp [copyFrame]

theorem mem_copyFrame_of_ne {dst f : Nat} (src : Nat) (hne : f ≠ dst) :
    (copyFrame s dst src).mem f = s.mem f := by
  simp [copyFrame, hne]

@[simp] theorem mem_zeroFrame_self (frame : Nat) :
    (zeroFrame s frame).mem frame = fun _ => 0#32 := by
  simp [zeroFrame]

theorem mem_zeroFrame_of_ne {frame f : Nat} (hne : f ≠ frame) :
    (zeroFrame s frame).mem f = s.mem f := by
  simp [zeroFrame, hne]

/--
Everything the frame allocator can do while frame 0 is in use: hand out a
clear frame and mark it, or fail and change nothing.
-/
theorem mmFrameAlloc_cases (hzero : bitmapTest s 0 = true) :
    mmFrameAlloc s = (0, s) ∨
      ∃ f, f ≠ 0 ∧ f < identPages ∧ bitmapTest s f = false ∧
        mmFrameAlloc s = (f, bitmapSet s f) := by
  unfold mmFrameAlloc
  cases hfind : Bitmap.firstZero (bitmapTest s) identPages with
  | none => exact Or.inl rfl
  | some f =>
    obtain ⟨hlt, hfree⟩ := Bitmap.firstZero_some hfind
    refine Or.inr ⟨f, ?_, hlt, hfree, rfl⟩
    rintro rfl
    rw [hzero] at hfree
    cases hfree

theorem freeFrames_eq_zero (hzero : bitmapTest s 0 = true) (h : mmFrameAlloc s = (0, s)) :
    freeFrames s = 0 := by
  unfold mmFrameAlloc at h
  cases hfind : Bitmap.firstZero (bitmapTest s) identPages with
  | none => exact (Bitmap.zeros_eq_zero_iff _ _).mpr (Bitmap.firstZero_none.mp hfind)
  | some f =>
    obtain ⟨_, hfree⟩ := Bitmap.firstZero_some hfind
    rw [hfind] at h
    have hf : f = 0 := congrArg Prod.fst h
    rw [hf, hzero] at hfree
    cases hfree

end Frames

end Mm
end Homunculos
