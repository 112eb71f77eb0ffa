import Homunculos.Ext2.AllocLoop

/-!
# Block numbers and bitmap bits

In ext2 bit `i` of group `g` stands for the block
`first_data_block + g * blocks_per_group + i`.  The allocator counts from 0
instead.  Its numbers are right exactly on images with `first_data_block` 0;
on images with 1024-byte blocks, where the field is 1, the block it returns and
the block it marks are neighbours.
-/

namespace Homunculos
namespace Ext2

open Bytes Block Bitmap

/-- A block of the file system. -/
def IsBlock (fs : Ext2Fs) (n : Nat) : Prop :=
  fs.sb.firstDataBlock ≤ n ∧ n < fs.sb.blocksCount

/-- The mark of a block in the bitmaps, in the numbering of ext2. -/
def mark (fs : Ext2Fs) (n : Nat) : Bool :=
  bit .block fs ((n - fs.sb.firstDataBlock) / fs.sb.blocksPerGroup)
    ((n - fs.sb.firstDataBlock) % fs.sb.blocksPerGroup)

/-- Block `b` was free, is used now, and is the only one whose mark changed. -/
structure AllocOk (fs fs' : Ext2Fs) (b : Nat) : Prop where
  isBlock : IsBlock fs b
  was_free : mark fs b = false
  is_used : mark fs' b = true
  others : ∀ n, IsBlock fs n → n ≠ b → mark fs' n = mark fs n

/-- The mark of `b` is clear and no other mark changed. -/
structure FreeOk (fs fs' : Ext2Fs) (b : Nat) : Prop where
  is_free : mark fs' b = false
  others : ∀ n, IsBlock fs n → n ≠ b → mark fs' n = mark fs n

section Marks

variable {fs fs' : Ext2Fs} {b n : Nat} {v : Bool}

/-- An edit where the allocator sees `b` edits the mark of `first_data_block + b`. -/
theorem mark_edit (hgeo : Geometry .block fs)
    (hedit : Edit .block v (b / fs.sb.blocksPerGroup) (b % fs.sb.blocksPerGroup) fs fs')
    (hn : IsBlock fs n) :
    mark fs' n = if n - fs.sb.firstDataBlock = b then v else mark fs n := by
  have hper : fs'.sb.blocksPerGroup = fs.sb.blocksPerGroup :=
    hedit.perGroup .block
  have hlt : n - fs.sb.firstDataBlock < Kind.count .block fs.sb :=
    lt_of_le_of_lt (Nat.sub_le _ _) hn.2
  have hg : (n - fs.sb.firstDataBlock) / fs.sb.blocksPerGroup <
      fs.bgdescCount :=
    (hgeo.bit_of_index hlt).1
  have hj : (n - fs.sb.firstDataBlock) % fs.sb.blocksPerGroup <
      8 * fs.blockSize :=
    lt_of_lt_of_le (Nat.mod_lt _ hgeo.pos) hgeo.fits
  unfold mark
  rw [hper, hedit.firstDataBlock, hedit.bit .block _ _ hg hj]
  simp only [true_and, index_eq_iff]

theorem number_parts (hgeo : Geometry .block fs) {g i : Nat} (hg : g < fs.bgdescCount)
    (hi : i < maxBits .block fs g) :
    number .block fs g i < fs.sb.blocksCount ∧
      number .block fs g i / fs.sb.blocksPerGroup = g ∧
      number .block fs g i % fs.sb.blocksPerGroup = i := by
  have hnumber : number .block fs g i = g * fs.sb.blocksPerGroup + i :=
    hgeo.number_eq hg hi
  rw [hnumber]
  exact ⟨hgeo.index_lt hg hi, hgeo.parts hg hi⟩

theorem allocOk_iff (h : Layout fs) (hgeo : Geometry .block fs) (hne : (ext2AllocBlock fs).1 ≠ 0) :
    AllocOk fs (ext2AllocBlock fs).2 (ext2AllocBlock fs).1 ↔
      fs.sb.firstDataBlock = 0 := by
  obtain ⟨g, i, hg, hi, hbit, hb, hedit⟩ := ext2AllocBlock_nonzero h hgeo hne
  obtain ⟨hlt, hdiv, hmod⟩ := number_parts hgeo hg hi
  rw [← hb] at hlt hdiv hmod
  have hedit' : Edit .block true
      ((ext2AllocBlock fs).1 / fs.sb.blocksPerGroup)
      ((ext2AllocBlock fs).1 % fs.sb.blocksPerGroup)
      fs (ext2AllocBlock fs).2 := by
    rw [hdiv, hmod]
    exact hedit
  constructor
  · intro hok
    have hmark := mark_edit hgeo hedit' hok.isBlock
    rw [hok.is_used, hok.was_free] at hmark
    by_contra hne0
    rw [if_neg (by omega)] at hmark
    cases hmark
  · intro hzero
    have hblock : IsBlock fs (ext2AllocBlock fs).1 :=
      ⟨by omega, hlt⟩
    refine ⟨hblock, ?_, ?_, ?_⟩
    · unfold mark
      rw [hzero, Nat.sub_zero, hdiv, hmod]
      exact hbit
    · rw [mark_edit hgeo hedit' hblock, if_pos (by omega)]
    · intro n hn hnb
      rw [mark_edit hgeo hedit' hn, if_neg (by omega)]

theorem freeOk_iff
    (h : Layout fs) (hgeo : Geometry .block fs) (hhealthy : fs.dev.Healthy) (hblock : IsBlock fs b)
    (hused : mark fs b = true) :
    FreeOk fs (ext2FreeBlock fs b) b ↔ fs.sb.firstDataBlock = 0 := by
  obtain ⟨hg, hi⟩ := hgeo.bit_of_index hblock.2
  have hi' : b % fs.sb.blocksPerGroup < 8 * fs.blockSize :=
    lt_of_lt_of_le (Nat.mod_lt _ hgeo.pos) hgeo.fits
  have hedit : Edit .block false (b / fs.sb.blocksPerGroup)
      (b % fs.sb.blocksPerGroup) fs (ext2FreeBlock fs b) :=
    (freeBit_healthy h hhealthy hg hi').1
  have hfirst := hblock.1
  constructor
  · intro hok
    have hmark := mark_edit hgeo hedit hblock
    rw [hok.is_free, hused] at hmark
    by_contra hne0
    rw [if_neg (by omega)] at hmark
    cases hmark
  · intro hzero
    refine ⟨?_, ?_⟩
    · rw [mark_edit hgeo hedit hblock, if_pos (by omega)]
    · intro n hn hnb
      rw [mark_edit hgeo hedit hn, if_neg (by omega)]

/--
On every image whose metadata blocks are distinct: a block that
`ext2_alloc_block` returns was marked free, is marked used and is the only
block whose mark changed, exactly when `first_data_block` is 0; and
`ext2_free_block` of a used block clears exactly its mark, exactly when
`first_data_block` is 0.
-/
theorem block_marks_exact_iff
    (h : Layout fs) (hgeo : Geometry .block fs) :
    ((ext2AllocBlock fs).1 ≠ 0 →
      (AllocOk fs (ext2AllocBlock fs).2 (ext2AllocBlock fs).1 ↔ fs.sb.firstDataBlock = 0)) ∧
    (fs.dev.Healthy → ∀ b, IsBlock fs b → mark fs b = true →
      (FreeOk fs (ext2FreeBlock fs b) b ↔ fs.sb.firstDataBlock = 0)) :=
  ⟨allocOk_iff h hgeo, fun hhealthy _ hblock hused => freeOk_iff h hgeo hhealthy hblock hused⟩

end Marks

/-- The superblock of a file system with 16 blocks of 1024 bytes. -/
def smallSb : Nat → BitVec 8 :=
  putU16 (putU32 (putU32 (putU32 (putU32 (putU32 (putU32 (putU32
    (fun _ => 0#8)
    0 16) 4 16) 12 5) 16 4) 20 1) 32 8192) 40 16) 56 0xEF53

/-- Its only group descriptor. -/
def smallDesc : Nat → BitVec 8 :=
  putU16 (putU16 (putU32 (putU32 (putU32 (fun _ => 0#8) 0 3) 4 4) 8 5) 12 5) 14 4

/-- Blocks 11 to 15 and inodes 13 to 16 are free. -/
def smallImage : BlockDevice where
  data := fun s j =>
    if s = 2 then smallSb j
    else if s = 4 then smallDesc j
    else if s = 6 then if j = 1 then 0x83#8 else 0xFF#8
    else if s = 8 then if j = 1 then 0x0F#8 else 0xFF#8
    else 0xFF#8
  readOk := fun _ => true
  writeOk := fun _ => true

theorem smallImage_mounts :
    (ext2MountSb smallImage (fun _ => 0#8)).isSome = true := by
  decide +kernel

/-- The file system as `ext2_mount` sets it up. -/
def smallFs : Ext2Fs :=
  (ext2MountSb smallImage (fun _ => 0#8)).get smallImage_mounts

/-- The areas of a file system of one group. -/
def smallAreas : List Area :=
  [.superblock, .descs 0, .bitmap .block 0, .bitmap .inode 0]

section OneGroup

variable {fs : Ext2Fs} {a : Area}

theorem mem_smallAreas (hcount : fs.bgdescCount = 1) (ha : a.Valid fs) :
    a ∈ smallAreas := by
  cases a with
  | superblock => simp [smallAreas]
  | descs j =>
    obtain ⟨g, hg, rfl⟩ := ha
    have hg0 : g = 0 := by omega
    simp [smallAreas, hg0]
  | bitmap k g =>
    have hg : g < fs.bgdescCount := ha
    have hg0 : g = 0 := by omega
    cases k with
    | block => simp [smallAreas, hg0]
    | inode => simp [smallAreas, hg0]

theorem layout_of_one_group (hcount : fs.bgdescCount = 1) (hsize : BlockSizeOk fs)
    (hinj : ∀ a ∈ smallAreas, ∀ b ∈ smallAreas,
      fs.blockLba (a.blockNo fs) = fs.blockLba (b.blockNo fs) → a = b) :
    Layout fs :=
  ⟨hsize, fun a b ha hb =>
    hinj a (mem_smallAreas hcount ha) b (mem_smallAreas hcount hb)⟩

end OneGroup

theorem smallFs_layout :
    Layout smallFs := by
  refine layout_of_one_group ?_ (Or.inl ?_) ?_
  · decide +kernel
  · decide +kernel
  · decide +kernel

theorem smallFs_geometry (k : Kind) :
    Geometry k smallFs := by
  cases k with
  | block =>
    have hmount := (Option.some_get smallImage_mounts).symm
    refine geometry_of_mount hmount ?_ ?_ ?_
    · decide +kernel
    · decide +kernel
    · decide +kernel
  | inode =>
    refine ⟨?_, ?_, ?_, ?_⟩
    · decide +kernel
    · decide +kernel
    · decide +kernel
    · decide +kernel

theorem smallFs_healthy :
    smallFs.dev.Healthy :=
  ⟨fun _ => rfl, fun _ => rfl⟩

/-- The used block 5 of the small image, given back, is still marked used. -/
theorem block_marks_exact_iff_small :
    IsBlock smallFs 5 ∧ mark smallFs 5 = true ∧
      ¬ FreeOk smallFs (ext2FreeBlock smallFs 5) 5 := by
  have hblock : IsBlock smallFs 5 := by
    unfold IsBlock
    decide +kernel
  have hmark : mark smallFs 5 = true := by decide +kernel
  have hiff := (block_marks_exact_iff smallFs_layout
    (smallFs_geometry .block)).2 smallFs_healthy 5 hblock hmark
  refine ⟨hblock, hmark, ?_⟩
  rw [hiff]
  decide +kernel

/-- Block 10 is used and gets returned; block 11 gets marked. -/
theorem alloc_returns_used_block :
    smallFs.sb.firstDataBlock = 1 ∧
      (ext2AllocBlock smallFs).1 = 10 ∧
      mark smallFs 10 = true ∧
      mark smallFs 11 = false ∧
      mark (ext2AllocBlock smallFs).2 11 = true := by
  refine ⟨?_, ?_, ?_, ?_, ?_⟩
  · decide +kernel
  · decide +kernel
  · decide +kernel
  · decide +kernel
  · decide +kernel

end Ext2
end Homunculos
