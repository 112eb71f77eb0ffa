import Homunculos.Ext2.WriteLaw

/-!
# How much a read gives

`ext2_inode_read` cuts the number of bytes at the end of the file with the test
`offset + size > file_size`.  The sum is one of 32 bits: where it wraps, nothing is
cut and the loop goes on behind the end of the file.
-/

namespace Homunculos
namespace Ext2

open Bytes Block

/-- A read stores at most `size` bytes, and none from behind the end of the file. -/
def ReadBounded (fs : Ext2Fs) (inode : VfsInode) (offset size fileSize : Nat) : Prop :=
  ∀ bytes, (ext2InodeRead fs inode offset size).1 = some bytes →
    bytes.length ≤ size ∧ bytes.length ≤ fileSize - offset

section Length

variable {fs : Ext2Fs} {raw : Ext2Inode}

theorem length_readLoop_le (n : Nat) (fs : Ext2Fs) (raw : Ext2Inode) (pos size : Nat) :
    (readLoop n fs raw pos size).1.length ≤ size := by
  induction n generalizing fs pos size with
  | zero => exact Nat.zero_le _
  | succ n ih =>
    rw [readLoop]
    split
    · exact Nat.zero_le _
    · dsimp only
      split
      · have hrest := ih (loadBlock fs raw (pos / fs.blockSize)).2
          ((pos + min (fs.blockSize - pos % fs.blockSize) size) % 2 ^ 32)
          (size - min (fs.blockSize - pos % fs.blockSize) size)
        rw [List.length_append, List.length_map, List.length_range]
        omega
      · exact Nat.zero_le _

theorem length_readLoop
    (hsize : BlockSizeOk fs) (hhealthy : fs.dev.Healthy) (raw : Ext2Inode) {n size : Nat}
    (hn : size ≤ n) (pos : Nat) (buf : Nat → BitVec 8) :
    (readLoop n (fs.withBuf buf) raw pos size).1.length = size := by
  induction n generalizing pos size buf with
  | zero => exact (Nat.le_zero.mp hn).symm
  | succ n ih =>
    rw [readLoop]
    by_cases hzero : size = 0
    · rw [hzero]
      rfl
    · have hmod := Nat.mod_lt pos hsize.pos
      obtain ⟨buf', hload, -⟩ := loadBlock_spec hsize hhealthy raw (pos / fs.blockSize) buf
      have hload' : loadBlock (fs.withBuf buf) raw (pos / (fs.withBuf buf).blockSize) =
          (true, fs.withBuf buf') := hload
      obtain ⟨c, hc⟩ : ∃ c, min (fs.blockSize - pos % fs.blockSize) size = c := ⟨_, rfl⟩
      have hc' : min ((fs.withBuf buf).blockSize - pos % (fs.withBuf buf).blockSize) size = c :=
        hc
      rw [if_neg hzero, hload']
      rw [if_pos rfl, hc', List.length_append, List.length_map, List.length_range,
        ih (show size - c ≤ n by omega)]
      omega

end Length

section Bound

variable {fs : Ext2Fs} {inode : VfsInode} {raw : Ext2Inode} {no offset size : Nat}

theorem inodeRead_cases
    (hchr : inode.iType ≠ .chr) (hblk : inode.iType ≠ .blk) (hdata : inode.privateData = some no)
    (hraw : (ext2ReadInode fs no).1 = some raw) (offset size : Nat) :
    (ext2InodeRead fs inode offset size).1 = some (if raw.size ≤ offset then [] else
      (readLoop (if raw.size < (offset + size) % 2 ^ 32 then raw.size - offset else size)
        (ext2ReadInode fs no).2 raw offset
        (if raw.size < (offset + size) % 2 ^ 32 then raw.size - offset else size)).1) := by
  unfold ext2InodeRead
  rw [if_neg (by simp [hchr, hblk]), hdata]
  dsimp only
  rw [← Prod.mk.eta (p := ext2ReadInode fs no), hraw]
  dsimp only
  split
  · rfl
  · rfl

/--
A read stores no more than it was asked for and nothing from behind the end of the file
if the 32-bit sum of offset and size does not wrap or the offset is at the end already,
whatever the device does; and on a device without errors only then.
-/
theorem inode_read_bounded_iff
    (hchr : inode.iType ≠ .chr) (hblk : inode.iType ≠ .blk) (hdata : inode.privateData = some no)
    (hraw : (ext2ReadInode fs no).1 = some raw) (hoffset : offset < 2 ^ 32)
    (hsize : size < 2 ^ 32) :
    (offset + size < 2 ^ 32 ∨ raw.size ≤ offset → ReadBounded fs inode offset size raw.size) ∧
      (Readable fs no → (ReadBounded fs inode offset size raw.size ↔
        offset + size < 2 ^ 32 ∨ raw.size ≤ offset)) := by
  have hout := inodeRead_cases hchr hblk hdata hraw offset size
  have hbounded : offset + size < 2 ^ 32 ∨ raw.size ≤ offset →
      ReadBounded fs inode offset size raw.size := by
    intro hcond bytes hbytes
    rw [hout, Option.some.injEq] at hbytes
    by_cases hend : raw.size ≤ offset
    · rw [if_pos hend] at hbytes
      rw [← hbytes]
      exact ⟨Nat.zero_le _, Nat.zero_le _⟩
    · rw [if_neg hend, Nat.mod_eq_of_lt (hcond.resolve_right hend)] at hbytes
      have hlength := length_readLoop_le
        (if raw.size < offset + size then raw.size - offset else size) (ext2ReadInode fs no).2 raw
        offset (if raw.size < offset + size then raw.size - offset else size)
      rw [hbytes] at hlength
      split at hlength
      · omega
      · omega
  refine ⟨hbounded, ?_⟩
  intro hreadable
  refine ⟨?_, hbounded⟩
  intro hbound
  by_contra hcond
  push Not at hcond
  obtain ⟨buf, hread⟩ := readInode_spec hreadable.layout.blockSize hreadable.healthy
    hreadable.isInode hreadable.fits
  -- the wrapped sum is below the offset, so nothing is cut
  rw [hread, if_neg (by omega), if_neg (by omega)] at hout
  have hlength := length_readLoop hreadable.layout.blockSize hreadable.healthy raw
    (le_refl size) offset buf
  obtain ⟨-, hle⟩ := hbound _ hout
  have hlt := raw.size_lt
  rw [hlength] at hle
  omega

end Bound

/-- Inode 12 of the small image, whose size is `0xFFFFFFFF`. -/
def smallFile : VfsInode := ⟨12, 0xFFFFFFFF, .file, 0x81A4, some .file, some 12, 0⟩

theorem inode_read_bounded_iff_small :
    ReadBounded smallFs smallFile 16 8 (smallFs.inodeOf 12).size := by
  have hno : smallFs.IsInode 12 := by
    unfold Ext2Fs.IsInode
    decide +kernel
  obtain ⟨buf, hread⟩ := smallFs_volume.shows.readInode hno
  exact (inode_read_bounded_iff (by decide) (by decide) rfl (congrArg Prod.fst hread)
    (by decide) (by decide)).1 (Or.inl (by decide))

/-- One byte is left behind the offset `0xFFFFFFFE`; a read of four gives four. -/
theorem read_runs_over_end :
    ((ext2ReadInode smallFs 12).1.map Ext2Inode.size) = some 0xFFFFFFFF ∧
      ((ext2InodeRead smallFs smallFile 0xFFFFFFFE 4).1.map List.length) = some 4 := by
  refine ⟨?_, ?_⟩
  · decide +kernel
  · decide +kernel

end Ext2
end Homunculos
