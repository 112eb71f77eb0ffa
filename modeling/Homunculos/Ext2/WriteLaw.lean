import Homunculos.Ext2.FileWrite

/-!
# What a write owes the readers

`ext2_inode_write` seen through `ext2_inode_read`: the bytes are read back, other
files and the rest of this file read as before.  The last point fails when a
hole inside the file gets a block and is written in part, because the rest of
that block is then read from what the block held before.
-/

namespace Homunculos
namespace Ext2

open Bytes Block

/-- A block that is read for the block index of a file. -/
def BlockAt (fs : Ext2Fs) (raw : Ext2Inode) (idx b : Nat) : Prop :=
  b ∈ pointerBlocks fs raw idx ∨ b = bmapOf fs raw idx ∧ b ≠ 0

/-- The indices of a file: the direct blocks, and those below its size. -/
def InFile (fs : Ext2Fs) (raw : Ext2Inode) (idx : Nat) : Prop :=
  idx < 12 ∨ idx * fs.blockSize < raw.size

/-- The blocks of a file are data blocks in use, and its direct blocks are different. -/
structure FileOk (fs : Ext2Fs) (no : Nat) : Prop where
  isInode : fs.IsInode no
  owned : ∀ idx b, InFile fs (fs.inodeOf no) idx → BlockAt fs (fs.inodeOf no) idx b →
    b ∈ usedNumbers .block fs ∧ fs.DataBlock b
  distinct : ∀ i idx, i < 12 → InFile fs (fs.inodeOf no) idx → idx ≠ i →
    (fs.inodeOf no).block i ≠ 0 → ¬ BlockAt fs (fs.inodeOf no) idx ((fs.inodeOf no).block i)

/-- Another file, with blocks of its own. -/
structure OtherFile (fs : Ext2Fs) (no m : Nat) : Prop where
  isInode : fs.IsInode m
  ne : m ≠ no
  owned : ∀ idx b, idx * fs.blockSize < (fs.inodeOf m).size → BlockAt fs (fs.inodeOf m) idx b →
    b ∈ usedNumbers .block fs ∧ fs.DataBlock b
  apart : ∀ i idx, i < 12 → (fs.inodeOf no).block i ≠ 0 →
    idx * fs.blockSize < (fs.inodeOf m).size →
    ¬ BlockAt fs (fs.inodeOf m) idx ((fs.inodeOf no).block i)

/--
Before a write: below `stop`, the free blocks that are next for the holes it reaches hold
zeros where it does not write.
-/
def NoStale (fs : Ext2Fs) (raw : Ext2Inode) (stop off size : Nat) : Prop :=
  ∀ pos, pos < stop → ¬ (off ≤ pos ∧ pos < off + size) →
    raw.block (pos / fs.blockSize) = 0 →
    (∃ q, off ≤ q ∧ q < off + size ∧ q / fs.blockSize = pos / fs.blockSize) →
    newBlock fs raw off (pos / fs.blockSize) < fs.sb.blocksCount →
    fs.diskByte (newBlock fs raw off (pos / fs.blockSize)) (pos % fs.blockSize) = 0#8

/-- An inode that can be read: its group is there and it ends inside its block. -/
structure Readable (fs : Ext2Fs) (no : Nat) : Prop where
  layout : Layout fs
  geometry : Geometry .inode fs
  healthy : fs.dev.Healthy
  isInode : fs.IsInode no
  fits : fs.inodePos no + 128 ≤ fs.blockSize

section Reads

variable {fs fs' : Ext2Fs} {raw raw' : Ext2Inode} {inode : VfsInode} {no pos : Nat}

theorem Skeleton.readable (h : Skeleton fs) (hno : fs.IsInode no) :
    Readable fs no :=
  ⟨h.layout, h.geometry .inode, h.healthy, hno, h.inodePos_fits no⟩

theorem Readable.withBuf (h : Readable fs no) (buf : Nat → BitVec 8) :
    Readable (fs.withBuf buf) no := by
  have hgeo := h.geometry
  exact ⟨h.layout.withBuf buf, ⟨hgeo.pos, hgeo.fits, hgeo.lower, hgeo.upper⟩, h.healthy,
    h.isInode, h.fits⟩

/-- `ext2_inode_read` gives the bytes on the device and changes `ext2_buf` only. -/
theorem inodeRead_eq (h : Readable fs no) (hchr : inode.iType ≠ .chr) (hblk : inode.iType ≠ .blk)
    (hdata : inode.privateData = some no) {off len : Nat} (hfits : off + len < 2 ^ 32) :
    ∃ buf, ext2InodeRead fs inode off len =
      (some ((List.range (min len ((fs.inodeOf no).size - off))).map
        (fun k => byteOf fs (fs.inodeOf no) (off + k))), fs.withBuf buf) := by
  obtain ⟨buf, hread⟩ := readInode_spec h.layout.blockSize h.healthy h.isInode h.fits
  unfold ext2InodeRead
  rw [if_neg (by simp [hchr, hblk]), hdata]
  dsimp only
  rw [hread]
  dsimp only
  by_cases hend : (fs.inodeOf no).size ≤ off
  · rw [if_pos hend, Nat.sub_eq_zero_of_le hend, Nat.min_zero]
    exact ⟨buf, rfl⟩
  · rw [if_neg hend, Nat.mod_eq_of_lt hfits]
    have hlen : (if (fs.inodeOf no).size < off + len then (fs.inodeOf no).size - off else len) =
        min len ((fs.inodeOf no).size - off) := by
      split
      · omega
      · omega
    rw [hlen]
    obtain ⟨buf', hloop⟩ := readLoop_spec h.layout.blockSize h.healthy (fs.inodeOf no)
      (le_refl (min len ((fs.inodeOf no).size - off)))
      (show off + min len ((fs.inodeOf no).size - off) < 2 ^ 32 by omega) buf
    rw [hloop]
    exact ⟨buf', rfl⟩

/-- What `ext2_inode_read` returns. -/
theorem inodeRead_spec (h : Skeleton fs) (hchr : inode.iType ≠ .chr) (hblk : inode.iType ≠ .blk)
    (hdata : inode.privateData = some no) (hno : fs.IsInode no) {off len : Nat}
    (hfits : off + len < 2 ^ 32) :
    (ext2InodeRead fs inode off len).1 =
      some ((List.range (min len ((fs.inodeOf no).size - off))).map
        (fun k => byteOf fs (fs.inodeOf no) (off + k))) := by
  obtain ⟨buf, hread⟩ := inodeRead_eq (h.readable hno) hchr hblk hdata hfits
  rw [hread]

theorem byteOf_congr (hsize : BlockSizeOk fs) (hblock : fs'.blockSize = fs.blockSize)
    (hslot : ∀ slot js, route fs.ptrsPerBlock (pos / fs.blockSize) = some (slot, js) →
      raw'.block slot = raw.block slot)
    (hsame : ∀ b, BlockAt fs raw (pos / fs.blockSize) b → ∀ q, q < fs.blockSize →
      fs'.diskByte b q = fs.diskByte b q) :
    byteOf fs' raw' pos = byteOf fs raw pos := by
  obtain ⟨hbmap, -⟩ := bmapOf_congr hsize hblock hslot (fun b hb => hsame b (Or.inl hb))
  unfold byteOf
  rw [hblock, hbmap]
  by_cases hzero : bmapOf fs raw (pos / fs.blockSize) = 0
  · rw [if_pos hzero, if_pos hzero]
  · rw [if_neg hzero, if_neg hzero]
    exact hsame _ (Or.inr ⟨rfl, hzero⟩) _ (Nat.mod_lt _ hsize.pos)

theorem byteOf_direct (hpos : pos / fs.blockSize < 12) :
    byteOf fs raw pos =
      if raw.block (pos / fs.blockSize) = 0 then 0#8
      else fs.diskByte (raw.block (pos / fs.blockSize)) (pos % fs.blockSize) := by
  unfold byteOf
  rw [bmapOf_direct hpos]

end Reads

section Law

variable {fs fs' : Ext2Fs} {inode : VfsInode} {no off n size : Nat}
variable {buf : Nat → BitVec 8} {v' : View} {raw' final : Ext2Inode}

theorem FileOk.ownsDirect (h : FileOk fs no) :
    OwnsDirect fs.view (fs.view.inode no) := by
  have hat : ∀ i, i < 12 → (fs.inodeOf no).block i ≠ 0 →
      BlockAt fs (fs.inodeOf no) i ((fs.inodeOf no).block i) := by
    intro i hi hne
    refine Or.inr ⟨?_, hne⟩
    rw [bmapOf_direct hi]
  refine ⟨?_, ?_, ?_⟩
  · intro i hi hne
    exact (h.owned i _ (Or.inl hi) (hat i hi hne)).1
  · intro i hi hne
    exact (h.owned i _ (Or.inl hi) (hat i hi hne)).2
  · intro i j hi hj hne heq
    by_contra hij
    have hj' := hat j hj (show (fs.inodeOf no).block j ≠ 0 from heq ▸ hne)
    rw [show (fs.inodeOf no).block j = (fs.inodeOf no).block i from heq.symm] at hj'
    exact h.distinct i j hi (Or.inl hj) (Ne.symm hij) hne hj'

/-- Beyond the direct blocks a file reads as before, if only these have been written. -/
theorem FileOk.byteOf_indirect {raw : Ext2Inode} (h : FileOk fs no) (hsize : BlockSizeOk fs)
    (hblock : fs'.blockSize = fs.blockSize)
    (hslot : ∀ slot, 12 ≤ slot → raw.block slot = (fs.inodeOf no).block slot)
    (hkeeps : ∀ b q, b ∈ usedNumbers .block fs → fs.DataBlock b →
      (∀ i, i < 12 → (fs.inodeOf no).block i ≠ 0 → (fs.inodeOf no).block i ≠ b) →
      q < fs.blockSize → fs'.diskByte b q = fs.diskByte b q) {pos : Nat}
    (hpos : ¬ pos / fs.blockSize < 12) (hend : pos < (fs.inodeOf no).size) :
    byteOf fs' raw pos = byteOf fs (fs.inodeOf no) pos := by
  have hin : InFile fs (fs.inodeOf no) (pos / fs.blockSize) :=
    Or.inr ((Nat.div_mul_le_self pos fs.blockSize).trans_lt hend)
  apply byteOf_congr hsize hblock
  · intro slot js hroute
    apply hslot
    by_cases hsingle : pos / fs.blockSize - 12 < fs.ptrsPerBlock
    · rw [route_single hpos hsingle, Option.some.injEq, Prod.mk.injEq] at hroute
      omega
    · rcases route_deeper hpos hsingle hroute with hs | hs
      · omega
      · omega
  · intro b hb q hq
    obtain ⟨hused, hdata⟩ := h.owned _ b hin hb
    apply hkeeps b q hused hdata _ hq
    rintro i hi hne rfl
    exact h.distinct i _ hi hin (by omega) hne hb

/-- The state after a write of `n` bytes out of `size`. -/
structure AfterWrite (fs fs' : Ext2Fs) (no off : Nat) (buf : Nat → BitVec 8) (size n : Nat)
    (v' : View) (raw' final : Ext2Inode) : Prop where
  volume : Volume fs
  file : FileOk fs no
  le : n ≤ size
  puts : (fs.view.store (fs.inodeOf no)).puts fs.blockSize fs.view.dataBlocks off
    ((List.range size).map buf) = (n, v'.store raw')
  written : Written fs.view (fs.inodeOf no) off buf n v' raw'
  inode : WrittenInode (fs.inodeOf no) raw' off n final
  shows : Shows fs' (v'.withInode no final)
  fits : off + size ≤ 12 * fs.blockSize

namespace AfterWrite

variable (h : AfterWrite fs fs' no off buf size n v' raw' final)
include h

theorem blockSize :
    fs'.blockSize = fs.blockSize :=
  h.shows.blockSize.symm.trans h.written.blockSize

theorem isInode {m : Nat} (hm : fs.IsInode m) :
    fs'.IsInode m := by
  have hcount : fs'.sb.inodesCount = fs.sb.inodesCount :=
    h.shows.inodes.symm.trans h.written.inodes
  refine ⟨hm.1, ?_⟩
  rw [hcount]
  exact hm.2

theorem inodeOf_self :
    fs'.inodeOf no = final := by
  rw [← h.shows.inode no (h.isInode h.file.isInode), View.inode_withInode]

theorem byte {b q : Nat} (hb : fs.DataBlock b) (hq : q < fs.blockSize) :
    fs'.diskByte b q = v'.data b q := by
  have hmem : b ∈ v'.dataBlocks := by
    rw [h.written.dataBlocks]
    exact hb
  exact (h.shows.data b q ((h.shows.dataBlocks b).mp hmem) (h.blockSize ▸ hq)).symm

theorem keeps {b q : Nat} (hused : b ∈ usedNumbers .block fs) (hb : fs.DataBlock b)
    (hapart : ∀ i, i < 12 → (fs.inodeOf no).block i ≠ 0 → (fs.inodeOf no).block i ≠ b)
    (hq : q < fs.blockSize) :
    fs'.diskByte b q = fs.diskByte b q := by
  rw [h.byte hb hq, h.written.keeps hused hapart]
  rfl

theorem byteOf_eq {pos : Nat} (hpos : pos / fs.blockSize < 12) :
    byteOf fs' final pos =
      if off ≤ pos ∧ pos < off + n then buf (pos - off)
      else if final.block (pos / fs.blockSize) = 0 then 0#8
      else fs.diskByte (final.block (pos / fs.blockSize)) (pos % fs.blockSize) := by
  have hsize := h.volume.inOrder.layout.blockSize
  rw [byteOf_direct (by rw [h.blockSize]; exact hpos), h.blockSize, h.inode.block]
  by_cases hzero : raw'.block (pos / fs.blockSize) = 0
  · rw [if_pos hzero, if_pos hzero, if_neg]
    rintro ⟨hle, hlt⟩
    exact h.written.covered pos hle hlt hzero
  · have hdata : fs.DataBlock (raw'.block (pos / fs.blockSize)) := by
      have hmem := h.written.owns.data _ hpos hzero
      rw [h.written.dataBlocks] at hmem
      exact hmem
    have hbyte := h.written.data pos hpos hzero
    rw [if_neg hzero, if_neg hzero, h.byte hdata (Nat.mod_lt _ hsize.pos)]
    exact hbyte

theorem byteOf_indirect {pos : Nat}
    (hpos : ¬ pos / fs.blockSize < 12) (hend : pos < (fs.inodeOf no).size) :
    byteOf fs' final pos = byteOf fs (fs.inodeOf no) pos := by
  refine h.file.byteOf_indirect h.volume.inOrder.layout.blockSize h.blockSize ?_
    (fun b q hused hb hapart hq => h.keeps hused hb hapart hq) hpos hend
  intro slot hslot
  rw [h.inode.block, h.written.kept slot (Or.inr hslot)]

theorem byteOf_other {m pos : Nat} (hm : OtherFile fs no m) (hend : pos < (fs.inodeOf m).size) :
    byteOf fs' (fs.inodeOf m) pos = byteOf fs (fs.inodeOf m) pos := by
  have hsize := h.volume.inOrder.layout.blockSize
  have hin := (Nat.div_mul_le_self pos fs.blockSize).trans_lt hend
  apply byteOf_congr hsize h.blockSize (fun _ _ _ => rfl)
  intro b hb q hq
  obtain ⟨hused, hdata⟩ := hm.owned _ b hin hb
  apply h.keeps hused hdata _ hq
  rintro i hi hne rfl
  exact hm.apart i _ hi hne hin hb

theorem size_le :
    (fs.inodeOf no).size ≤ final.size := by
  rw [h.inode.size]
  split
  · exact le_max_left _ _
  · exact le_refl _

theorem read_back (htype : inode.iType = .file) (hdata : inode.privateData = some no) :
    (ext2InodeRead fs' inode off n).1 = some ((List.range n).map buf) := by
  have hle : fs.blockSize ≤ 4096 := h.volume.inOrder.layout.blockSize_le
  have hn := h.le
  have hfits := h.fits
  have hpos := h.volume.inOrder.layout.blockSize.pos
  have hsize : min n (final.size - off) = n := by
    rw [h.inode.size]
    split
    · omega
    · omega
  rw [inodeRead_spec h.shows.volume.toSkeleton (by simp [htype]) (by simp [htype]) hdata
    (h.isInode h.file.isInode) (by omega), h.inodeOf_self, hsize]
  congr 1
  apply List.map_congr_left
  intro k hk
  have hk' := List.mem_range.mp hk
  have hidx : (off + k) / fs.blockSize < 12 := by
    rw [Nat.div_lt_iff_lt_mul hpos]
    omega
  rw [h.byteOf_eq hidx, if_pos (by omega), Nat.add_sub_cancel_left]

omit h

theorem read_one {fs : Ext2Fs} (h : Volume fs) (htype : inode.iType = .file)
    (hdata : inode.privateData = some no) (hno : fs.IsInode no) {pos : Nat}
    (hpos : pos < (fs.inodeOf no).size) :
    (ext2InodeRead fs inode pos 1).1 = some [byteOf fs (fs.inodeOf no) pos] := by
  have hlt := (fs.inodeOf no).size_lt
  rw [inodeRead_spec h.toSkeleton (by simp [htype]) (by simp [htype]) hdata hno (by omega),
    show min 1 ((fs.inodeOf no).size - pos) = 1 by omega]
  rfl

variable (h : AfterWrite fs fs' no off buf size n v' raw' final)
include h

theorem all_used
    (hfull : ∀ b ∈ v'.dataBlocks, b ∈ v'.used .block) {b : Nat} (hb : b < fs'.sb.blocksCount) :
    b ∈ usedNumbers .block fs' := by
  by_cases hmeta : fs'.DataBlock b
  · have hused := h.shows.used .block
    rw [← hused]
    exact hfull b ((h.shows.dataBlocks b).mpr hmeta)
  · unfold Ext2Fs.DataBlock at hmeta
    push Not at hmeta
    obtain ⟨p, hp, rfl⟩ := hmeta hb
    exact h.shows.volume.place_used p hp

end AfterWrite

end Law

/-- The small image with a file of 1024 bytes that is one hole, inode 12. -/
def holeFs : Ext2Fs :=
  (ext2WriteInode smallFs 12 (Ext2Inode.zero.setSize 1024)).2

def holeInode : VfsInode where
  iNo := 12
  iSize := 1024
  iType := .file
  iMode := 0x8000
  ops := some .file
  privateData := some 12
  iRdev := 0

theorem holeFs_shows :
    Shows holeFs (smallFs.view.withInode 12 (Ext2Inode.zero.setSize 1024)) := by
  have hinode : smallFs.IsInode 12 := by
    unfold Ext2Fs.IsInode
    decide +kernel
  exact (smallFs_volume.shows.writeInode hinode _).2

theorem holeFs_file :
    FileOk holeFs 12 := by
  have hinode : holeFs.IsInode 12 := by
    unfold Ext2Fs.IsInode
    decide +kernel
  have hraw : holeFs.inodeOf 12 = Ext2Inode.zero.setSize 1024 := by
    rw [← holeFs_shows.inode 12 hinode, View.inode_withInode]
  have hblocks : ∀ i, (Ext2Inode.zero.setSize 1024).block i = 0 := by
    intro i
    rw [Ext2Inode.block_setSize]
    rfl
  have hbs : holeFs.blockSize = 1024 := by decide +kernel
  have hnone : ∀ idx b, InFile holeFs (holeFs.inodeOf 12) idx →
      ¬ BlockAt holeFs (holeFs.inodeOf 12) idx b := by
    intro idx b hin hat
    have hsize : (holeFs.inodeOf 12).size = 1024 := by
      rw [hraw, Ext2Inode.size_setSize, Nat.mod_eq_of_lt (by decide)]
    have hidx : idx < 12 := by
      rcases hin with hlt | hlt
      · exact hlt
      · rw [hbs] at hlt
        omega
    rcases hat with hat | ⟨hat, hne⟩
    · rw [pointerBlocks_direct hidx] at hat
      exact absurd hat List.not_mem_nil
    · rw [bmapOf_direct hidx, hraw, hblocks] at hat
      exact hne hat
  refine ⟨hinode, ?_, ?_⟩
  · intro idx b hin hat
    exact absurd hat (hnone idx b hin)
  · intro i idx _ hin _ _
    exact hnone idx _ hin

end Ext2
end Homunculos
