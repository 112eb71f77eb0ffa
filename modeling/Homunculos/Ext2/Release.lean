import Homunculos.Ext2.Cut
import Homunculos.Ext2.Unlink

/-!
# Blocks that are given back

`ext2_truncate`, the call of `ext2_inode_write` that empties a file, and `ext2_unlink`.
What stays below the new length reads as before, and so does every other file.  A pointer
of a double or triple indirect tree is not cleared, so behind the new length the tree goes
on leading to blocks that are free.  `ext2_unlink` does not look at the type of the inode:
the bytes of a short symbolic link are freed as a block number.
-/

namespace Homunculos
namespace Ext2

open Bytes Block

/-- The number of blocks that bytes up to `size` are in. -/
def Ext2Fs.fileBlocks (fs : Ext2Fs) (size : Nat) : Nat :=
  (size + fs.blockSize - 1) / fs.blockSize

/-- The blocks of a file, on all levels, are data blocks, and no block of it is a pointer block. -/
structure SolidFile (fs : Ext2Fs) (no : Nat) : Prop where
  isInode : fs.IsInode no
  tables : ∀ idx, idx < fs.fileBlocks (fs.inodeOf no).size →
    ∀ b ∈ pointerBlocks fs (fs.inodeOf no) idx, fs.DataBlock b
  single : ∀ idx, 12 + fs.ptrsPerBlock ≤ idx → idx < fs.fileBlocks (fs.inodeOf no).size →
    (fs.inodeOf no).block 12 ∈ pointerBlocks fs (fs.inodeOf no) idx → (fs.inodeOf no).block 12 = 0
  data : ∀ idx, idx < fs.fileBlocks (fs.inodeOf no).size → bmapOf fs (fs.inodeOf no) idx ≠ 0 →
    fs.DataBlock (bmapOf fs (fs.inodeOf no) idx)
  apart : ∀ i j, i < fs.fileBlocks (fs.inodeOf no).size →
    j < fs.fileBlocks (fs.inodeOf no).size → bmapOf fs (fs.inodeOf no) i ≠ 0 →
    bmapOf fs (fs.inodeOf no) i ∉ pointerBlocks fs (fs.inodeOf no) j

/-- The blocks of the file are different and in use, too. -/
structure TreeFile (fs : Ext2Fs) (no : Nat) : Prop extends SolidFile fs no where
  marked : Marked fs (fs.inodeOf no) 0 (fs.fileBlocks (fs.inodeOf no).size)

/-- Two files without a common block. -/
def Apart (fs : Ext2Fs) (no m : Nat) : Prop :=
  ∀ i j b, i < fs.fileBlocks (fs.inodeOf no).size → j < fs.fileBlocks (fs.inodeOf m).size →
    BlockAt fs (fs.inodeOf no) i b → ¬ BlockAt fs (fs.inodeOf m) j b

/-- The first block that `ext2_truncate` frees. -/
def Ext2Fs.keptBlocks (fs : Ext2Fs) (length : Nat) : Nat :=
  if length = 0 then 0 else fs.blocksFor length

section Counts

variable {fs : Ext2Fs}

theorem BlockSizeOk.index_lt (h : BlockSizeOk fs) {pos size : Nat} (hpos : pos < size) :
    pos / fs.blockSize < fs.fileBlocks size := by
  have hle := Nat.div_mul_le_self pos fs.blockSize
  have hbs := h.pos
  refine (Nat.le_div_iff_mul_le hbs).mpr ?_
  rw [Nat.succ_mul]
  omega

/-- In 32 bits the sum of `blocksFor` wraps to a count of 0. -/
theorem blocksFor_eq (fs : Ext2Fs) {size : Nat} (hsize : size < 2 ^ 32) :
    fs.blocksFor size = if size + fs.blockSize ≤ 2 ^ 32 then fs.fileBlocks size else 0 := by
  unfold Ext2Fs.blocksFor Ext2Fs.fileBlocks
  split
  · rw [Nat.mod_eq_of_lt (by omega)]
  · exact Nat.div_eq_of_lt (by omega)

theorem BlockSizeOk.fileBlocks_le
    (h : BlockSizeOk fs) {size : Nat} (hle : size ≤ 12 * fs.blockSize) :
    fs.fileBlocks size ≤ 12 := by
  have hpos := h.pos
  refine Nat.lt_succ_iff.mp ((Nat.div_lt_iff_lt_mul hpos).mpr ?_)
  omega

theorem fileBlocks_mono (fs : Ext2Fs) {a b : Nat} (h : a ≤ b) :
    fs.fileBlocks a ≤ fs.fileBlocks b :=
  Nat.div_le_div_right (by omega)

theorem range_le (fs : Ext2Fs) {length size : Nat} (hlen : length ≤ size) (hsize : size < 2 ^ 32) :
    fs.keptBlocks length + (fs.blocksFor size - fs.keptBlocks length) ≤ fs.fileBlocks size := by
  have hmono := fileBlocks_mono fs hlen
  have h1 := blocksFor_eq fs hsize
  have h2 := blocksFor_eq fs (show length < 2 ^ 32 by omega)
  unfold Ext2Fs.keptBlocks
  rw [h1, h2]
  split_ifs
  all_goals omega

theorem BlockSizeOk.below_kept
    (h : BlockSizeOk fs) {length size pos : Nat} (hlen : length ≤ size) (hsize : size < 2 ^ 32)
    (hpos : pos < length) :
    pos / fs.blockSize < fs.keptBlocks length ∨ fs.blocksFor size = 0 := by
  have hindex := h.index_lt hpos
  have h1 := blocksFor_eq fs hsize
  have h2 := blocksFor_eq fs (show length < 2 ^ 32 by omega)
  unfold Ext2Fs.keptBlocks
  rw [h1, h2]
  split_ifs
  all_goals first | exact Or.inl hindex | exact Or.inr rfl | omega

end Counts

section Direct

variable {fs : Ext2Fs} {raw : Ext2Inode} {no n : Nat}

theorem OwnsDirect.marked (h : OwnsDirect fs.view raw) (hn : n ≤ 12) :
    Trimmable fs raw 0 n n ∧ Marked fs raw 0 n := by
  refine ⟨⟨?_, ?_, ?_⟩, ?_, ?_, ?_⟩
  · intro idx hidx b hb
    rw [pointerBlocks_direct (by omega)] at hb
    exact absurd hb List.not_mem_nil
  · intro idx hge hidx
    omega
  · intro idx _ hidx hne
    rw [bmapOf_direct (by omega)] at hne ⊢
    exact (h.data idx (by omega) hne).1
  · intro idx _ hidx hne
    rw [bmapOf_direct (by omega)] at hne ⊢
    exact h.data idx (by omega) hne
  · intro idx _ hidx hne
    rw [bmapOf_direct (by omega)] at hne ⊢
    exact h.used idx (by omega) hne
  · intro i j _ hi _ hj hne heq
    rw [bmapOf_direct (by omega)] at hne heq
    rw [bmapOf_direct (by omega)] at heq
    exact h.distinct i j (by omega) (by omega) hne heq

theorem TreeFile.of_direct (hno : fs.IsInode no) (howns : OwnsDirect fs.view (fs.inodeOf no))
    (hsize : fs.fileBlocks (fs.inodeOf no).size ≤ 12) :
    TreeFile fs no := by
  obtain ⟨htrimmable, hmarked⟩ := howns.marked hsize
  refine ⟨⟨hno, htrimmable.tables, htrimmable.single,
    fun idx hidx => hmarked.data idx (Nat.zero_le _) (by omega), ?_⟩, hmarked⟩
  intro i j _ hj _ hmem
  rw [pointerBlocks_direct (by omega)] at hmem
  exact absurd hmem List.not_mem_nil

theorem OwnsDirect.emptyFile (howns : OwnsDirect fs.view raw) (hv : Volume fs) (hno : fs.IsInode no)
    (hsize : raw.size ≤ 12 * fs.blockSize) :
    ∃ final, Cut {no} fs raw 0 (fs.fileBlocks raw.size) (Ext2.emptyFile fs no raw) final ∧
      (Ext2.emptyFile fs no raw).inodeOf no = final ∧ final.size = 0 ∧ final.links = raw.links := by
  have hbs := hv.inOrder.layout.blockSize
  have hle : fs.blockSize ≤ 4096 := hv.inOrder.layout.blockSize_le
  have hblocks : fs.blocksFor raw.size = fs.fileBlocks raw.size := by
    rw [blocksFor_eq fs raw.size_lt, if_pos (by omega)]
  have hcount := hbs.fileBlocks_le hsize
  obtain ⟨htrimmable, hmarked⟩ := howns.marked hcount
  have htrim := htrimmable.trim_loop hv.toSkeleton (by omega)
  obtain ⟨final, hfinal⟩ : ∃ final, ((freeBlocks (fs.fileBlocks raw.size) 0 raw fs).1.setSize
      0).setBlocks 0 = final := ⟨_, rfl⟩
  obtain ⟨htrim', hself⟩ := htrim.write hno (show ∀ k, final.block k = _ by
    intro k
    rw [← hfinal, Ext2Inode.block_setBlocks, Ext2Inode.block_setSize])
  have hout : Ext2.emptyFile fs no raw =
      (ext2WriteInode (freeBlocks (fs.fileBlocks raw.size) 0 raw fs).2 no final).2 := by
    unfold Ext2.emptyFile
    rw [hblocks, ← hfinal]
  rw [hout]
  refine ⟨final, htrim'.cut hv hmarked, hself, ?_, ?_⟩
  · rw [← hfinal, Ext2Inode.size_setBlocks, Ext2Inode.size_setSize, Nat.zero_mod]
  · rw [← hfinal, Ext2Inode.links_setBlocks, Ext2Inode.links_setSize, links_freeBlocks]

end Direct

section Calls

variable {fs fs' : Ext2Fs} {inode : VfsInode} {no lo m length : Nat}

theorem TreeFile.cut
    (h : TreeFile fs no) (hv : Volume fs) {T : Set Nat} {raw' : Ext2Inode}
    (htrim : Trim T fs (fs.inodeOf no) lo m fs' raw')
    (hn : lo + m ≤ fs.fileBlocks (fs.inodeOf no).size) :
    Cut T fs (fs.inodeOf no) lo m fs' raw' :=
  htrim.cut hv ⟨fun idx _ hlt => h.data idx (by omega),
    fun idx _ hlt => h.marked.used idx (Nat.zero_le _) (by omega),
    fun i j _ hi _ hj => h.marked.distinct i j (Nat.zero_le _) (by omega) (Nat.zero_le _)
      (by omega)⟩

/-- The loop over a part of a file, and its inode with the pointers that are left. -/
theorem SolidFile.trim
    (h : SolidFile fs no) (hs : Skeleton fs) (hn : lo + m ≤ fs.fileBlocks (fs.inodeOf no).size)
    (buf : Nat → BitVec 8) (size blocks : Nat) :
    ∃ fs', (ext2WriteInode (freeBlocks m lo (fs.inodeOf no) (fs.withBuf buf)).2 no
        (((freeBlocks m lo (fs.inodeOf no) (fs.withBuf buf)).1.setSize size).setBlocks blocks)).2 =
          fs' ∧
      Trim {no} fs (fs.inodeOf no) lo m fs' (fs'.inodeOf no) ∧
      (fs'.inodeOf no).size = size % 2 ^ 32 := by
  have hblock : ∀ k,
      (((freeBlocks m lo (fs.inodeOf no) (fs.withBuf buf)).1.setSize size).setBlocks blocks).block
        k = (freeBlocks m lo (fs.inodeOf no) (fs.withBuf buf)).1.block k := by
    intro k
    rw [Ext2Inode.block_setBlocks, Ext2Inode.block_setSize]
  have hpart : Trimmable fs (fs.inodeOf no) lo m (fs.fileBlocks (fs.inodeOf no).size) :=
    ⟨h.tables, h.single, fun idx _ hlt hne => (h.data idx (by omega) hne).1⟩
  obtain ⟨htrim, hself⟩ := (hpart.trim hs hn buf).write h.isInode hblock
  refine ⟨_, rfl, ?_, ?_⟩
  · rw [hself]
    exact htrim
  · rw [hself, Ext2Inode.size_setBlocks, Ext2Inode.size_setSize]

/-- `ext2_truncate` to less than the size. -/
theorem SolidFile.truncate (h : SolidFile fs no) (hs : Skeleton fs) (htype : inode.iType = .file)
    (hdata : inode.privateData = some no) (hlen : length < (fs.inodeOf no).size) :
    ∃ fs', ext2Truncate fs inode length = (true, { inode with iSize := length }, fs') ∧
      Trim {no} fs (fs.inodeOf no) (fs.keptBlocks length)
        (fs.blocksFor (fs.inodeOf no).size - fs.keptBlocks length) fs' (fs'.inodeOf no) ∧
      (fs'.inodeOf no).size = length := by
  have hlt := (fs.inodeOf no).size_lt
  obtain ⟨buf, hread⟩ := readInode_spec hs.layout.blockSize hs.healthy h.isInode
    (hs.inodePos_fits no)
  obtain ⟨fs', hout, htrim, hsize⟩ := h.trim hs
    (range_le fs hlen.le hlt) buf length
    (fs.keptBlocks length * (fs.blockSize / 512))
  refine ⟨fs', ?_, htrim, hsize.trans (Nat.mod_eq_of_lt (by omega))⟩
  unfold ext2Truncate
  rw [if_neg (by simp [htype]), hdata]
  dsimp only
  rw [hread]
  dsimp only
  rw [if_neg (show ¬ (fs.inodeOf no).size ≤ length by omega), ← hout]
  rfl

/-- `ext2_inode_write` of no bytes at the start. -/
theorem SolidFile.empty (h : SolidFile fs no) (hs : Skeleton fs) (htype : inode.iType = .file)
    (hdata : inode.privateData = some no) (buf : Nat → BitVec 8) :
    ∃ fs', ext2InodeWrite fs inode 0 buf 0 = (some 0, { inode with iSize := 0 }, fs') ∧
      Trim {no} fs (fs.inodeOf no) 0 (fs.blocksFor (fs.inodeOf no).size) fs' (fs'.inodeOf no) ∧
      (fs'.inodeOf no).size = 0 := by
  have hlt := (fs.inodeOf no).size_lt
  have hrange := range_le fs (Nat.zero_le (fs.inodeOf no).size) hlt
  obtain ⟨buf1, hread⟩ := readInode_spec hs.layout.blockSize hs.healthy h.isInode
    (hs.inodePos_fits no)
  obtain ⟨fs', hout, htrim, hsize⟩ := h.trim hs (show 0 + fs.blocksFor (fs.inodeOf no).size ≤ _ from
    hrange) buf1 0 0
  refine ⟨fs', ?_, htrim, hsize⟩
  unfold ext2InodeWrite
  rw [if_neg (by simp [htype]), hdata]
  dsimp only
  rw [hread]
  rw [← hout]
  rfl

end Calls

section Stray

variable {fs fs' : Ext2Fs} {inode : VfsInode} {no lo m length : Nat}

theorem SolidFile.bmap (h : SolidFile fs no) (hsize : BlockSizeOk fs)
    (htrim : Trim {no} fs (fs.inodeOf no) lo m fs' (fs'.inodeOf no)) {idx : Nat}
    (hidx : idx < fs.fileBlocks (fs.inodeOf no).size) :
    bmapOf fs' (fs'.inodeOf no) idx =
      if lo ≤ idx ∧ idx < lo + m ∧ Clearable fs (fs.inodeOf no) idx then 0
      else bmapOf fs (fs.inodeOf no) idx :=
  (htrim.bmap hsize (h.tables idx hidx) (fun hge => h.single idx hge hidx)).1

end Stray

/-- A file of 1024 bytes in block 8. -/
def fileRaw : Ext2Inode :=
  (Ext2Inode.zero.setSize 1024).setBlock 0 8

/-- The small image with this file as inode 12. -/
def fileFs : Ext2Fs :=
  (ext2WriteInode smallFs 12 fileRaw).2

theorem fileFs_shows :
    Shows fileFs (smallFs.view.withInode 12 fileRaw) ∧ fileFs.IsInode 12 := by
  have hinode : smallFs.IsInode 12 := by
    unfold Ext2Fs.IsInode
    decide +kernel
  have hshows : Shows fileFs (smallFs.view.withInode 12 fileRaw) :=
    (smallFs_volume.shows.writeInode hinode fileRaw).2
  exact ⟨hshows, (hshows.isInode_iff smallFs_volume.shows rfl).mpr hinode⟩

theorem smallFs_dataBlock {b : Nat} (h : b = 0 ∨ b = 7 ∨ b = 8) :
    b ∈ usedNumbers .block smallFs ∧ smallFs.DataBlock b := by
  have hbits : ∀ b ∈ [0, 7, 8], b < maxBits .block smallFs 0 ∧ bit .block smallFs 0 b = true ∧
      b < smallFs.sb.blocksCount ∧ ∀ p ∈ smallPlaces, p.blockNo smallFs ≠ b := by
    decide +kernel
  have hgroups : smallFs.bgdescCount = 1 ∧ smallFs.tableBlocks = 2 := by decide +kernel
  obtain ⟨hlt, hbit, hcount, hplaces⟩ := hbits b (by simpa using h)
  refine ⟨⟨0, b, by omega, hlt, ?_, hbit⟩, hcount, ?_⟩
  · rw [Nat.zero_mul, Nat.zero_add]
    rfl
  · intro p hp
    exact hplaces p (mem_smallPlaces hgroups.1 hgroups.2 hp)

theorem fileFs_file :
    TreeFile fileFs 12 := by
  obtain ⟨hshows, hinode⟩ := fileFs_shows
  have hraw : fileFs.inodeOf 12 = fileRaw := by
    rw [← hshows.inode 12 hinode, View.inode_withInode]
  have hblock : ∀ i, fileRaw.block i ≠ 0 → i = 0 ∧ fileRaw.block i = 8 := by
    intro i hne
    unfold fileRaw at hne ⊢
    rw [Ext2Inode.block_setBlock, Ext2Inode.block_setSize] at hne ⊢
    by_cases hi : i = 0
    · subst hi
      exact ⟨rfl, rfl⟩
    · exact absurd (if_neg hi) hne
  have height : 8 ∈ usedNumbers .block fileFs ∧ fileFs.DataBlock 8 := by
    rw [← hshows.used, ← hshows.dataBlocks]
    exact smallFs_dataBlock (Or.inr (Or.inr rfl))
  refine TreeFile.of_direct hinode ?_ (by decide +kernel)
  rw [hraw]
  refine ⟨?_, ?_, ?_⟩
  · intro i _ hne
    rw [(hblock i hne).2]
    exact height.1
  · intro i _ hne
    rw [(hblock i hne).2]
    exact height.2
  · intro i j _ _ hne heq
    rw [(hblock i hne).1, (hblock j (heq ▸ hne)).1]

section Contents

variable {fs fs' : Ext2Fs} {inode : VfsInode} {no lo m length : Nat}

variable (htrim : Trim {no} fs (fs.inodeOf no) lo m fs' (fs'.inodeOf no))
variable (hn : lo + m ≤ fs.fileBlocks (fs.inodeOf no).size)
include htrim hn

theorem Trim.keeps {b q : Nat} (hb : fs.DataBlock b)
    (hapart : ∀ j, j < fs.fileBlocks (fs.inodeOf no).size → b ∉ pointerBlocks fs (fs.inodeOf no) j)
    (hq : q < fs.blockSize) :
    fs'.diskByte b q = fs.diskByte b q := by
  refine htrim.bytes b q hb ?_ hq
  rintro rfl
  by_contra hcond
  push Not at hcond
  -- index 12 is in the file, and its pointer block is the single indirect block
  have hbs : 0 < fs.ptrsPerBlock := by
    have hsize := htrim.files.skeleton.layout.blockSize
    rw [← htrim.files.shape.ptrsPerBlock]
    unfold Ext2Fs.ptrsPerBlock
    rcases hsize with hs | hs | hs
    · omega
    · omega
    · omega
  apply hapart 12 (by omega)
  rw [pointerBlocks_single (by omega) (by omega)]
  exact List.mem_cons_self

theorem SolidFile.byteOf_kept (h : SolidFile fs no) (hsize : BlockSizeOk fs) {pos : Nat}
    (hpos : pos < (fs.inodeOf no).size)
    (hout : ¬ (lo ≤ pos / fs.blockSize ∧ pos / fs.blockSize < lo + m)) :
    byteOf fs' (fs'.inodeOf no) pos = byteOf fs (fs.inodeOf no) pos := by
  have hidx := hsize.index_lt hpos
  have hbmap := h.bmap hsize htrim hidx
  rw [if_neg (fun hx => hout ⟨hx.1, hx.2.1⟩)] at hbmap
  unfold byteOf
  rw [htrim.files.shape.blockSize, hbmap]
  split
  · rfl
  · rename_i hne
    exact htrim.keeps hn (h.data _ hidx hne)
      (fun j hj => h.apart _ j hidx hj hne) (Nat.mod_lt _ hsize.pos)

theorem Trim.byteOf_other (hsize : BlockSizeOk fs) {k pos : Nat} (hk : SolidFile fs k)
    (hne : k ≠ no) (hapart : Apart fs no k) (hpos : pos < (fs.inodeOf k).size) :
    byteOf fs' (fs'.inodeOf k) pos = byteOf fs (fs.inodeOf k) pos := by
  have hidx := hsize.index_lt hpos
  rw [htrim.files.inode k hk.isInode hne]
  apply byteOf_congr hsize htrim.files.shape.blockSize (fun _ _ _ => rfl)
  intro b hb q hq
  refine htrim.keeps hn ?_ (fun j hj hmem => hapart j _ b hj hidx (Or.inl hmem) hb) hq
  rcases hb with hb | ⟨rfl, hb⟩
  · exact hk.tables _ hidx b hb
  · exact hk.data _ hidx hb

omit htrim hn

/-- `ext2_truncate` cuts nothing below the new length. -/
theorem SolidFile.truncate_cases
    (h : SolidFile fs no) (hs : Skeleton fs) (htype : inode.iType = .file)
    (hdata : inode.privateData = some no) (hlen : length < 2 ^ 32) :
    ∃ fs' lo m, ext2Truncate fs inode length = (true, { inode with iSize := length }, fs') ∧
      Trim {no} fs (fs.inodeOf no) lo m fs' (fs'.inodeOf no) ∧ (fs'.inodeOf no).size = length ∧
      lo + m ≤ fs.fileBlocks (fs.inodeOf no).size ∧
      ∀ pos, pos < length → ¬ (lo ≤ pos / fs.blockSize ∧ pos / fs.blockSize < lo + m) := by
  have hsize := hs.layout.blockSize
  have hlt := (fs.inodeOf no).size_lt
  by_cases hless : length < (fs.inodeOf no).size
  · obtain ⟨fs', hout, htrim, hnew⟩ := h.truncate hs htype hdata hless
    refine ⟨fs', _, _, hout, htrim, hnew, range_le fs hless.le hlt, ?_⟩
    intro pos hpos
    have hbelow := hsize.below_kept hless.le hlt hpos
    omega
  · -- the branch that only writes the inode
    obtain ⟨buf, hread⟩ := readInode_spec hsize hs.healthy h.isInode (hs.inodePos_fits no)
    obtain ⟨fs', hout, htrim, hnew⟩ := h.trim hs (show 0 + 0 ≤ _ from Nat.zero_le _) buf length
      (fs.blocksFor length * (fs.blockSize / 512))
    refine ⟨fs', 0, 0, ?_, htrim, hnew.trans (Nat.mod_eq_of_lt (by omega)), Nat.zero_le _,
      fun pos _ => by omega⟩
    unfold ext2Truncate
    rw [if_neg (by simp [htype]), hdata]
    dsimp only
    rw [hread]
    dsimp only
    rw [if_pos (show (fs.inodeOf no).size ≤ length by omega), ← hout]
    rfl

/--
`ext2_truncate` of a file to its size or less, whatever levels of indirect blocks the file
uses: the size is the length, what is below the length reads as before, and every file
without a block in common reads as before.
-/
theorem truncate_keeps_data
    (hs : Skeleton fs) (h : SolidFile fs no) (htype : inode.iType = .file)
    (hdata : inode.privateData = some no) (hlen : length ≤ (fs.inodeOf no).size) :
    ∃ fs', ext2Truncate fs inode length = (true, { inode with iSize := length }, fs') ∧
      (fs'.inodeOf no).size = length ∧
      (∀ o len, o + len ≤ length →
        (ext2InodeRead fs' inode o len).1 = (ext2InodeRead fs inode o len).1) ∧
      ∀ k (other : VfsInode), SolidFile fs k → k ≠ no → Apart fs no k → other.iType = .file →
        other.privateData = some k → (fs'.inodeOf k).size = (fs.inodeOf k).size ∧
          ∀ o len, o + len < 2 ^ 32 →
            (ext2InodeRead fs' other o len).1 = (ext2InodeRead fs other o len).1 := by
  have hsize := hs.layout.blockSize
  have hlt := (fs.inodeOf no).size_lt
  obtain ⟨fs', lo, m, hout, htrim, hnew, hn, hbelow⟩ := h.truncate_cases hs htype hdata
    (show length < 2 ^ 32 by omega)
  have hs' := htrim.files.skeleton
  refine ⟨fs', hout, hnew, ?_, ?_⟩
  · intro o len hfits
    rw [inodeRead_spec hs' (by simp [htype]) (by simp [htype]) hdata
        ((htrim.files.shape.isInode no).mpr h.isInode) (by omega),
      inodeRead_spec hs (by simp [htype]) (by simp [htype]) hdata h.isInode (by omega), hnew,
      show min len (length - o) = len by omega,
      show min len ((fs.inodeOf no).size - o) = len by omega]
    congr 1
    apply List.map_congr_left
    intro k hk
    have hk' := List.mem_range.mp hk
    exact h.byteOf_kept htrim hn hsize (by omega) (hbelow _ (by omega))
  · intro k other hk hne hapart htype' hdata'
    have hinode := htrim.files.inode k hk.isInode hne
    refine ⟨by rw [hinode], ?_⟩
    intro o len hfits
    rw [inodeRead_spec hs' (by simp [htype']) (by simp [htype']) hdata'
        ((htrim.files.shape.isInode k).mpr hk.isInode) hfits,
      inodeRead_spec hs (by simp [htype']) (by simp [htype']) hdata' hk.isInode hfits, hinode]
    congr 1
    apply List.map_congr_left
    intro j hj
    have hj' := List.mem_range.mp hj
    have hbyte := htrim.byteOf_other hn hsize hk hne hapart
      (show o + j < (fs.inodeOf k).size by omega)
    rwa [hinode] at hbyte

end Contents

/-- The file in block 8 is cut in the middle. -/
theorem truncate_keeps_data_small :
    ∃ fs', ext2Truncate fileFs holeInode 512 = (true, { holeInode with iSize := 512 }, fs') ∧
      (fs'.inodeOf 12).size = 512 ∧
      ∀ o len, o + len ≤ 512 →
        (ext2InodeRead fs' holeInode o len).1 = (ext2InodeRead fileFs holeInode o len).1 := by
  have hsize : 512 ≤ (fileFs.inodeOf 12).size := by decide +kernel
  obtain ⟨fs', hout, hnew, hkept, -⟩ := truncate_keeps_data fileFs_shows.1.volume.toSkeleton
    fileFs_file.toSolidFile
    (show holeInode.iType = .file from rfl) rfl hsize
  exact ⟨fs', hout, hnew, hkept⟩

end Ext2
end Homunculos
