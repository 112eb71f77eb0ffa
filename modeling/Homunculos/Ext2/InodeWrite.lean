import Homunculos.Ext2.Volume

/-!
# Writing an inode

`ext2_write_inode` reads the block of the inode, changes 128 bytes and writes the block
back.  Where whole inodes fill the blocks of the tables and the tables are apart from each
other and from the descriptors, it changes the inode it is given and nothing else; what else
is on the device does not matter.  The place of an inode in its table is computed in 32 bits,
so an inode further than that into its table shares its bytes with another one.
-/

namespace Homunculos
namespace Ext2

open Bytes Block

/-- Byte `k` of sector `s` belongs to the inode. -/
def Ext2Fs.InodeByte (fs : Ext2Fs) (n s k : Nat) : Prop :=
  ∃ q, q < 128 ∧ k = (fs.inodePos n + q) % 512 ∧
    s = sectorNo (fs.blockLba (fs.inodeBlock n)) ((fs.inodePos n + q) / 512)

/-- The inode is written, every other one reads as before, and so does every other byte. -/
structure InodeWritten (fs : Ext2Fs) (n : Nat) (raw : Ext2Inode) (fs' : Ext2Fs) : Prop where
  written : (ext2ReadInode fs' n).1 = some raw
  others : ∀ m, m ≠ n → (ext2ReadInode fs' m).1 = (ext2ReadInode fs m).1
  device : ∀ s k, s < 2 ^ 32 → k < 512 → ¬ fs.InodeByte n s k →
    fs'.dev.data s k = fs.dev.data s k

section Write

variable {fs fs' : Ext2Fs} {n m nr : Nat} {raw : Ext2Inode} {content : Nat → BitVec 8}

theorem BlockSizeOk.byte_in_block (h : BlockSizeOk fs) {s k : Nat} (hs : s < 2 ^ 32)
    (hk : k < 512) :
    ∃ b q, q < fs.blockSize ∧ k = q % 512 ∧ s = sectorNo (fs.blockLba b) (q / 512) := by
  refine ⟨s / (fs.blockSize / 512), s % (fs.blockSize / 512) * 512 + k, ?_, by omega, ?_⟩
  · rcases h with hb | hb | hb
    · rw [hb]
      omega
    · rw [hb]
      omega
    · rw [hb]
      omega
  · unfold sectorNo Ext2Fs.blockLba
    rcases h with hb | hb | hb
    · rw [hb]
      omega
    · rw [hb]
      omega
    · rw [hb]
      omega

theorem PutBlock.data_eq (hput : PutBlock nr content fs fs') (b : Nat) {q : Nat}
    (hq : q < fs.blockSize) :
    fs'.dev.data (sectorNo (fs.blockLba b) (q / 512)) (q % 512) =
      if fs.blockLba b = fs.blockLba nr then content q else fs.diskByte b q := by
  have hdisk : ∀ b, fs'.dev.data (sectorNo (fs.blockLba b) (q / 512)) (q % 512) =
      fs'.diskByte b q := by
    intro b
    unfold Ext2Fs.diskByte Ext2Fs.blockLba
    rw [hput.blockSize]
  split
  next hlba => rw [hlba, hdisk, hput.done q hq]
  next hlba => rw [hdisk, hput.frame _ _ hlba hq]

/-- An inode of a group whose descriptor has not been written is read from where it was. -/
theorem PutBlock.readInode (hput : PutBlock nr content fs fs') (h : InodeTables fs)
    (hm : fs.IsInode m) (hdesc : fs.blockLba (fs.descBlock (fs.inodeGroup m)) ≠ fs.blockLba nr) :
    (ext2ReadInode fs' m).1 =
      some (.ofBytes (fs'.diskByte (fs.inodeBlock m)) (fs.inodePos m)) := by
  have hsize : BlockSizeOk fs' := by
    unfold BlockSizeOk
    rw [hput.blockSize]
    exact h.blockSize
  have hm' : fs'.IsInode m := by
    unfold Ext2Fs.IsInode
    rw [hput.sb]
    exact hm
  have hgroup : fs'.inodeGroup m = fs.inodeGroup m := by
    unfold Ext2Fs.inodeGroup
    rw [hput.sb]
  have hoffset : fs'.inodeOffset m = fs.inodeOffset m := by
    unfold Ext2Fs.inodeOffset Ext2Fs.inodeSize
    rw [hput.sb]
  have hpos : fs'.inodePos m = fs.inodePos m := by
    unfold Ext2Fs.inodePos
    rw [hoffset, hput.blockSize]
  have hblock : fs'.inodeBlock m = fs.inodeBlock m := by
    unfold Ext2Fs.inodeBlock Ext2Fs.inodeBlockIn
    rw [hgroup, hoffset, hput.blockSize, hput.desc h.blockSize hdesc]
  have hfits : fs'.inodePos m + 128 ≤ fs'.blockSize := by
    rw [hpos, hput.blockSize]
    exact h.pos_fits m
  obtain ⟨buf, hread⟩ := readInode_spec hsize hput.healthy hm' hfits
  rw [hread]
  unfold Ext2Fs.inodeOf
  rw [hblock, hpos]

theorem InodeTables.read_back (h : InodeTables fs) (hhealthy : fs.dev.Healthy) (hn : fs.IsInode n)
    (raw : Ext2Inode) :
    (ext2ReadInode (ext2WriteInode fs n raw).2 n).1 = some raw := by
  obtain ⟨-, hput⟩ := writeInode_spec h.blockSize hhealthy hn raw
  have hfits := h.pos_fits n
  rw [hput.readInode h hn (h.descs n n _ hn hn (h.block_lt n)),
    ← ofBytes_copy (fs.diskByte (fs.inodeBlock n)) (fs.inodePos n) raw]
  congr 1
  apply ofBytes_congr
  intro q hq
  rw [ofBytes_copy]
  exact hput.done _ (by omega)

/-- Whole inodes fill the tables, and every inode is in the first 2 ^ 32 bytes of its table. -/
theorem writeInode_changes_one (h : InodeTables fs) (hfits : fs.OffsetsFit)
    (hhealthy : fs.dev.Healthy) (hn : fs.IsInode n) (raw : Ext2Inode) :
    (ext2WriteInode fs n raw).1 = true ∧ InodeWritten fs n raw (ext2WriteInode fs n raw).2 := by
  obtain ⟨hok, hput⟩ := writeInode_spec h.blockSize hhealthy hn raw
  refine ⟨hok, h.read_back hhealthy hn raw, ?_, ?_⟩
  · intro m hne
    by_cases hm : fs.IsInode m
    · have hpos := h.pos_fits m
      obtain ⟨buf, hread⟩ := readInode_spec h.blockSize hhealthy hm hpos
      rw [hput.readInode h hm (h.descs n m _ hn hm (h.block_lt n)), hread]
      congr 1
      apply ofBytes_congr
      intro q hq
      rcases h.apart hfits hn hm hne with hlba | ⟨hblock, happart⟩
      · exact hput.frame _ _ hlba (by omega)
      · rw [hblock, hput.done _ (by omega), copy_outside (by omega)]
    · rw [readInode_of_not_isInode hm, readInode_of_not_isInode]
      unfold Ext2Fs.IsInode
      rwa [hput.sb]
  · intro s k hs hk hout
    obtain ⟨b, q, hq, rfl, rfl⟩ := h.blockSize.byte_in_block hs hk
    rw [hput.data_eq b hq]
    split
    next hlba =>
      rw [hlba] at hout ⊢
      apply copy_outside
      by_contra hin
      exact hout ⟨q - fs.inodePos n, by omega, by congr 1; omega, by congr 2; omega⟩
    next =>
      rfl

end Write

/-- Inode 12 of the small image is written. -/
theorem writeInode_changes_one_small :
    InodeWritten smallFs 12 .zero (ext2WriteInode smallFs 12 .zero).2 := by
  have hv := smallFs_volume
  have hinode : smallFs.IsInode 12 := by
    constructor
    · decide
    · decide +kernel
  exact (writeInode_changes_one hv.inodeTables hv.offsetsFit hv.inOrder.healthy hinode .zero).2

/-- The small image with 2 ^ 26 inodes in its only group, a table of 2 ^ 33 bytes. -/
def longFs : Ext2Fs :=
  { smallFs with sb := ⟨putU32 (putU32 smallFs.sb.bytes 0 (2 ^ 26)) 40 (2 ^ 26)⟩ }

theorem longFs_inodeTables :
    InodeTables longFs := by
  have hblock : longFs.blockSize = 1024 := by decide +kernel
  have hcount : longFs.sb.inodesCount = 2 ^ 26 := by decide +kernel
  have hper : longFs.sb.inodesPerGroup = 2 ^ 26 := by decide +kernel
  have hgroup : ∀ n, longFs.IsInode n → longFs.inodeGroup n = 0 := by
    intro n hn
    have hle := hn.2
    unfold Ext2Fs.inodeGroup
    rw [hper]
    omega
  refine ⟨Or.inl hblock, by decide +kernel, by decide +kernel, by decide, ?_, ?_⟩
  · intro n m j i hn hm hne
    rw [hgroup n hn, hgroup m hm] at hne
    exact absurd rfl hne
  · intro n m j hn hm hj
    have htable : (longFs.desc 0).inodeTable = 5 := by decide +kernel
    have hdesc : longFs.descBlock 0 = 2 := by decide +kernel
    have hblocks : longFs.tableBlocks = 2 ^ 23 := by decide +kernel
    rw [hgroup n hn, hgroup m hm]
    unfold Ext2Fs.tableBlock Ext2Fs.blockLba
    rw [hblock]
    omega

/-- The inode 2 ^ 32 bytes behind the first one is the first one. -/
theorem long_table_shares_bytes :
    InodeTables longFs ∧ longFs.dev.Healthy ∧ longFs.IsInode 1 ∧
      ¬ InodeWritten longFs 1 (Ext2Inode.zero.setMode 0x81A4)
        (ext2WriteInode longFs 1 (Ext2Inode.zero.setMode 0x81A4)).2 := by
  refine ⟨longFs_inodeTables, smallFs_volume.inOrder.healthy, ⟨le_refl 1, by decide +kernel⟩, ?_⟩
  intro h
  have hother := congrArg (Option.map Ext2Inode.mode) (h.others (2 ^ 25 + 1) (by decide))
  exact absurd hother (by decide +kernel)

end Ext2
end Homunculos
