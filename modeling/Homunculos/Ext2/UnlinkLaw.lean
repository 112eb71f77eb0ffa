import Homunculos.Ext2.Release
import Homunculos.Ext2.Rmdir

/-!
# What `ext2_unlink` frees

With the last link `ext2_unlink` asks `ext2_inode_bmap` for every block index below the
size and frees what it gets, whatever type the inode has: the target bytes of a short
symbolic link, a device number and the words of block 0 behind a missing indirect block
are freed as block numbers.  Indirect blocks themselves are never freed.
-/

namespace Homunculos
namespace Ext2

open Bytes Block Naming

/-- Where other inodes have block pointers this one has a target or a device number. -/
def Ext2Inode.Inline (raw : Ext2Inode) : Prop :=
  typeOf raw.mode = .symlink ∧ raw.size ≤ 60 ∨ typeOf raw.mode = .chr ∨ typeOf raw.mode = .blk

/-- The index leads to its block by pointers of the inode. -/
def ByPointers (fs : Ext2Fs) (raw : Ext2Inode) (idx : Nat) : Prop :=
  ¬ raw.Inline ∧ 0 ∉ pointerBlocks fs raw idx

/-- A data block of the inode, or an indirect block on the way to one. -/
def Owns (fs : Ext2Fs) (raw : Ext2Inode) (n b : Nat) : Prop :=
  ∃ idx, idx < n ∧ (ByPointers fs raw idx ∧ bmapOf fs raw idx = b ∨
    ¬ raw.Inline ∧ b ∈ (pointerBlocks fs raw idx).takeWhile (· ≠ 0))

/-- `ext2_unlink` succeeds and clears the bits of blocks of the inode only. -/
def FreesOwn (fs : Ext2Fs) (parent : VfsInode) (name : List (BitVec 8)) (raw : Ext2Inode)
    (n : Nat) : Prop :=
  ∃ fs', ext2Unlink fs parent name = some (true, fs') ∧
    ∀ b, b ∈ usedNumbers .block fs → b ∉ usedNumbers .block fs' → Owns fs raw n b

/--
The blocks that are read as pointer blocks are data blocks in use, and no index leads to one of
them or to the block of another index.
-/
structure OwnTree (fs : Ext2Fs) (raw : Ext2Inode) (n : Nat) : Prop where
  tables : ∀ idx, idx < n → ∀ b ∈ pointerBlocks fs raw idx,
    b ∈ usedNumbers .block fs ∧ fs.DataBlock b
  single : ∀ idx, 12 + fs.ptrsPerBlock ≤ idx → idx < n → raw.block 12 ∈ pointerBlocks fs raw idx →
    raw.block 12 = 0
  apart : ∀ i j, i < n → j < n → bmapOf fs raw i ≠ 0 → bmapOf fs raw i ∉ pointerBlocks fs raw j
  distinct : ∀ i j, i < n → j < n → bmapOf fs raw i ≠ 0 → bmapOf fs raw i = bmapOf fs raw j → i = j

section Call

variable {fs fs₁ : Ext2Fs} {raw raw1 : Ext2Inode} {d no n : Nat}
variable {name : List (BitVec 8)} {parent : VfsInode}

/-- `ext2_unlink` of a name that is there, up to the inode of the child. -/
theorem DirWf.unlink (h : DirWf fs d) (hparent : parent.privateData = some d)
    (hscan : lookupScan fs d name = some (some no)) (hno : fs.IsInode no) :
    ∃ fs₁, ext2Unlink fs parent name = some (true, dropInode fs₁ no (fs.inodeOf no)) ∧
      SameInodes ∅ fs fs₁ ∧ usedNumbers .block fs₁ = usedNumbers .block fs ∧
      ∀ b q, b ∈ usedNumbers .block fs → fs.DataBlock b →
        (∀ i, i < 12 → (fs.inodeOf d).block i ≠ 0 → (fs.inodeOf d).block i ≠ b) →
        q < fs.blockSize → fs₁.diskByte b q = fs.diskByte b q := by
  obtain ⟨ents, hdir⟩ := h.records
  have hshows := h.volume.shows
  obtain ⟨buf0, hread⟩ := hshows.readInode h.isInode
  obtain ⟨buf1, hfind⟩ := hdir.laid.findEntry_eq (hshows.withBuf buf0) name
  have hfind' : findEntry (fs.withBuf buf0) (fs.view.inode d) name =
      some ((dirBindings ents).lookup name, fs.withBuf buf1) := hfind
  have hlookup : (dirBindings ents).lookup name = some no := by
    simp only [lookupScan, hread, hfind', Option.map_some, Option.some.injEq] at hscan
    exact hscan
  rcases removeEntry_laid (hshows.withBuf buf1) h.isInode hdir.laid hparent name with
    ⟨_, -, -, hnone⟩ | ⟨e, v1, ents1, fs₁, hout, hdropped, hshows1⟩
  · exact absurd (mem_of_lookup hlookup) (hnone no)
  have hee : e = no := by
    have hfirst := hdropped.taken.lookup_eq
    rw [hlookup] at hfirst
    exact (Option.some.inj hfirst).symm
  subst hee
  have hframe := hdropped.frame
  have hsame : SameInodes ∅ fs fs₁ := hshows1.sameInodes hframe.blockSize hframe.inodes
    hframe.dataBlocks hframe.usedInodes (fun k _ => congrFun hdropped.inode k)
  obtain ⟨buf2, hread1⟩ := hshows1.readInode (hsame.isInode hno)
  have hinode : v1.inode e = fs.inodeOf e := congrFun hdropped.inode e
  refine ⟨fs₁.withBuf buf2, ?_, hsame.trans (hsame.volume.sameInodes_withBuf buf2),
    (hshows1.used .block).symm.trans hdropped.usedBlocks, ?_⟩
  · simp only [ext2Unlink, hparent, hread, hfind', hlookup, hout, hread1, hinode]
  · intro b q hb hdata hapart hq
    have hkept := congrFun (hframe.data b hb hapart) q
    rw [hshows1.data b q ((hsame.dataBlock b).mpr hdata) (hsame.blockSize ▸ hq)] at hkept
    exact hkept

/-- With the last name the loop frees every block that an index of the inode leads to. -/
theorem OwnTree.unlink
    (h : OwnTree fs (fs.inodeOf no) n) (hdir : DirWf fs d) (hparent : parent.privateData = some d)
    (hscan : lookupScan fs d name = some (some no)) (hno : fs.IsInode no)
    (hlinks : (fs.inodeOf no).links = 1) (hn : fs.blocksFor (fs.inodeOf no).size = n)
    (hapart : ∀ idx, idx < n → ∀ b ∈ pointerBlocks fs (fs.inodeOf no) idx,
      ∀ i, i < 12 → (fs.inodeOf d).block i ≠ 0 → (fs.inodeOf d).block i ≠ b)
    (hcount : ∀ idx, idx < n → bmapOf fs (fs.inodeOf no) idx < fs.sb.blocksCount) :
    ∃ fs', ext2Unlink fs parent name = some (true, fs') ∧ UsedLeft fs (fs.inodeOf no) 0 n fs' := by
  obtain ⟨fs₁, hout, hsame, hused, hbytes⟩ := hdir.unlink hparent hscan hno
  obtain ⟨raw, hraw⟩ : ∃ raw, (fs.inodeOf no).dropLink = raw := ⟨_, rfl⟩
  have hblock : ∀ k, raw.block k = (fs.inodeOf no).block k := by
    intro k
    rw [← hraw, Ext2Inode.block_dropLink]
  have hsize := hdir.volume.layout.blockSize
  -- the directory is elsewhere, so the tree is what it was
  have hboth : ∀ idx, idx < n → bmapOf fs₁ raw idx = bmapOf fs (fs.inodeOf no) idx ∧
      pointerBlocks fs₁ raw idx = pointerBlocks fs (fs.inodeOf no) idx :=
    fun idx hidx => bmapOf_congr hsize hsame.blockSize (fun slot _ _ => hblock slot)
      (fun b hb q hq => hbytes b q (h.tables idx hidx b hb).1 (h.tables idx hidx b hb).2
        (hapart idx hidx b hb) hq)
  have htrimmable : Trimmable fs₁ raw 0 n n := by
    refine ⟨?_, ?_, ?_⟩
    · intro idx hidx b hb
      rw [(hboth idx hidx).2] at hb
      exact (hsame.dataBlock b).mpr (h.tables idx hidx b hb).2
    · intro idx hge hidx hmem
      rw [hsame.ptrsPerBlock] at hge
      rw [(hboth idx hidx).2, hblock] at hmem
      rw [hblock]
      exact h.single idx hge hidx hmem
    · intro idx _ hidx _
      rw [(hboth idx (by omega)).1]
      by_cases hmem : bmapOf fs (fs.inodeOf no) idx ∈ usedNumbers .block fs
      · exact hsame.volume.used_lt (hused ▸ hmem)
      · exact ((hsame.dataBlock _).mpr (hdir.volume.data_of_unused (hcount idx (by omega)) hmem)).1
  have hs₁ := hsame.volume.toSkeleton
  have hfinal : ∀ k, (((freeBlocks n 0 raw fs₁).1.setSize 0).setBlocks 0).block k =
      (freeBlocks n 0 raw fs₁).1.block k := fun k => by
    rw [Ext2Inode.block_setBlocks, Ext2Inode.block_setSize]
  obtain ⟨htrim, -⟩ := (htrimmable.trim_loop hs₁ (by omega)).write (hsame.isInode hno) hfinal
  obtain ⟨m, rfl⟩ : ∃ m, no = m + 1 := ⟨no - 1, by have := hno.1; omega⟩
  have hlast := ((htrim.files.shape.isInode _).mpr (hsame.isInode hno)).2
  obtain ⟨-, hfreed, -⟩ := htrim.files.skeleton.free (k := .inode) (Nat.lt_of_succ_le hlast)
  have hdrop := (fs.inodeOf (m + 1)).links_dropLink (by omega)
  have hblocks : fs₁.blocksFor raw.size = n := by
    have hsize' : raw.size = (fs.inodeOf (m + 1)).size := by
      rw [← hraw]
      exact Ext2Inode.size_setLinks ..
    unfold Ext2Fs.blocksFor
    rw [hsame.blockSize, hsize']
    exact hn
  refine ⟨ext2FreeInode (emptyFile fs₁ (m + 1) raw) (m + 1), ?_, ?_⟩
  · rw [hout]
    unfold dropInode
    rw [if_pos (by omega), hraw]
  · intro b
    have hkept : usedNumbers .block (ext2FreeInode (emptyFile fs₁ (m + 1) raw) (m + 1)) =
        usedNumbers .block (emptyFile fs₁ (m + 1) raw) := by
      unfold emptyFile
      rw [hblocks]
      exact (hfreed .block).trans (if_neg (by decide))
    rw [hkept]
    unfold emptyFile
    rw [hblocks, htrim.used, hused]
    refine and_congr_right (fun _ => forall_congr' fun j => ?_)
    refine forall_congr' fun _ => forall_congr' fun hj => ?_
    rw [(hboth j (by omega)).1]

/-- `ext2_unlink` of the last name of an inode of any type. It clears the bits of blocks of the
inode only, if every index that `ext2_inode_bmap` maps is mapped by pointers of the inode: not
by the bytes of a short target or a device number, nor by the words of block 0. Where all numbers
are block numbers, this holds exactly if the indices that lead to a block in use are mapped so. -/
theorem unlink_frees_own_iff
    (hdir : DirWf fs d) (hparent : parent.privateData = some d)
    (hscan : lookupScan fs d name = some (some no)) (hno : fs.IsInode no)
    (hlinks : (fs.inodeOf no).links = 1) (hn : fs.blocksFor (fs.inodeOf no).size = n)
    (htree : OwnTree fs (fs.inodeOf no) n)
    (hapart : ∀ idx, idx < n → ∀ b ∈ pointerBlocks fs (fs.inodeOf no) idx,
      ∀ i, i < 12 → (fs.inodeOf d).block i ≠ 0 → (fs.inodeOf d).block i ≠ b)
    (hvalid : ∀ idx, idx < n → ByPointers fs (fs.inodeOf no) idx →
      bmapOf fs (fs.inodeOf no) idx < fs.sb.blocksCount) :
    ((∀ idx, idx < n → bmapOf fs (fs.inodeOf no) idx ≠ 0 → ByPointers fs (fs.inodeOf no) idx) →
      FreesOwn fs parent name (fs.inodeOf no) n) ∧
    ((∀ idx, idx < n → bmapOf fs (fs.inodeOf no) idx < fs.sb.blocksCount) →
      (FreesOwn fs parent name (fs.inodeOf no) n ↔
        ∀ idx, idx < n → bmapOf fs (fs.inodeOf no) idx ≠ 0 →
          bmapOf fs (fs.inodeOf no) idx ∈ usedNumbers .block fs →
          ByPointers fs (fs.inodeOf no) idx)) := by
  have hiff : (∀ idx, idx < n → bmapOf fs (fs.inodeOf no) idx < fs.sb.blocksCount) →
      (FreesOwn fs parent name (fs.inodeOf no) n ↔
        ∀ idx, idx < n → bmapOf fs (fs.inodeOf no) idx ≠ 0 →
          bmapOf fs (fs.inodeOf no) idx ∈ usedNumbers .block fs →
          ByPointers fs (fs.inodeOf no) idx) := by
    intro hcount
    obtain ⟨fs', hout, hused⟩ := htree.unlink hdir hparent hscan hno hlinks hn hapart hcount
    constructor
    · rintro ⟨fs'', hout', hown⟩ idx hidx hne hmem
      obtain rfl : fs' = fs'' := by
        rw [hout] at hout'
        exact (Prod.mk.inj (Option.some.inj hout')).2
      have hgone : bmapOf fs (fs.inodeOf no) idx ∉ usedNumbers .block fs' :=
        fun hb => ((hused _).mp hb).2 idx (Nat.zero_le _) (by omega) hne rfl
      obtain ⟨j, hj, ⟨hby, heq⟩ | ⟨-, hj'⟩⟩ := hown _ hmem hgone
      · rwa [htree.distinct idx j hidx hj hne heq.symm]
      · exact absurd ((List.takeWhile_sublist _).subset hj') (htree.apart idx j hidx hj hne)
    · intro hby
      refine ⟨fs', hout, ?_⟩
      intro b hmem hgone
      by_contra hnot
      refine hgone ((hused b).mpr ⟨hmem, ?_⟩)
      rintro idx - hidx hne rfl
      exact hnot ⟨idx, by omega, Or.inl ⟨hby idx (by omega) hne hmem, rfl⟩⟩
  refine ⟨fun hby => (hiff ?_).mpr (fun idx hidx hne _ => hby idx hidx hne), hiff⟩
  intro idx hidx
  by_cases hzero : bmapOf fs (fs.inodeOf no) idx = 0
  · rw [hzero]
    exact hdir.volume.used_lt hdir.volume.zero_used
  · exact hvalid idx hidx (hby idx hidx hzero)

end Call

/-- The small image with an empty block 0 and this inode as `d` in the root directory. -/
def namedFs (raw : Ext2Inode) : Ext2Fs :=
  let fs := (ext2WriteBlock smallFs 0 (fun _ => 0#8)).2
  let fs := (ext2WriteBlock fs 7 rootBlock).2
  (ext2WriteInode (ext2WriteInode fs 2 (dirRaw 2 7)).2 12 raw).2

def namedView (raw : Ext2Inode) : View :=
  (((smallFs.view.withData 0 (fun _ => 0#8)).withData 7 rootBlock).withInode 2
    (dirRaw 2 7)).withInode 12 raw

theorem namedFs_shows (raw : Ext2Inode) :
    Shows (namedFs raw) (namedView raw) := by
  have hshows := smallFs_volume.shows
  have hinode : smallFs.IsInode 12 := by
    unfold Ext2Fs.IsInode
    decide +kernel
  have hi := smallFs_volume.inOrder
  have hput := (writeBlock_put smallFs hi.layout.blockSize hi.healthy 0 (fun _ => 0#8)).2
  have hshows1 := hshows.putData hput (smallFs_dataBlock (Or.inl rfl)).2
  have hi1 := hshows1.volume.inOrder
  have hput1 := (writeBlock_put _ hi1.layout.blockSize hi1.healthy 7 rootBlock).2
  have hshows2 := hshows1.putData hput1 (smallFs_dataBlock (Or.inr (Or.inl rfl))).2
  have hshows3 := (hshows2.writeInode ((hshows2.isInode_iff hshows rfl).mpr isInode_two)
    (dirRaw 2 7)).2
  exact (hshows3.writeInode ((hshows3.isInode_iff hshows rfl).mpr hinode) raw).2

/-- The records of the root directory. -/
def rootEnts : Nat → List Dirent
  | 0 => [0, 12, 24].map (direntAt rootBlock)
  | _ => []

theorem rootBlock_records :
    Records rootBlock 0 1024 (rootEnts 0) := by
  have hone : ∀ p ∈ [(0, 12), (12, 12), (24, 1000)],
      Records rootBlock p.1 (p.1 + p.2) [direntAt rootBlock p.1] := by
    intro p hp
    have hlens : ∀ p ∈ [(0, 12), (12, 12), (24, 1000)],
        (direntAt rootBlock p.1).recLen = p.2 ∧ (direntAt rootBlock p.1).used ≤ p.2 ∧
          p.2 % 4 = 0 := by
      decide +kernel
    obtain ⟨hlen, hused, haligned⟩ := hlens p hp
    have hsingle := Records.single (m := rootBlock) (o := p.1) rfl
      ⟨hlen ▸ haligned, by rw [hlen]; exact hused⟩
    rwa [hlen] at hsingle
  exact (hone (0, 12) (by simp)).append ((hone (12, 12) (by simp)).append
    (hone (24, 1000) (by simp)))

theorem namedFs_dir (raw : Ext2Inode) :
    DirWf (namedFs raw) 2 ∧ lookupScan (namedFs raw) 2 [0x64#8] = some (some 12) ∧
      12 ∈ usedNumbers .inode (namedFs raw) ∧ (namedFs raw).inodeOf 12 = raw := by
  have hshows := namedFs_shows raw
  have hinodes : ∀ n, smallFs.IsInode n → (namedFs raw).IsInode n :=
    fun n => (hshows.isInode_iff smallFs_volume.shows rfl).mpr
  have hd : (namedFs raw).IsInode 2 := hinodes 2 isInode_two
  have hdir : (namedView raw).inode 2 = dirRaw 2 7 := by
    unfold namedView
    rw [View.inode_withInode_of_ne _ (by decide), View.inode_withInode]
  have hblock : ∀ i, (dirRaw 2 7).block i ≠ 0 → i = 0 ∧ (dirRaw 2 7).block i = 7 := by
    intro i hne
    unfold dirRaw at hne ⊢
    rw [Ext2Inode.block_setBlock, Ext2Inode.block_setSize, Ext2Inode.block_setLinks,
      Ext2Inode.block_setMode] at hne ⊢
    by_cases hi : i = 0
    · subst hi
      exact ⟨rfl, rfl⟩
    · exact absurd (if_neg hi) hne
  have hbs : (namedView raw).blockSize = 1024 := by
    change smallFs.blockSize = 1024
    decide +kernel
  have hsize : (dirRaw 2 7).size = 1024 := by decide
  obtain ⟨hseven, hseven'⟩ := smallFs_dataBlock (Or.inr (Or.inl (Eq.refl 7)))
  have hok : DirOk (namedView raw) ((namedView raw).inode 2) rootEnts := by
    rw [hdir]
    refine ⟨⟨?_, ?_, ?_, by decide +kernel⟩, ?_, ?_, ?_, ?_⟩
    · rw [hbs]
      decide
    · intro i _ hne
      rw [(hblock i hne).1]
      exact rootBlock_records
    · intro i _ hzero
      match i with
      | 0 => cases hzero
      | _ + 1 => rfl
    · intro i _ hne
      rw [(hblock i hne).1, hbs, hsize]
    · intro i _ hne
      rw [(hblock i hne).2]
      exact hseven
    · intro i _ hne
      rw [(hblock i hne).2]
      exact hseven'
    · intro i j _ _ hne heq
      rw [(hblock i hne).1, (hblock j (heq ▸ hne)).1]
  have hused : ∀ n ∈ [2, 12], n ∈ usedNumbers .inode smallFs := by
    have hbits : ∀ n ∈ [2, 12], n - 1 < maxBits .inode smallFs 0 ∧
        bit .inode smallFs 0 (n - 1) = true ∧ 0 < smallFs.bgdescCount ∧
        n = 0 * Kind.inode.perGroup smallFs.sb + (n - 1) + 1 := by
      decide +kernel
    intro n hn
    obtain ⟨hlt, hbit, hg, heq⟩ := hbits n hn
    exact ⟨0, n - 1, hg, hlt, heq, hbit⟩
  have hshown : ∀ n ∈ [2, 12], n ∈ usedNumbers .inode (namedFs raw) := by
    intro n hn
    rw [← hshows.used]
    exact hused n hn
  refine ⟨hok.wf hshows hd (hused 2 (by simp)), ?_, hshown 12 (by simp), ?_⟩
  · rw [hok.lookupScan_some hshows hd]
    decide +kernel
  · have hn := hshows.volume.shows.isInode_of_used (hshown 12 (by simp))
    rw [← hshows.inode 12 hn]
    exact View.inode_withInode ..

/-- A file of 1024 bytes in block 8 with one name. -/
def onceRaw : Ext2Inode :=
  (fileRaw.setMode 0x81A4).setLinks 1

/-- The block of the file is freed as its own. -/
theorem unlink_frees_own_iff_file :
    bmapOf (namedFs onceRaw) onceRaw 0 = 8 ∧
      FreesOwn (namedFs onceRaw) (fullDir 1024) [0x64#8] onceRaw 1 := by
  obtain ⟨hdir, hscan, hused, hraw⟩ := namedFs_dir onceRaw
  have hplain : ¬ onceRaw.Inline ∧ onceRaw.links = 1 ∧ onceRaw.block 0 = 8 := by
    unfold Ext2Inode.Inline
    decide +kernel
  have hzero : ∀ idx, idx < 1 → bmapOf (namedFs onceRaw) onceRaw idx = 8 ∧
      pointerBlocks (namedFs onceRaw) onceRaw idx = [] := by
    intro idx hidx
    obtain rfl : idx = 0 := by omega
    exact ⟨(bmapOf_direct (by decide)).trans hplain.2.2, pointerBlocks_direct (by decide)⟩
  have hnone : ∀ idx, idx < 1 → ∀ b, b ∉ pointerBlocks (namedFs onceRaw) onceRaw idx := by
    intro idx hidx b
    rw [(hzero idx hidx).2]
    exact List.not_mem_nil
  have hshows := namedFs_shows onceRaw
  have height : (namedFs onceRaw).DataBlock 8 := by
    rw [← hshows.dataBlocks]
    exact (smallFs_dataBlock (Or.inr (Or.inr rfl))).2
  have htree : OwnTree (namedFs onceRaw) onceRaw 1 :=
    ⟨fun idx hidx b hb => absurd hb (hnone idx hidx b), fun idx hge hidx => by omega,
      fun i j _ hj _ => hnone j hj _, fun i j hi hj _ _ => by omega⟩
  have hlaw := unlink_frees_own_iff (n := 1) hdir
    (show (fullDir 1024).privateData = some 2 from rfl) hscan
    (hdir.volume.shows.isInode_of_used hused)
  rw [hraw] at hlaw
  refine ⟨(hzero 0 (by decide)).1, (hlaw hplain.2.1 ?_ htree
    (fun idx hidx b hb => absurd hb (hnone idx hidx b)) ?_).1
    (fun idx hidx _ => ⟨hplain.1, hnone idx hidx 0⟩)⟩
  · decide +kernel
  · intro idx hidx _
    rw [(hzero idx hidx).1]
    exact height.1

/-- A symbolic link whose target is the byte 9. -/
def tabLink : Ext2Inode :=
  (((Ext2Inode.zero.setMode 0xA1FF).setLinks 1).setSize 1).setBlock 0 9

/-- The link is removed, and block 9, which was in use, is free. -/
theorem unlink_frees_target :
    bit .block (namedFs tabLink) 0 9 = true ∧
      (ext2Unlink (namedFs tabLink) (fullDir 1024) [0x64#8]).map
        (fun r => (r.1, bit .block r.2 0 9)) = some (true, false) := by
  refine ⟨?_, ?_⟩
  · decide +kernel
  · decide +kernel

/-- A call of `ext2_inode_write`. -/
structure WriteCall where
  off : Nat
  buf : Nat → BitVec 8
  size : Nat

/-- The calls one after the other. -/
def runWrites (fs : Ext2Fs) (inode : VfsInode) : List WriteCall → Ext2Fs
  | [] => fs
  | c :: cs =>
    let r := ext2InodeWrite fs inode c.off c.buf c.size
    runWrites r.2.2 r.2.1 cs

/-- Writes to the direct blocks of a file that was empty have led from the first volume here. -/
structure Built (fs₀ fs : Ext2Fs) (no : Nat) : Prop where
  same : SameInodes {no} fs₀ fs
  links : (fs.inodeOf no).links = (fs₀.inodeOf no).links
  owns : OwnsDirect fs.view (fs.inodeOf no)
  size_le : (fs.inodeOf no).size ≤ 12 * fs.blockSize
  within : ∀ i, i < 12 → (fs.inodeOf no).block i ≠ 0 → i < fs.fileBlocks (fs.inodeOf no).size
  fresh : ∀ i, i < 12 → (fs.inodeOf no).block i ≠ 0 →
    (fs.inodeOf no).block i ∉ usedNumbers .block fs₀
  used : ∀ b, b ∈ usedNumbers .block fs ↔ b ∈ usedNumbers .block fs₀ ∨
    ∃ i, i < 12 ∧ (fs.inodeOf no).block i ≠ 0 ∧ (fs.inodeOf no).block i = b
  bytes : ∀ b q, b ∈ usedNumbers .block fs₀ → fs₀.DataBlock b → q < fs₀.blockSize →
    fs.diskByte b q = fs₀.diskByte b q

section Building

variable {fs₀ fs fs' : Ext2Fs} {d no : Nat} {inode parent : VfsInode} {raw raw' : Ext2Inode}
variable {name : List (BitVec 8)}

theorem Built.start (hv : Volume fs) (hsize : (fs.inodeOf no).size = 0)
    (hblock : ∀ i, i < 12 → (fs.inodeOf no).block i = 0) :
    Built fs fs no := by
  refine ⟨hv.sameInodes_withBuf fs.buf, rfl, ⟨?_, ?_, ?_⟩, ?_, ?_, ?_, ?_, fun _ _ _ _ _ => rfl⟩
  · exact fun i hi hne => absurd (hblock i hi) hne
  · exact fun i hi hne => absurd (hblock i hi) hne
  · exact fun i j hi _ hne => absurd (hblock i hi) hne
  · rw [hsize]
    exact Nat.zero_le _
  · exact fun i hi hne => absurd (hblock i hi) hne
  · exact fun i hi hne => absurd (hblock i hi) hne
  · refine fun b => ⟨Or.inl, ?_⟩
    rintro (hb | ⟨i, hi, hne, -⟩)
    · exact hb
    · exact absurd (hblock i hi) hne

variable (h : Built fs₀ fs no)
include h

theorem Built.withBuf (buf : Nat → BitVec 8) :
    Built fs₀ (fs.withBuf buf) no :=
  ⟨h.same.trans (h.same.volume.sameInodes_withBuf buf), h.links, h.owns, h.size_le, h.within,
    h.fresh, h.used, h.bytes⟩

theorem Built.fileBlocks_le :
    fs.fileBlocks (fs.inodeOf no).size ≤ 12 :=
  h.same.volume.inOrder.layout.blockSize.fileBlocks_le h.size_le

/-- When the loop has gone over the file, the blocks in use are those from before. -/
theorem Built.freed {fs₁ : Ext2Fs} (hused : usedNumbers .block fs₁ = usedNumbers .block fs)
    (hblock : ∀ i, raw.block i = (fs.inodeOf no).block i)
    (hcut : Cut {no} fs₁ raw 0 (fs.fileBlocks (fs.inodeOf no).size) fs' raw') :
    usedNumbers .block fs' = usedNumbers .block fs₀ ∧ ∀ i, i < 12 → raw'.block i = 0 := by
  have hcount := h.fileBlocks_le
  have hmapped : ∀ i, i < 12 → bmapOf fs₁ raw i = (fs.inodeOf no).block i :=
    fun i hi => (bmapOf_direct hi).trans (hblock i)
  refine ⟨?_, ?_⟩
  · ext b
    rw [hcut.used, hused, h.used]
    constructor
    · rintro ⟨hb | ⟨i, hi, hne, rfl⟩, hnot⟩
      · exact hb
      · have hlt := h.within i hi hne
        exact absurd (hmapped i hi) (hnot i (Nat.zero_le _) (by omega) (by rwa [hmapped i hi]))
    · intro hb
      refine ⟨Or.inl hb, ?_⟩
      intro i _ hi hne heq
      rw [hmapped i (by omega)] at hne heq
      exact h.fresh i (by omega) hne (heq ▸ hb)
  · intro i hi
    rw [hcut.block, hblock]
    by_cases hzero : (fs.inodeOf no).block i = 0
    · rw [hzero, ite_self]
    · have hlt := h.within i hi hzero
      rw [if_pos (by omega)]

theorem Built.emptied (hno : fs₀.IsInode no) :
    Built fs₀ (emptyFile fs no (fs.inodeOf no)) no := by
  have hcount := h.fileBlocks_le
  obtain ⟨final, hcut, hself, hsize, hlinks⟩ :=
    h.owns.emptyFile h.same.volume (h.same.isInode hno) h.size_le
  obtain ⟨hused, hblock⟩ := h.freed rfl (fun _ => rfl) hcut
  have hbuilt := Built.start hcut.same.volume (hself ▸ hsize) (fun i hi => hself ▸ hblock i hi)
  refine ⟨h.same.trans hcut.same, ?_, hbuilt.owns, hbuilt.size_le, hbuilt.within, ?_, ?_, ?_⟩
  · rw [hself, hlinks, h.links]
  · intro i hi hne
    rw [← hused]
    exact hbuilt.fresh i hi hne
  · intro b
    rw [← hused]
    exact hbuilt.used b
  · intro b q hb hdata hq
    rw [hcut.bytes b q ((h.same.dataBlock b).mpr hdata) (fun _ => Or.inr (by omega))
      (h.same.blockSize ▸ hq), h.bytes b q hb hdata hq]

omit h

/-- After a write the other inodes are what they were, and the file owns its blocks. -/
theorem Written.same {v : View} {final : Ext2Inode} {buf : Nat → BitVec 8} {off n : Nat}
    (h : Written fs.view (fs.inodeOf no) off buf n v raw)
    (hfinal : WrittenInode (fs.inodeOf no) raw off n final)
    (hshows : Shows fs' (v.withInode no final)) (hno : fs.IsInode no) :
    SameInodes {no} fs fs' ∧ fs'.inodeOf no = final ∧ OwnsDirect fs'.view (fs'.inodeOf no) := by
  have hsame : SameInodes {no} fs fs' := by
    refine hshows.sameInodes h.blockSize h.inodes h.dataBlocks h.usedInodes ?_
    intro k hk
    rw [View.inode_withInode_of_ne _ hk, h.inode]
    rfl
  have howns : OwnsDirect (v.withInode no final) ((v.withInode no final).inode no) := by
    rw [View.inode_withInode]
    exact h.owns.congr rfl rfl hfinal.block
  refine ⟨hsame, ?_, howns.onVolume hshows (hsame.isInode hno)⟩
  rw [← hshows.inode no (hsame.isInode hno), View.inode_withInode]

theorem WrittenInode.size_le
    {raw0 final : Ext2Inode} {off n m : Nat} (h : WrittenInode raw0 raw off n final)
    (hle : raw0.size ≤ m) (hfits : off + n ≤ m) :
    final.size ≤ m := by
  rw [h.size]
  split
  · exact max_le hle hfits
  · exact hle

theorem Built.stored (h : Built fs₀ fs no) (hno : fs₀.IsInode no) (htype : inode.iType = .file)
    (hdata : inode.privateData = some no) {off size : Nat} (buf : Nat → BitVec 8)
    (hsize : 0 < size) (hfits : off + size ≤ 12 * fs.blockSize) :
    Built fs₀ (ext2InodeWrite fs inode off buf size).2.2 no := by
  have hno' := h.same.isInode hno
  obtain ⟨n, v, raw, final, inode', fs', hout, hn, hwritten, hfinal, hshows, -, -⟩ :=
    inodeWrite_spec h.same.volume.shows htype hdata hno' h.owns buf hsize hfits
  rw [hout]
  obtain ⟨hsame, hself, howns⟩ := hwritten.same hfinal hshows hno'
  have hbs : fs'.blockSize = fs.blockSize := hsame.blockSize
  have hkept : ∀ i, (fs.inodeOf no).block i ≠ 0 → raw.block i = (fs.inodeOf no).block i :=
    fun i hne => hwritten.kept i (Or.inl hne)
  have hle : (fs.inodeOf no).size ≤ final.size := by
    rw [hfinal.size]
    split
    · exact le_max_left _ _
    · exact le_rfl
  have hfresh : ∀ i, i < 12 → raw.block i ≠ 0 → raw.block i ∉ usedNumbers .block fs₀ := by
    intro i hi hne
    by_cases hold : (fs.inodeOf no).block i = 0
    · exact fun hb => (hwritten.fresh i hi hold hne).1 ((h.used _).mpr (Or.inl hb))
    · rw [hkept i hold]
      exact h.fresh i hi hold
  refine ⟨h.same.trans hsame, ?_, howns, ?_, ?_, ?_, ?_, ?_⟩
  · rw [hself, hfinal.links]
    exact h.links
  · rw [hself, hbs]
    exact hfinal.size_le h.size_le (by omega)
  · intro i hi hne
    rw [hself, hfinal.block] at hne
    rw [hself]
    have hblocks : fs'.fileBlocks final.size = fs.fileBlocks final.size := by
      unfold Ext2Fs.fileBlocks
      rw [hbs]
    rw [hblocks]
    by_cases hold : (fs.inodeOf no).block i = 0
    · -- a new block is there for a byte that was written
      obtain ⟨-, p, hge, hlt, rfl⟩ := hwritten.fresh i hi hold hne
      refine h.same.volume.inOrder.layout.blockSize.index_lt ?_
      rw [hfinal.size, if_pos (by omega)]
      exact lt_of_lt_of_le hlt (le_max_right _ _)
    · exact lt_of_lt_of_le (h.within i hi hold) (fileBlocks_mono fs hle)
  · intro i hi hne
    rw [hself, hfinal.block] at hne ⊢
    exact hfresh i hi hne
  · intro b
    have hfs' : usedNumbers .block fs' = v.used .block := (hshows.used .block).symm
    have hfs : b ∈ fs.view.used .block ↔ b ∈ usedNumbers .block fs₀ ∨
        ∃ i, i < 12 ∧ (fs.inodeOf no).block i ≠ 0 ∧ (fs.inodeOf no).block i = b := h.used b
    rw [hfs', hwritten.used, hfs, hself]
    constructor
    · rintro ((hb | ⟨i, hi, hne, rfl⟩) | ⟨i, hi, -, hne, rfl⟩)
      · exact Or.inl hb
      · exact Or.inr ⟨i, hi, by rwa [hfinal.block, hkept i hne], by rw [hfinal.block, hkept i hne]⟩
      · exact Or.inr ⟨i, hi, by rwa [hfinal.block], by rw [hfinal.block]⟩
    · rintro (hb | ⟨i, hi, hne, rfl⟩)
      · exact Or.inl (Or.inl hb)
      · rw [hfinal.block] at hne ⊢
        by_cases hold : (fs.inodeOf no).block i = 0
        · exact Or.inr ⟨i, hi, hold, hne, rfl⟩
        · exact Or.inl (Or.inr ⟨i, hi, hold, (hkept i hold).symm⟩)
  · intro b q hb hdata' hq
    have hframe : v.data b = fs.view.data b :=
      hwritten.frame b (fun i hi hne heq => hfresh i hi hne (heq ▸ hb))
    have hdata1 := (h.same.dataBlock b).mpr hdata'
    have hq1 : q < fs.blockSize := h.same.blockSize ▸ hq
    rw [← h.bytes b q hb hdata' hq, ← hshows.data b q ((hsame.dataBlock b).mpr hdata1) (hbs ▸ hq1)]
    exact congrFun hframe q

theorem inodeWrite_inode (fs : Ext2Fs) (inode : VfsInode) (off size : Nat) (buf : Nat → BitVec 8) :
    ∃ n, (ext2InodeWrite fs inode off buf size).2.1 = { inode with iSize := n } := by
  unfold ext2InodeWrite
  split
  · exact ⟨_, rfl⟩
  · split
    · exact ⟨_, rfl⟩
    · split
      · exact ⟨_, rfl⟩
      · split
        · exact ⟨_, rfl⟩
        · dsimp only
          split
          · exact ⟨_, rfl⟩
          · exact ⟨_, rfl⟩

theorem inodeWrite_nothing (hv : Volume fs) (hno : fs.IsInode no) (htype : inode.iType = .file)
    (hdata : inode.privateData = some no) (off : Nat) (hoff : off < 2 ^ 32) (buf : Nat → BitVec 8) :
    ∃ inode' buf', ext2InodeWrite fs inode off buf 0 = (some 0, inode',
      if off = 0 then emptyFile (fs.withBuf buf') no (fs.inodeOf no) else fs.withBuf buf') := by
  obtain ⟨buf', hread⟩ : ∃ buf, ext2ReadInode fs no = (some (fs.inodeOf no), fs.withBuf buf) :=
    hv.shows.readInode hno
  unfold ext2InodeWrite
  rw [if_neg (by simp [htype]), hdata]
  dsimp only
  rw [hread]
  dsimp only
  by_cases hzero : off = 0
  · rw [if_pos ⟨hzero, rfl⟩]
    exact ⟨_, buf', by rw [if_pos hzero]⟩
  · -- no bytes behind the start: the loop ends at once
    have hcount : (off + (2 ^ 32 - off)) % 2 ^ 32 = 0 := by omega
    rw [if_neg (fun hx => hzero hx.1)]
    simp only [writeLoop, hcount, Nat.lt_irrefl, if_false]
    exact ⟨_, buf', by rw [if_neg hzero]⟩

theorem Built.write (h : Built fs₀ fs no) (hno : fs₀.IsInode no) (htype : inode.iType = .file)
    (hdata : inode.privateData = some no) {c : WriteCall}
    (hfits : c.off + c.size ≤ 12 * fs₀.blockSize) :
    Built fs₀ (ext2InodeWrite fs inode c.off c.buf c.size).2.2 no := by
  rw [← h.same.blockSize] at hfits
  by_cases hsize : 0 < c.size
  · exact h.stored hno htype hdata c.buf hsize hfits
  have hle : fs.blockSize ≤ 4096 := h.same.volume.inOrder.layout.blockSize_le
  obtain ⟨inode', buf', hout⟩ := inodeWrite_nothing h.same.volume (h.same.isInode hno) htype hdata
    c.off (by omega) c.buf
  rw [show c.size = 0 by omega, hout]
  split
  · exact (h.withBuf buf').emptied hno
  · exact h.withBuf buf'

theorem Built.run (h : Built fs₀ fs no) (hno : fs₀.IsInode no) (htype : inode.iType = .file)
    (hdata : inode.privateData = some no) {cs : List WriteCall}
    (hfits : ∀ c ∈ cs, c.off + c.size ≤ 12 * fs₀.blockSize) :
    Built fs₀ (runWrites fs inode cs) no := by
  induction cs generalizing fs inode with
  | nil => exact h
  | cons c cs ih =>
    obtain ⟨n, hinode⟩ := inodeWrite_inode fs inode c.off c.size c.buf
    exact ih (h.write hno htype hdata (hfits c List.mem_cons_self)) (by rw [hinode]; exact htype)
      (by rw [hinode]; exact hdata) (fun c' hc' => hfits c' (List.mem_cons_of_mem c hc'))

theorem DirWf.transfer {T : Set Nat} (h : DirWf fs₀ d) (hsame : SameInodes T fs₀ fs) (hd : d ∉ T)
    (hused : ∀ b, b ∈ usedNumbers .block fs₀ → b ∈ usedNumbers .block fs)
    (hbytes : ∀ b q, b ∈ usedNumbers .block fs₀ → fs₀.DataBlock b → q < fs₀.blockSize →
      fs.diskByte b q = fs₀.diskByte b q) :
    DirWf fs d ∧ ∀ name, lookupScan fs d name = lookupScan fs₀ d name := by
  obtain ⟨ents, hdir⟩ := h.records
  have hinode : fs.inodeOf d = fs₀.inodeOf d := hsame.inode d h.isInode hd
  have hbs : fs.view.blockSize = fs₀.view.blockSize := hsame.blockSize
  have hdir' : DirOk fs.view (fs.inodeOf d) ents := by
    rw [hinode]
    refine ⟨⟨hbs ▸ hdir.size_le, ?_, hdir.holes, hdir.names⟩, ?_, ?_, ?_, hdir.owns.distinct⟩
    · intro i hi hne
      rw [hbs]
      exact (hdir.records i hi hne).congr (fun q _ hq => hbytes _ q (hdir.owns.used i hi hne)
        (hdir.owns.data i hi hne) hq)
    · intro i hi hne
      rw [hbs]
      exact hdir.within i hi hne
    · exact fun i hi hne => hused _ (hdir.owns.used i hi hne)
    · exact fun i hi hne => (hsame.dataBlock _).mpr (hdir.owns.data i hi hne)
  refine ⟨⟨hsame.volume, hsame.isInode h.isInode, ?_, ents, hdir'⟩, ?_⟩
  · rw [hsame.usedInodes]
    exact h.used
  · intro name
    exact hdir.lookupScan_congr h.volume.shows h.isInode hdir' hsame.volume.shows
      (hsame.isInode h.isInode) (fun _ => Iff.rfl)

/-- `ext2_unlink` of a file that writes to direct blocks have built. -/
theorem Built.unlink
    (h : Built fs₀ fs no) (hdir : DirWf fs₀ d) (hparent : parent.privateData = some d)
    (hscan : lookupScan fs₀ d name = some (some no)) (hno : no ∈ usedNumbers .inode fs₀)
    (hne : no ≠ d) (hlinks : (fs₀.inodeOf no).links = 1) :
    ∃ fs', ext2Unlink fs parent name = some (true, fs') ∧
      usedNumbers .block fs' = usedNumbers .block fs₀ := by
  have hinode := hdir.volume.shows.isInode_of_used hno
  obtain ⟨hdir', hlookup⟩ := hdir.transfer h.same (fun hd => hne (Set.mem_singleton_iff.mp hd).symm)
    (fun b hb => (h.used b).mpr (Or.inl hb)) h.bytes
  obtain ⟨fs₁, hout, hsame, hused, -⟩ := hdir'.unlink hparent ((hlookup name).trans hscan)
    (h.same.isInode hinode)
  obtain ⟨raw, hraw⟩ : ∃ raw, (fs.inodeOf no).dropLink = raw := ⟨_, rfl⟩
  have hblock : ∀ i, raw.block i = (fs.inodeOf no).block i := by
    intro i
    rw [← hraw, Ext2Inode.block_dropLink]
  have hsize : raw.size = (fs.inodeOf no).size := by
    rw [← hraw]
    exact Ext2Inode.size_setLinks ..
  have howns : OwnsDirect fs₁.view raw := by
    refine ⟨?_, ?_, ?_⟩
    · intro i hi hi'
      rw [hblock] at hi' ⊢
      change _ ∈ usedNumbers .block fs₁
      rw [hused]
      exact h.owns.used i hi hi'
    · intro i hi hi'
      rw [hblock] at hi' ⊢
      exact (hsame.dataBlock _).mpr (h.owns.data i hi hi')
    · intro i j hi hj
      rw [hblock, hblock]
      exact h.owns.distinct i j hi hj
  have hblocks : fs₁.fileBlocks raw.size = fs.fileBlocks (fs.inodeOf no).size := by
    unfold Ext2Fs.fileBlocks
    rw [hsame.blockSize, hsize]
  obtain ⟨final, hcut, -⟩ := howns.emptyFile hsame.volume
    (hsame.isInode (h.same.isInode hinode)) (by rw [hsize, hsame.blockSize]; exact h.size_le)
  rw [hblocks] at hcut
  have hdrop := (fs.inodeOf no).links_dropLink (by rw [h.links]; omega)
  rw [h.links, hraw] at hdrop
  have hmem : no ∈ usedNumbers .inode (emptyFile fs₁ no raw) := by
    rw [hcut.same.usedInodes, hsame.usedInodes, h.same.usedInodes]
    exact hno
  have hfree := hcut.same.volume.shows.free (k := .inode) hmem (fun hk => by cases hk)
  refine ⟨ext2FreeInode (emptyFile fs₁ no raw) no, ?_, ?_⟩
  · rw [hout]
    unfold dropInode
    rw [hraw, if_pos (by omega)]
  · rw [← (h.freed hused hblock hcut).1]
    exact (hfree.used .block).symm

/--
Any calls of `ext2_inode_write` on an empty file, and `ext2_unlink` of its only name: the
blocks in use are those from before the first call, if every call ends inside the twelve
direct blocks.
-/
theorem unlink_returns_blocks
    (hdir : DirWf fs d) (hparent : parent.privateData = some d)
    (hscan : lookupScan fs d name = some (some no)) (hno : no ∈ usedNumbers .inode fs)
    (hne : no ≠ d) (hlinks : (fs.inodeOf no).links = 1) (hempty : (fs.inodeOf no).size = 0)
    (hblock : ∀ i, i < 12 → (fs.inodeOf no).block i = 0) (htype : inode.iType = .file)
    (hdata : inode.privateData = some no) (cs : List WriteCall)
    (hfits : ∀ c ∈ cs, c.off + c.size ≤ 12 * fs.blockSize) :
    ∃ fs', ext2Unlink (runWrites fs inode cs) parent name = some (true, fs') ∧
      usedNumbers .block fs' = usedNumbers .block fs := by
  have hinode := hdir.volume.shows.isInode_of_used hno
  have hbuilt := (Built.start hdir.volume hempty hblock).run hinode htype hdata hfits
  exact hbuilt.unlink hdir hparent hscan hno hne hlinks

end Building

/-- An empty file with one name. -/
def emptyRaw : Ext2Inode :=
  (Ext2Inode.zero.setMode 0x81A4).setLinks 1

/-- Three bytes are written, some behind them, and the name is removed. -/
theorem unlink_returns_blocks_file :
    ∃ fs', ext2Unlink (runWrites (namedFs emptyRaw) holeInode
        [⟨0, fun _ => 0x41#8, 3⟩, ⟨5000, fun _ => 0x42#8, 700⟩]) (fullDir 1024) [0x64#8] =
        some (true, fs') ∧
      usedNumbers .block fs' = usedNumbers .block (namedFs emptyRaw) := by
  obtain ⟨hdir, hscan, hused, hraw⟩ := namedFs_dir emptyRaw
  refine unlink_returns_blocks hdir rfl hscan hused (by decide) ?_ ?_ ?_ rfl rfl _ ?_
  · decide
  · decide
  · decide
  · decide

/-- A byte behind the direct blocks takes an indirect block, which is not given back. -/
theorem unlink_keeps_indirect :
    (namedFs emptyRaw).sb.freeBlocksCount = 5 ∧
      (ext2Unlink (runWrites (namedFs emptyRaw) holeInode [⟨12 * 1024, fun _ => 0x41#8, 1⟩])
        (fullDir 1024) [0x64#8]).map (fun r => (r.1, r.2.sb.freeBlocksCount)) =
        some (true, 4) := by
  refine ⟨?_, ?_⟩
  · decide +kernel
  · decide +kernel

end Ext2
end Homunculos
