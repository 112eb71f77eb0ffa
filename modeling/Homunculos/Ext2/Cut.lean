import Homunculos.Ext2.WriteLaw

/-!
# Cutting a file

The loop that `ext2_truncate`, `ext2_inode_write` and `ext2_unlink` share, over block
indices of any level.  A round asks `ext2_inode_bmap` for the block, clears the pointer
with `ext2_set_bmap` and frees the block.  Only pointers of the inode and of a single
indirect block that is there get cleared; in the deeper trees `ext2_set_bmap` fails, which
nobody looks at, and the block is freed all the same.
-/

namespace Homunculos
namespace Ext2

open Bytes Block

/-- The blocks in use, the bytes of data blocks and the inodes `T` may differ, nothing else. -/
structure SameInodes (T : Set Nat) (fs fs' : Ext2Fs) : Prop where
  volume : Volume fs'
  blockSize : fs'.blockSize = fs.blockSize
  inodesCount : fs'.sb.inodesCount = fs.sb.inodesCount
  dataBlock : ∀ b, fs'.DataBlock b ↔ fs.DataBlock b
  usedInodes : usedNumbers .inode fs' = usedNumbers .inode fs
  inode : ∀ k, fs.IsInode k → k ∉ T → fs'.inodeOf k = fs.inodeOf k

/-- An index whose pointer the loop can clear. -/
def Clearable (fs : Ext2Fs) (raw : Ext2Inode) (idx : Nat) : Prop :=
  idx < 12 ∨ idx - 12 < fs.ptrsPerBlock ∧ raw.block 12 ≠ 0

instance decidableClearable
    (fs : Ext2Fs) (raw : Ext2Inode)
    (idx : Nat) : Decidable (Clearable fs raw idx) :=
  inferInstanceAs (Decidable (_ ∨ _))

/--
The loop may go over the indices from `lo` on, `m` of them: the pointer blocks below index
`n` are data blocks, the single indirect block is none of the deeper ones, and the blocks
of the range are blocks of the device.
-/
structure Trimmable (fs : Ext2Fs) (raw : Ext2Inode) (lo m n : Nat) : Prop where
  tables : ∀ idx, idx < n → ∀ b ∈ pointerBlocks fs raw idx, fs.DataBlock b
  single : ∀ idx, 12 + fs.ptrsPerBlock ≤ idx → idx < n → raw.block 12 ∈ pointerBlocks fs raw idx →
    raw.block 12 = 0
  count : ∀ idx, lo ≤ idx → idx < lo + m → bmapOf fs raw idx ≠ 0 →
    bmapOf fs raw idx < fs.sb.blocksCount

/-- The blocks of the range are different data blocks in use. -/
structure Marked (fs : Ext2Fs) (raw : Ext2Inode) (lo m : Nat) : Prop where
  data : ∀ idx, lo ≤ idx → idx < lo + m → bmapOf fs raw idx ≠ 0 → fs.DataBlock (bmapOf fs raw idx)
  used : ∀ idx, lo ≤ idx → idx < lo + m → bmapOf fs raw idx ≠ 0 →
    bmapOf fs raw idx ∈ usedNumbers .block fs
  distinct : ∀ i j, lo ≤ i → i < lo + m → lo ≤ j → j < lo + m → bmapOf fs raw i ≠ 0 →
    bmapOf fs raw i = bmapOf fs raw j → i = j

/-- The blocks in use after the loop. -/
def UsedLeft (fs : Ext2Fs) (raw : Ext2Inode) (lo m : Nat) (fs' : Ext2Fs) : Prop :=
  ∀ b, b ∈ usedNumbers .block fs' ↔ b ∈ usedNumbers .block fs ∧
    ∀ j, lo ≤ j → j < lo + m → bmapOf fs raw j ≠ 0 → bmapOf fs raw j ≠ b

/--
The loop has gone over the indices from `lo` on, `m` of them. That a volume is left needs
blocks that are marked.
-/
structure Trim (T : Set Nat) (fs : Ext2Fs) (raw : Ext2Inode) (lo m : Nat) (fs' : Ext2Fs)
    (raw' : Ext2Inode) : Prop where
  files : SameFiles T fs fs'
  block : ∀ k, raw'.block k = if k < 12 ∧ lo ≤ k ∧ k < lo + m then 0 else raw.block k
  bytes : ∀ b q, fs.DataBlock b → (b = raw.block 12 → b = 0 ∨ lo + m ≤ 12) → q < fs.blockSize →
    fs'.diskByte b q = fs.diskByte b q
  entry : ∀ j, j < fs.ptrsPerBlock → fs.DataBlock (raw.block 12) →
    fs'.ptr (raw.block 12) j =
      if raw.block 12 ≠ 0 ∧ lo ≤ 12 + j ∧ 12 + j < lo + m then 0 else fs.ptr (raw.block 12) j
  used : UsedLeft fs raw lo m fs'
  marks : Volume fs → Marked fs raw lo m → SameInodes T fs fs'

/-- The same on a volume with marked blocks. -/
structure Cut (T : Set Nat) (fs : Ext2Fs) (raw : Ext2Inode) (lo m : Nat) (fs' : Ext2Fs)
    (raw' : Ext2Inode) : Prop extends Trim T fs raw lo m fs' raw' where
  same : SameInodes T fs fs'

section Frames

variable {T : Set Nat} {fs fs' fs1 : Ext2Fs} {v : View} {b : Nat}

theorem SameInodes.trans (h : SameInodes T fs fs1) (h' : SameInodes T fs1 fs') :
    SameInodes T fs fs' := by
  refine ⟨h'.volume, h'.blockSize.trans h.blockSize, h'.inodesCount.trans h.inodesCount,
    fun b => (h'.dataBlock b).trans (h.dataBlock b), h'.usedInodes.trans h.usedInodes, ?_⟩
  intro k hk hT
  have hk' : fs1.IsInode k := ⟨hk.1, h.inodesCount ▸ hk.2⟩
  rw [h'.inode k hk' hT, h.inode k hk hT]

theorem SameInodes.isInode (h : SameInodes T fs fs') {k : Nat} (hk : fs.IsInode k) :
    fs'.IsInode k :=
  ⟨hk.1, h.inodesCount ▸ hk.2⟩

theorem SameInodes.ptrsPerBlock (h : SameInodes T fs fs') :
    fs'.ptrsPerBlock = fs.ptrsPerBlock := by
  unfold Ext2Fs.ptrsPerBlock
  rw [h.blockSize]

theorem Shows.sameInodes
    (h : Shows fs' v) (hbs : v.blockSize = fs.blockSize) (hinodes : v.inodes = fs.sb.inodesCount)
    (hdata : v.dataBlocks = fs.view.dataBlocks) (hused : v.used .inode = usedNumbers .inode fs)
    (hinode : ∀ k, k ∉ T → v.inode k = fs.inodeOf k) :
    SameInodes T fs fs' := by
  have hcount : fs'.sb.inodesCount = fs.sb.inodesCount := h.inodes.symm.trans hinodes
  refine ⟨h.volume, h.blockSize.symm.trans hbs, hcount, ?_, (h.used .inode).symm.trans hused, ?_⟩
  · intro b
    rw [← h.dataBlocks, hdata]
    rfl
  · intro k hk hT
    rw [← h.inode k ⟨hk.1, hcount ▸ hk.2⟩, hinode k hT]

/-- `ext2_buf` does not matter. -/
theorem Volume.sameInodes_withBuf (hv : Volume fs) (buf : Nat → BitVec 8) :
    SameInodes T fs (fs.withBuf buf) :=
  ⟨(hv.shows.withBuf buf).volume, rfl, rfl, fun _ => Iff.rfl, rfl, fun _ _ _ => rfl⟩

/-- `ext2_free_block` of a data block in use. -/
theorem freeBlock_same
    (hv : Volume fs) (hused : b ∈ usedNumbers .block fs) (hb : fs.DataBlock b) (hne : b ≠ 0) :
    SameInodes ∅ fs (ext2FreeBlock fs b) := by
  have hshows : Shows (ext2FreeBlock fs b) _ :=
    hv.shows.free (k := .block) hused (fun _ => ⟨hb, hne⟩)
  exact hshows.sameInodes rfl rfl rfl (View.used_withUsed_of_ne _ (by decide) _) (fun _ _ => rfl)

end Frames

section Rounds

variable {T : Set Nat} {fs fs1 fs' : Ext2Fs} {raw raw1 raw' : Ext2Inode} {lo k m n idx : Nat}

theorem freeBlocks_add (k m lo : Nat) (raw : Ext2Inode) (fs : Ext2Fs) :
    freeBlocks (k + m) lo raw fs =
      freeBlocks m (lo + k) (freeBlocks k lo raw fs).1 (freeBlocks k lo raw fs).2 := by
  induction k generalizing lo raw fs with
  | zero =>
    rw [Nat.zero_add]
    rfl
  | succ k ih =>
    rw [Nat.succ_add, freeBlocks, freeBlocks, ← Nat.add_assoc, Nat.add_right_comm lo k 1]
    split
    · exact ih _ _ _
    · exact ih _ _ _

theorem pointerBlocks_single (h : ¬ idx < 12) (h' : idx - 12 < fs.ptrsPerBlock) :
    pointerBlocks fs raw idx = [raw.block 12] := by
  unfold pointerBlocks
  rw [route_single h h']
  rfl

theorem Trim.bmap (h : Trim T fs raw lo m fs' raw') (hsize : BlockSizeOk fs)
    (htables : ∀ b ∈ pointerBlocks fs raw idx, fs.DataBlock b)
    (hsingle : 12 + fs.ptrsPerBlock ≤ idx → raw.block 12 ∈ pointerBlocks fs raw idx →
      raw.block 12 = 0) :
    bmapOf fs' raw' idx = (if lo ≤ idx ∧ idx < lo + m ∧ Clearable fs raw idx then 0
      else bmapOf fs raw idx) ∧ pointerBlocks fs' raw' idx = pointerBlocks fs raw idx := by
  have hptrs := h.files.shape.ptrsPerBlock
  have hkept : ∀ k, 12 ≤ k → raw'.block k = raw.block k := by
    intro k hk
    rw [h.block, if_neg (by omega)]
  unfold Clearable
  by_cases hdirect : idx < 12
  · rw [bmapOf_direct hdirect, bmapOf_direct hdirect, pointerBlocks_direct hdirect,
      pointerBlocks_direct hdirect, h.block]
    refine ⟨?_, rfl⟩
    simp only [hdirect, true_or, and_true, true_and]
  by_cases hidx : idx - 12 < fs.ptrsPerBlock
  · rw [pointerBlocks_single hdirect hidx] at htables
    have hidx' : idx - 12 < fs'.ptrsPerBlock := hptrs ▸ hidx
    rw [pointerBlocks_single hdirect hidx, pointerBlocks_single hdirect hidx',
      bmapOf_single hdirect hidx, bmapOf_single hdirect hidx', hkept 12 (le_refl _),
      h.entry _ hidx (htables _ List.mem_cons_self)]
    refine ⟨?_, rfl⟩
    simp only [show 12 + (idx - 12) = idx by omega, hdirect, hidx, false_or, true_and]
    congr 1
    exact propext ⟨fun hx => ⟨hx.2.1, hx.2.2, hx.1⟩, fun hx => ⟨hx.2.2, hx.1, hx.2.1⟩⟩
  · rw [if_neg (by omega)]
    apply bmapOf_congr hsize h.files.shape.blockSize
    · intro slot js hroute
      rcases route_deeper hdirect hidx hroute with rfl | rfl
      · exact hkept _ (by omega)
      · exact hkept _ (by omega)
    · intro b hb q hq
      refine h.bytes b q (htables b hb) ?_ hq
      rintro rfl
      exact Or.inl (hsingle (by omega) hb)

theorem Marked.part (h : Marked fs raw lo (k + m)) :
    Marked fs raw lo k :=
  ⟨fun idx hge hlt => h.data idx hge (by omega), fun idx hge hlt => h.used idx hge (by omega),
    fun i j hi hi' hj hj' => h.distinct i j hi (by omega) hj (by omega)⟩

theorem Marked.rest (h : Marked fs raw lo (k + m)) (htrim : Trim T fs raw lo k fs1 raw1)
    (hbmap : ∀ j, lo + k ≤ j → j < lo + k + m → bmapOf fs1 raw1 j = bmapOf fs raw j) :
    Marked fs1 raw1 (lo + k) m := by
  refine ⟨?_, ?_, ?_⟩
  · intro idx hge hlt hne
    rw [hbmap idx hge hlt] at hne ⊢
    exact (htrim.files.shape.dataBlock _).mpr (h.data idx (by omega) (by omega) hne)
  · intro idx hge hlt hne
    rw [hbmap idx hge hlt] at hne ⊢
    refine (htrim.used _).mpr ⟨h.used idx (by omega) (by omega) hne, ?_⟩
    intro j hj hj' hjne heq
    have hji := h.distinct j idx hj (by omega) (by omega) (by omega) hjne heq
    omega
  · intro i j hi hi' hj hj' hne heq
    rw [hbmap i hi hi'] at hne heq
    rw [hbmap j hj hj'] at heq
    exact h.distinct i j (by omega) (by omega) (by omega) (by omega) hne heq

theorem Trim.append (h : Trim T fs raw lo k fs1 raw1) (h' : Trim T fs1 raw1 (lo + k) m fs' raw')
    (hbmap : ∀ j, lo + k ≤ j → j < lo + k + m → bmapOf fs1 raw1 j = bmapOf fs raw j) :
    Trim T fs raw lo (k + m) fs' raw' := by
  have htable : raw1.block 12 = raw.block 12 := by
    rw [h.block, if_neg (by omega)]
  refine ⟨h.files.trans h'.files, ?_, ?_, ?_, ?_, ?_⟩
  · intro j
    rw [h'.block, h.block]
    split_ifs
    all_goals first | rfl | omega
  · intro b q hb hne hq
    rw [h'.bytes b q ((h.files.shape.dataBlock b).mpr hb) ?_ (h.files.shape.blockSize ▸ hq),
      h.bytes b q hb ?_ hq]
    · intro heq
      exact (hne heq).imp id (fun hle => by omega)
    · intro heq
      exact (hne (heq.trans htable)).imp id (fun hle => by omega)
  · intro j hj hdata
    have hlater := h'.entry j (h.files.shape.ptrsPerBlock ▸ hj)
    rw [htable] at hlater
    rw [hlater ((h.files.shape.dataBlock _).mpr hdata), h.entry j hj hdata]
    split_ifs
    all_goals first | rfl | omega
  · intro b
    rw [h'.used, h.used]
    constructor
    · rintro ⟨⟨hb, hfirst⟩, hrest⟩
      refine ⟨hb, ?_⟩
      intro j hj hj'
      by_cases hjk : j < lo + k
      · exact hfirst j hj hjk
      · rw [← hbmap j (by omega) (by omega)]
        exact hrest j (by omega) (by omega)
    · rintro ⟨hb, hall⟩
      refine ⟨⟨hb, fun j hj hj' => hall j hj (by omega)⟩, ?_⟩
      intro j hj hj'
      rw [hbmap j hj hj']
      exact hall j (by omega) (by omega)
  · intro hv hmarked
    have hsame := h.marks hv hmarked.part
    exact hsame.trans (h'.marks hsame.volume (hmarked.rest h hbmap))

theorem Trim.skip (hs : Skeleton fs) (hm : m ≤ 1) (hzero : m = 1 → bmapOf fs raw lo = 0)
    (buf : Nat → BitVec 8) :
    Trim ∅ fs raw lo m (fs.withBuf buf) raw := by
  have hlo : ∀ j, lo ≤ j → j < lo + m → j = lo ∧ bmapOf fs raw lo = 0 :=
    fun j hj hj' => ⟨by omega, hzero (by omega)⟩
  refine ⟨hs.withBuf buf, ?_, fun _ _ _ _ _ => rfl, ?_,
    fun b => ⟨fun hb => ⟨hb, ?_⟩, fun hb => hb.1⟩, fun hv _ => hv.sameInodes_withBuf buf⟩
  · intro k
    split
    · rename_i hk
      obtain ⟨rfl, hbmap⟩ := hlo k hk.2.1 hk.2.2
      rw [← hbmap, bmapOf_direct hk.1]
    · rfl
  · intro j hj _
    split
    · rename_i hj'
      obtain ⟨rfl, hbmap⟩ := hlo (12 + j) hj'.2.1 hj'.2.2
      rw [← hbmap, bmapOf_single (by omega) (by omega), show 12 + j - 12 = j by omega]
      rfl
    · rfl
  · intro j hj hj' hne
    obtain ⟨rfl, hbmap⟩ := hlo j hj hj'
    exact absurd hbmap hne

theorem Trim.release
    (hfiles : SameFiles ∅ fs fs1)
    (hused : usedNumbers .block fs1 = usedNumbers .block fs)
    (hmarks : Volume fs → SameInodes ∅ fs fs1)
    (hblock : ∀ k, raw1.block k = if k < 12 ∧ lo ≤ k ∧ k < lo + 1 then 0 else raw.block k)
    (hbytes : ∀ b q, fs.DataBlock b → (b = raw.block 12 → b = 0 ∨ lo + 1 ≤ 12) →
      q < fs.blockSize → fs1.diskByte b q = fs.diskByte b q)
    (hentry : ∀ j, j < fs.ptrsPerBlock → fs.DataBlock (raw.block 12) →
      fs1.ptr (raw.block 12) j = if raw.block 12 ≠ 0 ∧ lo ≤ 12 + j ∧ 12 + j < lo + 1 then 0
        else fs.ptr (raw.block 12) j)
    (hcount : bmapOf fs raw lo < fs.sb.blocksCount) (hne : bmapOf fs raw lo ≠ 0) :
    Trim ∅ fs raw lo 1 (ext2FreeBlock fs1 (bmapOf fs raw lo)) raw1 := by
  obtain ⟨hfiles', hused', hbytes'⟩ := hfiles.skeleton.freeBlock (hfiles.shape.blocksCount ▸ hcount)
  refine ⟨hfiles.trans hfiles', hblock, ?_, ?_, ?_, ?_⟩
  · intro b q hb hcond hq
    rw [hbytes' b q ((hfiles.shape.dataBlock b).mpr hb) (hfiles.shape.blockSize ▸ hq),
      hbytes b q hb hcond hq]
  · intro j hj hb
    rw [← hentry j hj hb]
    exact pointer_congr (fun q hq => hbytes' _ q ((hfiles.shape.dataBlock _).mpr hb) hq)
      (hfiles.skeleton.layout.blockSize.pointer_fits (hfiles.shape.ptrsPerBlock ▸ hj))
  · intro b
    rw [hused', hused]
    constructor
    · rintro ⟨hb, hbne⟩
      refine ⟨hb, ?_⟩
      intro j hj hj' _ heq
      rw [show j = lo by omega] at heq
      exact hbne heq.symm
    · rintro ⟨hb, hall⟩
      exact ⟨hb, fun heq => hall lo le_rfl (by omega) hne (Set.mem_singleton_iff.mp heq).symm⟩
  · intro hv hmarked
    have hsame := hmarks hv
    have hdata := (hfiles.shape.dataBlock _).mpr (hmarked.data lo le_rfl (by omega) hne)
    exact hsame.trans (freeBlock_same hsame.volume
      (hused ▸ hmarked.used lo le_rfl (by omega) hne) hdata hne)

theorem Trimmable.one (h : Trimmable fs raw lo 1 n) (hs : Skeleton fs) (hlo : lo < n) :
    Trim ∅ fs raw lo 1 (freeBlocks 1 lo raw fs).2 (freeBlocks 1 lo raw fs).1 := by
  have hsize := hs.layout.blockSize
  obtain ⟨buf, hbmap⟩ := bmap_spec hsize hs.healthy raw lo
  have hbuf := hs.withBuf buf
  have hmarks : Volume fs → SameInodes ∅ fs (fs.withBuf buf) :=
    fun hv => hv.sameInodes_withBuf buf
  rw [freeBlocks, hbmap]
  by_cases hzero : bmapOf fs raw lo = 0
  · rw [if_pos hzero]
    exact Trim.skip hs le_rfl (fun _ => hzero) buf
  rw [if_neg hzero]
  have hcount := h.count lo le_rfl (by omega) hzero
  have hnone : ∀ j, j < fs.ptrsPerBlock → fs.DataBlock (raw.block 12) →
      lo < 12 ∨ raw.block 12 = 0 ∨ 12 + fs.ptrsPerBlock ≤ lo → fs.ptr (raw.block 12) j =
        if raw.block 12 ≠ 0 ∧ lo ≤ 12 + j ∧ 12 + j < lo + 1 then 0
        else fs.ptr (raw.block 12) j := by
    intro j hj _ hcase
    rw [if_neg (by omega)]
  by_cases hdirect : lo < 12
  · rw [setBmap_direct _ raw hdirect]
    refine Trim.release hbuf rfl hmarks ?_ (fun _ _ _ _ _ => rfl)
      (fun j hj hb => hnone j hj hb (Or.inl hdirect)) hcount hzero
    intro k
    change (raw.setBlock ⟨lo, _⟩ 0).block k = _
    rw [Ext2Inode.block_setBlock]
    simp only [show (k < 12 ∧ lo ≤ k ∧ k < lo + 1) ↔ k = lo by omega, Nat.zero_mod]
  have hblock : ∀ k, raw.block k = if k < 12 ∧ lo ≤ k ∧ k < lo + 1 then 0 else raw.block k := by
    intro k
    rw [if_neg (by omega)]
  by_cases hidx : lo - 12 < fs.ptrsPerBlock
  · by_cases htable : raw.block 12 = 0
    · have hset : ext2SetBmap (fs.withBuf buf) raw lo 0 = (true, raw, fs.withBuf buf) := by
        unfold ext2SetBmap
        rw [dif_neg hdirect]
        exact (if_pos hidx).trans (if_pos ⟨htable, rfl⟩)
      rw [hset]
      exact Trim.release hbuf rfl hmarks hblock (fun _ _ _ _ _ => rfl)
        (fun j hj hb => hnone j hj hb (Or.inr (Or.inl htable))) hcount hzero
    · obtain ⟨fs1, hset, hput⟩ : ∃ fs1,
          ext2SetBmap (fs.withBuf buf) raw lo 0 = (true, raw, fs1) ∧
          PutBlock (raw.block 12) (putU32 ((fs.withBuf buf).diskByte (raw.block 12))
            (4 * (lo - 12)) 0) (fs.withBuf buf) fs1 :=
        setBmap_single hsize hs.healthy hdirect hidx htable
      have hdb : fs.DataBlock (raw.block 12) := by
        apply h.tables lo hlo
        rw [pointerBlocks_single hdirect hidx]
        exact List.mem_cons_self
      obtain ⟨hfiles, ⟨hused, -⟩, hbytes⟩ := hput.sameFiles hbuf.skeleton hdb
      rw [hset]
      refine Trim.release (hbuf.trans hfiles) (hused .block) ?_ hblock ?_ ?_ hcount hzero
      · intro hv
        have hshows := (hmarks hv).volume.shows.putData hput hdb
        exact (hmarks hv).trans (hshows.sameInodes rfl rfl rfl rfl (fun _ _ => rfl))
      · intro b q hb hcond hq
        refine hbytes b q hb ?_ hq
        rintro rfl
        rcases hcond rfl with hb0 | hle
        · exact htable hb0
        · omega
      · intro j hj _
        rw [hput.ptr hsize hj]
        simp only [ne_eq, htable, not_false_eq_true, true_and,
          show (lo ≤ 12 + j ∧ 12 + j < lo + 1) ↔ j = lo - 12 by omega]
        rfl
  · have hset : ext2SetBmap (fs.withBuf buf) raw lo 0 = (false, raw, fs.withBuf buf) := by
      unfold ext2SetBmap
      rw [dif_neg hdirect]
      exact if_neg hidx
    rw [hset]
    exact Trim.release hbuf rfl hmarks hblock (fun _ _ _ _ _ => rfl)
      (fun j hj hb => hnone j hj hb (Or.inr (Or.inr (by omega)))) hcount hzero

theorem Trimmable.rest
    (h : Trimmable fs raw lo (k + m) n) (hcut : Trim ∅ fs raw lo k fs1 raw1)
    (hsize : BlockSizeOk fs) (hn : lo + (k + m) ≤ n) :
    Trimmable fs1 raw1 (lo + k) m n ∧
      ∀ j, lo + k ≤ j → j < n → bmapOf fs1 raw1 j = bmapOf fs raw j := by
  have hshape := hcut.files.shape
  have hboth := fun idx (hidx : idx < n) =>
    hcut.bmap hsize (h.tables idx hidx) (fun hge => h.single idx hge hidx)
  have hbmap : ∀ j, lo + k ≤ j → j < n → bmapOf fs1 raw1 j = bmapOf fs raw j := by
    intro j hj hjn
    rw [(hboth j hjn).1, if_neg (by omega)]
  have htable : raw1.block 12 = raw.block 12 := by
    rw [hcut.block, if_neg (by omega)]
  refine ⟨⟨?_, ?_, ?_⟩, hbmap⟩
  · intro idx hidx b hb
    rw [(hboth idx hidx).2] at hb
    exact (hshape.dataBlock b).mpr (h.tables idx hidx b hb)
  · intro idx hge hidx hmem
    rw [hshape.ptrsPerBlock] at hge
    rw [(hboth idx hidx).2, htable] at hmem
    rw [htable]
    exact h.single idx hge hidx hmem
  · intro idx hge hlt hne
    rw [hbmap idx hge (by omega)] at hne ⊢
    exact hshape.blocksCount ▸ h.count idx (by omega) (by omega) hne

theorem links_setBmap (fs : Ext2Fs) (raw : Ext2Inode) (idx b : Nat) :
    (ext2SetBmap fs raw idx b).2.1.links = raw.links := by
  unfold ext2SetBmap
  dsimp only
  -- the inode is the old one or has one pointer set
  split_ifs
  all_goals first | rfl | exact Ext2Inode.links_setBlock ..

theorem links_freeBlocks (m lo : Nat) (raw : Ext2Inode) (fs : Ext2Fs) :
    (freeBlocks m lo raw fs).1.links = raw.links := by
  induction m generalizing lo raw fs with
  | zero => rfl
  | succ m ih =>
    rw [freeBlocks]
    split
    · exact ih ..
    · exact (ih ..).trans (links_setBmap ..)

theorem Trimmable.trim_loop (h : Trimmable fs raw lo m n) (hs : Skeleton fs) (hn : lo + m ≤ n) :
    Trim ∅ fs raw lo m (freeBlocks m lo raw fs).2 (freeBlocks m lo raw fs).1 := by
  induction m generalizing fs raw lo with
  | zero => exact Trim.skip hs (Nat.zero_le 1) (fun h0 => absurd h0 (by decide)) fs.buf
  | succ m ih =>
    rw [Nat.add_comm m 1] at h hn ⊢
    have hone : Trimmable fs raw lo 1 n :=
      ⟨h.tables, h.single, fun idx hge hlt => h.count idx hge (by omega)⟩
    have hfirst := hone.one hs (by omega)
    obtain ⟨hrest, hbmap⟩ := h.rest hfirst hs.layout.blockSize hn
    rw [freeBlocks_add]
    exact hfirst.append (ih hrest hfirst.files.skeleton (by omega))
      (fun j hj hj' => hbmap j hj (by omega))

/-- The whole loop, whatever is in `ext2_buf`. -/
theorem Trimmable.trim
    (h : Trimmable fs raw lo m n) (hs : Skeleton fs) (hn : lo + m ≤ n) (buf : Nat → BitVec 8) :
    Trim ∅ fs raw lo m (freeBlocks m lo raw (fs.withBuf buf)).2
      (freeBlocks m lo raw (fs.withBuf buf)).1 := by
  have hstart : Trim ∅ fs raw lo 0 (fs.withBuf buf) raw :=
    Trim.skip hs (Nat.zero_le 1) (fun h0 => absurd h0 (by decide)) buf
  obtain ⟨hrest, hbmap⟩ := Trimmable.rest (k := 0) (m := m) (by rwa [Nat.zero_add]) hstart
    hs.layout.blockSize (by omega)
  have happend := hstart.append (m := m) (hrest.trim_loop hstart.files.skeleton hn)
    (fun j hj hj' => hbmap j hj (by omega))
  rw [Nat.zero_add] at happend
  exact happend

theorem Trim.cut (h : Trim T fs raw lo m fs' raw') (hv : Volume fs) (hm : Marked fs raw lo m) :
    Cut T fs raw lo m fs' raw' :=
  ⟨h, h.marks hv hm⟩

theorem Trim.write
    (h : Trim ∅ fs raw lo m fs1 raw1) {no : Nat} (hno : fs.IsInode no) {final : Ext2Inode}
    (hblock : ∀ k, final.block k = raw1.block k) :
    Trim {no} fs raw lo m (ext2WriteInode fs1 no final).2 final ∧
      (ext2WriteInode fs1 no final).2.inodeOf no = final := by
  have hshape := h.files.shape
  have hno1 : fs1.IsInode no := (hshape.isInode no).mpr hno
  obtain ⟨-, hfiles, hself, hbytes, hused, -⟩ := h.files.skeleton.writeInode hno1 final
  refine ⟨⟨(h.files.mono (Set.empty_subset _)).trans hfiles, ?_, ?_, ?_, ?_, ?_⟩, hself⟩
  · intro k
    rw [hblock, h.block]
  · intro b q hb hcond hq
    rw [hbytes b q ((hshape.dataBlock b).mpr hb) (hshape.blockSize ▸ hq), h.bytes b q hb hcond hq]
  · intro j hj hb
    rw [← h.entry j hj hb]
    exact pointer_congr (fun q hq => hbytes _ q ((hshape.dataBlock _).mpr hb) hq)
      (h.files.skeleton.layout.blockSize.pointer_fits (hshape.ptrsPerBlock ▸ hj))
  · intro b
    rw [hused, h.used]
  · intro hv hm
    have hsame := h.marks hv hm
    obtain ⟨-, hshows⟩ := hsame.volume.shows.writeInode hno1 final
    have hsame' : SameInodes {no} fs1 (ext2WriteInode fs1 no final).2 :=
      hshows.sameInodes rfl rfl rfl rfl (fun k hk => View.inode_withInode_of_ne _ hk _)
    have hfirst : SameInodes {no} fs fs1 :=
      ⟨hsame.volume, hsame.blockSize, hsame.inodesCount, hsame.dataBlock, hsame.usedInodes,
        fun k hk _ => hsame.inode k hk (Set.notMem_empty k)⟩
    exact hfirst.trans hsame'

end Rounds

end Ext2
end Homunculos
