import Homunculos.Ext2.Alloc

/-!
# What an allocation or release changes

`Edit` says it on the level of bits and counts: one bit of one bitmap, the free
count of its group and the free count of the superblock.  It is assembled from
what each of the three block writes changes on the device.
-/

namespace Homunculos
namespace Ext2

open Bytes Block Bitmap

/-- One bit gets the value `v` and the two free counts follow. -/
structure Edit (k : Kind) (v : Bool) (g i : Nat) (fs fs' : Ext2Fs) : Prop where
  blockSize : fs'.blockSize = fs.blockSize
  bgdescBlock : fs'.bgdescBlock = fs.bgdescBlock
  bgdescCount : fs'.bgdescCount = fs.bgdescCount
  perGroup : ∀ k' : Kind, k'.perGroup fs'.sb = k'.perGroup fs.sb
  count : ∀ k' : Kind, k'.count fs'.sb = k'.count fs.sb
  firstDataBlock : fs'.sb.firstDataBlock = fs.sb.firstDataBlock
  bitmapNo : ∀ (k' : Kind) (g' : Nat), g' < fs.bgdescCount →
    k'.bitmap (fs'.desc g') = k'.bitmap (fs.desc g')
  bit : ∀ (k' : Kind) (g' j : Nat), g' < fs.bgdescCount →
    j < 8 * fs.blockSize →
    bit k' fs' g' j =
      if k' = k ∧ g' = g ∧ j = i then v else bit k' fs g' j
  groupFree : ∀ (k' : Kind) (g' : Nat), g' < fs.bgdescCount →
    k'.groupFree (fs'.desc g') =
      if k' = k ∧ g' = g then
        bump v (2 ^ 16) (k.groupFree (fs.desc g)) % 2 ^ 16
      else
        k'.groupFree (fs.desc g')
  sbFree : ∀ k' : Kind,
    k'.sbFree fs'.sb =
      if k' = k then
        bump v (2 ^ 32) (k.sbFree fs.sb) % 2 ^ 32
      else
        k'.sbFree fs.sb

section Fields

theorem bitmap_congr {d d' : Ext2Bgdesc} (h : ∀ q, q < 32 → d.bytes q = d'.bytes q) (k : Kind) :
    k.bitmap d = k.bitmap d' := by
  cases k with
  | block => exact u32_congr (fun j hj => h _ (by omega))
  | inode => exact u32_congr (fun j hj => h _ (by omega))

theorem groupFree_congr {d d' : Ext2Bgdesc} (h : ∀ q, q < 32 → d.bytes q = d'.bytes q) (k : Kind) :
    k.groupFree d = k.groupFree d' := by
  cases k with
  | block => exact u16_congr (fun j hj => h _ (by omega))
  | inode => exact u16_congr (fun j hj => h _ (by omega))

theorem bitmap_setGroupFree (k k' : Kind) (d : Ext2Bgdesc) (v : Nat) :
    k'.bitmap (k.setGroupFree d v) = k'.bitmap d := by
  cases k with
  | block =>
    cases k' with
    | block => exact u32_putU16_of_apart (by omega)
    | inode => exact u32_putU16_of_apart (by omega)
  | inode =>
    cases k' with
    | block => exact u32_putU16_of_apart (by omega)
    | inode => exact u32_putU16_of_apart (by omega)

theorem groupFree_setGroupFree (k k' : Kind) (d : Ext2Bgdesc) (v : Nat) :
    k'.groupFree (k.setGroupFree d v) =
      if k' = k then v % 2 ^ 16 else k'.groupFree d := by
  cases k with
  | block =>
    cases k' with
    | block => exact u16_putU16_self _ _ _
    | inode => exact u16_putU16_of_apart (by omega)
  | inode =>
    cases k' with
    | block => exact u16_putU16_of_apart (by omega)
    | inode => exact u16_putU16_self _ _ _

theorem sbFree_setSbFree (k k' : Kind) (sb : Ext2Sb) (v : Nat) :
    k'.sbFree (k.setSbFree sb v) =
      if k' = k then v % 2 ^ 32 else k'.sbFree sb := by
  cases k with
  | block =>
    cases k' with
    | block => exact u32_putU32_self _ _ _
    | inode => exact u32_putU32_of_apart (by omega)
  | inode =>
    cases k' with
    | block => exact u32_putU32_of_apart (by omega)
    | inode => exact u32_putU32_self _ _ _

theorem setSbFree_frame (k k' : Kind) (sb : Ext2Sb) (v : Nat) :
    k'.perGroup (k.setSbFree sb v) = k'.perGroup sb ∧
      k'.count (k.setSbFree sb v) = k'.count sb ∧
      (k.setSbFree sb v).firstDataBlock = sb.firstDataBlock := by
  have hapart : ∀ o, o + 4 ≤ 12 ∨ 20 ≤ o →
      u32 (k.setSbFree sb v).bytes o = u32 sb.bytes o := by
    intro o ho
    cases k with
    | block => exact u32_putU32_of_apart (by omega)
    | inode => exact u32_putU32_of_apart (by omega)
  refine ⟨?_, ?_, hapart _ (by omega)⟩
  · cases k' with
    | block => exact hapart _ (by omega)
    | inode => exact hapart _ (by omega)
  · cases k' with
    | block => exact hapart _ (by omega)
    | inode => exact hapart _ (by omega)

end Fields

section Descriptors

variable {fs : Ext2Fs} {g g' : Nat}

theorem Layout.table (h : Layout fs) :
    fs.bgdescCount * 32 ≤ 2 ^ 32 := by
  by_contra hlong
  have hgroup : 2 ^ 27 < fs.bgdescCount := by omega
  have hdesc : fs.desc (2 ^ 27) = fs.desc 0 := by rfl
  have hsame : Area.bitmap .block (2 ^ 27) = Area.bitmap .block 0 := by
    refine h.distinct _ _ hgroup ((Nat.zero_le _).trans_lt hgroup) ?_
    exact congrArg (fun d => fs.blockLba (Kind.bitmap .block d)) hdesc
  cases hsame

theorem Layout.descBlock_eq (h : Layout fs) (hg : g < fs.bgdescCount) :
    fs.descBlock g = Area.blockNo fs (.descs (g * 32 / fs.blockSize)) := by
  have htable := h.table
  unfold Ext2Fs.descBlock Area.blockNo
  rw [Nat.mod_eq_of_lt (by omega : g * 32 < 2 ^ 32)]

theorem Layout.descPos_eq (h : Layout fs) (hg : g < fs.bgdescCount) :
    fs.descPos g = g * 32 % fs.blockSize := by
  have htable := h.table
  unfold Ext2Fs.descPos
  rw [Nat.mod_eq_of_lt (by omega : g * 32 < 2 ^ 32)]

theorem BlockSizeOk.descPos_fits (h : BlockSizeOk fs) (g : Nat) :
    fs.descPos g + 32 ≤ fs.blockSize := by
  unfold Ext2Fs.descPos
  rcases h with hs | hs | hs
  · rw [hs]
    omega
  · rw [hs]
    omega
  · rw [hs]
    omega

theorem Layout.descPos_apart
    (h : Layout fs) (hg : g < fs.bgdescCount) (hg' : g' < fs.bgdescCount) (hne : g' ≠ g)
    (hblock : g' * 32 / fs.blockSize = g * 32 / fs.blockSize) :
    fs.descPos g' + 32 ≤ fs.descPos g ∨ fs.descPos g + 32 ≤ fs.descPos g' := by
  rw [h.descPos_eq hg, h.descPos_eq hg']
  rcases h.blockSize with hs | hs | hs
  · rw [hs] at hblock ⊢
    omega
  · rw [hs] at hblock ⊢
    omega
  · rw [hs] at hblock ⊢
    omega

theorem Layout.lba_ne
    (h : Layout fs) {a b : Area} (ha : a.Valid fs) (hb : b.Valid fs) (hne : a ≠ b) :
    fs.blockLba (a.blockNo fs) ≠ fs.blockLba (b.blockNo fs) :=
  fun heq => hne (h.distinct a b ha hb heq)

theorem readBgdesc_some (h : BlockSizeOk fs) {bgd : Ext2Bgdesc} {fs' : Ext2Fs}
    (hread : ext2ReadBgdesc fs g = (some bgd, fs')) :
    bgd = fs.desc g ∧ fs' = (fs.readBuf (fs.descBlock g)).2 := by
  unfold ext2ReadBgdesc at hread
  dsimp only at hread
  split at hread
  next hok =>
    cases hread
    refine ⟨congrArg Ext2Bgdesc.mk ?_, rfl⟩
    apply slice_congr
    intro q hq
    have hfits := h.descPos_fits g
    exact readBuf_done fs h hok (by omega)
  next =>
    cases hread

theorem readBgdesc_none {fs' : Ext2Fs} (hread : ext2ReadBgdesc fs g = (none, fs')) :
    (fs.readBuf (fs.descBlock g)).1 = false ∧
      fs' = (fs.readBuf (fs.descBlock g)).2 := by
  unfold ext2ReadBgdesc at hread
  dsimp only at hread
  split at hread
  next =>
    cases hread
  next hok =>
    cases hread
    exact ⟨by simpa using hok, rfl⟩

end Descriptors

section Writes

variable {nr q : Nat}

/-- A descriptor that was written is in its block, and the rest of the block is as before. -/
theorem writeBgdesc_done (fs : Ext2Fs) (hsize : BlockSizeOk fs) {g : Nat} {bgd : Ext2Bgdesc}
    (h : (ext2WriteBgdesc fs g bgd).1 = true) (hq : q < fs.blockSize) :
    (ext2WriteBgdesc fs g bgd).2.diskByte (fs.descBlock g) q =
      copy (fs.diskByte (fs.descBlock g)) (fs.descPos g) bgd.bytes 32 q := by
  unfold ext2WriteBgdesc at h ⊢
  dsimp only at h ⊢
  split at h
  next hread =>
    rw [if_pos hread]
    have hwritten := writeBuf_done
      ((fs.readBuf (fs.descBlock g)).2.withBuf
        (copy (fs.readBuf (fs.descBlock g)).2.buf (fs.descPos g) bgd.bytes 32))
      hsize h hq
    rw [hwritten]
    unfold Ext2Fs.withBuf copy
    dsimp only
    split
    · rfl
    · exact readBuf_done fs hsize hread hq
  next =>
    cases h

theorem writeBgdesc_frame (fs : Ext2Fs) (hsize : BlockSizeOk fs) (g : Nat) (bgd : Ext2Bgdesc)
    (hne : fs.blockLba nr ≠ fs.blockLba (fs.descBlock g)) (hq : q < fs.blockSize) :
    (ext2WriteBgdesc fs g bgd).2.diskByte nr q = fs.diskByte nr q := by
  unfold ext2WriteBgdesc
  dsimp only
  split
  · exact writeBuf_frame
      ((fs.readBuf (fs.descBlock g)).2.withBuf
        (copy (fs.readBuf (fs.descBlock g)).2.buf (fs.descPos g) bgd.bytes 32))
      hsize hne hq
  · rfl

theorem writeBgdesc_static (fs : Ext2Fs) (g : Nat) (bgd : Ext2Bgdesc) :
    (ext2WriteBgdesc fs g bgd).2.sb = fs.sb ∧
      (ext2WriteBgdesc fs g bgd).2.blockSize = fs.blockSize ∧
      (ext2WriteBgdesc fs g bgd).2.bgdescBlock = fs.bgdescBlock ∧
      (ext2WriteBgdesc fs g bgd).2.bgdescCount = fs.bgdescCount := by
  unfold ext2WriteBgdesc
  dsimp only
  split
  · exact ⟨rfl, rfl, rfl, rfl⟩
  · exact ⟨rfl, rfl, rfl, rfl⟩

theorem writeBgdesc_healthy (fs : Ext2Fs) (h : fs.dev.Healthy) (g : Nat) (bgd : Ext2Bgdesc) :
    (ext2WriteBgdesc fs g bgd).1 = true ∧
      (ext2WriteBgdesc fs g bgd).2.dev.Healthy := by
  unfold ext2WriteBgdesc
  rw [if_pos (readBuf_healthy fs h _)]
  exact writeBuf_healthy
    ((fs.readBuf (fs.descBlock g)).2.withBuf
      (copy (fs.readBuf (fs.descBlock g)).2.buf (fs.descPos g) bgd.bytes 32))
    h _

end Writes

section Assemble

variable {k : Kind} {v : Bool} {fs : Ext2Fs} {g i : Nat}

/-- The state after the bitmap was written. -/
def afterBitmap (k : Kind) (v : Bool) (fs : Ext2Fs) (g i : Nat) : Ext2Fs :=
  (writeBitmap k v fs (fs.desc g) i).2

/-- The state after the descriptor was written. -/
def afterDesc (k : Kind) (v : Bool) (fs : Ext2Fs) (g i : Nat) : Ext2Fs :=
  (writeGroupFree k v (afterBitmap k v fs g i) g (fs.desc g)).2

/-- The state after the superblock was written. -/
def afterSb (k : Kind) (v : Bool) (fs : Ext2Fs) (g i : Nat) : Ext2Fs :=
  (writeSbFree k v (afterDesc k v fs g i)).2

/-- The bitmap is in `ext2_buf`, and it and the descriptor get written. -/
structure Ready (k : Kind) (v : Bool) (fs : Ext2Fs) (g i : Nat) : Prop where
  layout : Layout fs
  group : g < fs.bgdescCount
  index : i < 8 * fs.blockSize
  loaded : ∀ q, q < fs.blockSize →
    fs.buf q = fs.diskByte (k.bitmap (fs.desc g)) q
  bitmapOk : (writeBitmap k v fs (fs.desc g) i).1 = true
  descOk : (writeGroupFree k v (afterBitmap k v fs g i) g (fs.desc g)).1 = true

theorem afterSb_static (k : Kind) (v : Bool) (fs : Ext2Fs) (g i : Nat) :
    (afterSb k v fs g i).blockSize = fs.blockSize ∧
      (afterSb k v fs g i).bgdescBlock = fs.bgdescBlock ∧
      (afterSb k v fs g i).bgdescCount = fs.bgdescCount ∧
      (afterSb k v fs g i).sb =
        k.setSbFree fs.sb (bump v (2 ^ 32) (k.sbFree fs.sb)) := by
  obtain ⟨hsb, hsize, hblock, hcount⟩ := writeBgdesc_static
    (afterBitmap k v fs g i) g
    (k.setGroupFree (fs.desc g) (bump v (2 ^ 16) (k.groupFree (fs.desc g))))
  refine ⟨hsize, hblock, hcount, ?_⟩
  change k.setSbFree (afterDesc k v fs g i).sb
    (bump v (2 ^ 32) (k.sbFree (afterDesc k v fs g i).sb)) = _
  have hsame : (afterDesc k v fs g i).sb = fs.sb := hsb
  rw [hsame]

variable (h : Ready k v fs g i)
include h

theorem Ready.sb_frame {nr q : Nat} (hne : fs.blockLba nr ≠ fs.blockLba fs.sbBlock)
    (hq : q < fs.blockSize) :
    (afterSb k v fs g i).diskByte nr q =
      (afterDesc k v fs g i).diskByte nr q := by
  have hsize : (afterDesc k v fs g i).blockSize = fs.blockSize :=
    (writeBgdesc_static (afterBitmap k v fs g i) g _).2.1
  have hlba : ∀ n, (afterDesc k v fs g i).blockLba n = fs.blockLba n := by
    intro n
    unfold Ext2Fs.blockLba
    rw [hsize]
  have hsb : (afterDesc k v fs g i).sbBlock = fs.sbBlock := by
    unfold Ext2Fs.sbBlock
    rw [hsize]
  have hok : BlockSizeOk (afterDesc k v fs g i) := by
    unfold BlockSizeOk
    rw [hsize]
    exact h.layout.blockSize
  have hne' : (afterDesc k v fs g i).blockLba nr ≠
      (afterDesc k v fs g i).blockLba (afterDesc k v fs g i).sbBlock := by
    rw [hlba, hlba, hsb]
    exact hne
  rw [← hsize] at hq
  exact writeBuf_frame
    (Ext2Fs.withBuf
      { afterDesc k v fs g i with
        sb := k.setSbFree (afterDesc k v fs g i).sb
          (bump v (2 ^ 32) (k.sbFree (afterDesc k v fs g i).sb)) } _)
    hok hne' hq

theorem Ready.desc_frame {nr q : Nat} (hne : fs.blockLba nr ≠ fs.blockLba (fs.descBlock g))
    (hq : q < fs.blockSize) :
    (afterDesc k v fs g i).diskByte nr q =
      (afterBitmap k v fs g i).diskByte nr q :=
  writeBgdesc_frame (afterBitmap k v fs g i) h.layout.blockSize g _ hne hq

theorem Ready.bitmap_frame {nr q : Nat} (hne : fs.blockLba nr ≠ fs.blockLba (k.bitmap (fs.desc g)))
    (hq : q < fs.blockSize) :
    (afterBitmap k v fs g i).diskByte nr q = fs.diskByte nr q :=
  writeBuf_frame
    (fs.withBuf (if v then Bitmap.set fs.buf i else Bitmap.clear fs.buf i))
    h.layout.blockSize hne hq

theorem Ready.other {a : Area} (ha : a.Valid fs) (hsb : a ≠ .superblock)
    (hdesc : a ≠ .descs (g * 32 / fs.blockSize)) (hbitmap : a ≠ .bitmap k g) {q : Nat}
    (hq : q < fs.blockSize) :
    (afterSb k v fs g i).diskByte (a.blockNo fs) q =
      fs.diskByte (a.blockNo fs) q := by
  have hl := h.layout
  rw [h.sb_frame (hl.lba_ne (b := .superblock) ha trivial hsb) hq,
    h.desc_frame ?_ hq]
  · exact h.bitmap_frame
      (hl.lba_ne (b := .bitmap k g) ha h.group hbitmap) hq
  · rw [hl.descBlock_eq h.group]
    exact hl.lba_ne ha ⟨g, h.group, rfl⟩ hdesc

theorem Ready.bitmap_done {q : Nat} (hq : q < fs.blockSize) :
    (afterSb k v fs g i).diskByte (k.bitmap (fs.desc g)) q =
      (if v then Bitmap.set fs.buf i else Bitmap.clear fs.buf i) q := by
  have hl := h.layout
  have hself : Area.Valid fs (.bitmap k g) := h.group
  have hsb := hl.lba_ne (b := .superblock) hself trivial (by simp)
  have hdesc := hl.lba_ne (b := .descs (g * 32 / fs.blockSize)) hself
    ⟨g, h.group, rfl⟩ (by simp)
  rw [← hl.descBlock_eq h.group] at hdesc
  change fs.blockLba (k.bitmap (fs.desc g)) ≠ _ at hsb hdesc
  rw [h.sb_frame hsb hq, h.desc_frame hdesc hq]
  exact writeBuf_done
    (fs.withBuf (if v then Bitmap.set fs.buf i else Bitmap.clear fs.buf i))
    hl.blockSize h.bitmapOk hq

theorem Ready.desc_done {q : Nat} (hq : q < fs.blockSize) :
    (afterSb k v fs g i).diskByte (fs.descBlock g) q =
      copy (fs.diskByte (fs.descBlock g)) (fs.descPos g)
        (k.setGroupFree (fs.desc g)
          (bump v (2 ^ 16) (k.groupFree (fs.desc g)))).bytes 32 q := by
  have hl := h.layout
  have hself : Area.Valid fs (.descs (g * 32 / fs.blockSize)) :=
    ⟨g, h.group, rfl⟩
  have hsb := hl.lba_ne (b := .superblock) hself trivial (by simp)
  have hbitmap := hl.lba_ne (b := .bitmap k g) hself h.group (by simp)
  rw [← hl.descBlock_eq h.group] at hsb hbitmap
  rw [h.sb_frame hsb hq]
  have hwritten := writeBgdesc_done (afterBitmap k v fs g i)
    hl.blockSize h.descOk hq
  exact hwritten.trans (copy_congr (h.bitmap_frame hbitmap hq))

theorem Ready.desc_bytes {g' q : Nat} (hg' : g' < fs.bgdescCount) (hq : q < 32) :
    ((afterSb k v fs g i).desc g').bytes q =
      if g' = g then
        (k.setGroupFree (fs.desc g) (bump v (2 ^ 16) (k.groupFree (fs.desc g)))).bytes q
      else
        (fs.desc g').bytes q := by
  have hl := h.layout
  obtain ⟨hsize, hblock, _, _⟩ := afterSb_static k v fs g i
  have hdescBlock : (afterSb k v fs g i).descBlock g' = fs.descBlock g' := by
    unfold Ext2Fs.descBlock
    rw [hsize, hblock]
  have hdescPos : (afterSb k v fs g i).descPos g' = fs.descPos g' := by
    unfold Ext2Fs.descPos
    rw [hsize]
  have hfits := hl.blockSize.descPos_fits g'
  unfold Ext2Fs.desc
  dsimp only
  rw [slice_of_lt hq, hdescBlock, hdescPos]
  by_cases hgg : g' = g
  · subst hgg
    rw [if_pos rfl, h.desc_done (by omega),
      copy_inside (by omega) (by omega), Nat.add_sub_cancel_left]
    rfl
  · rw [if_neg hgg, slice_of_lt hq]
    by_cases hj : g' * 32 / fs.blockSize = g * 32 / fs.blockSize
    · have hsame : fs.descBlock g' = fs.descBlock g := by
        rw [hl.descBlock_eq hg', hl.descBlock_eq h.group, hj]
      have hapart := hl.descPos_apart h.group hg' hgg hj
      rw [hsame, h.desc_done (by omega), copy_outside (by omega)]
    · have hother := h.other (a := .descs (g' * 32 / fs.blockSize))
        ⟨g', hg', rfl⟩ (by simp) (by simp [hj]) (by simp)
        (q := fs.descPos g' + q) (by omega)
      rw [← hl.descBlock_eq hg'] at hother
      exact hother

theorem Ready.bitmapNo (k' : Kind) {g' : Nat} (hg' : g' < fs.bgdescCount) :
    k'.bitmap ((afterSb k v fs g i).desc g') = k'.bitmap (fs.desc g') := by
  by_cases hgg : g' = g
  · subst hgg
    rw [← bitmap_setGroupFree k k' (fs.desc g') (bump v (2 ^ 16) (k.groupFree (fs.desc g')))]
    apply bitmap_congr
    intro q hq
    rw [h.desc_bytes hg' hq, if_pos rfl]
  · apply bitmap_congr
    intro q hq
    rw [h.desc_bytes hg' hq, if_neg hgg]

theorem Ready.groupFree (k' : Kind) {g' : Nat} (hg' : g' < fs.bgdescCount) :
    k'.groupFree ((afterSb k v fs g i).desc g') =
      if k' = k ∧ g' = g then
        bump v (2 ^ 16) (k.groupFree (fs.desc g)) % 2 ^ 16
      else
        k'.groupFree (fs.desc g') := by
  by_cases hgg : g' = g
  · subst hgg
    have hset := groupFree_setGroupFree k k' (fs.desc g')
      (bump v (2 ^ 16) (k.groupFree (fs.desc g')))
    simp only [and_true]
    rw [← hset]
    apply groupFree_congr
    intro q hq
    rw [h.desc_bytes hg' hq, if_pos rfl]
  · rw [if_neg (fun hc => hgg hc.2)]
    apply groupFree_congr
    intro q hq
    rw [h.desc_bytes hg' hq, if_neg hgg]

omit h

theorem test_congr {b b' : Nat → BitVec 8} {j : Nat} (h : b (j / 8) = b' (j / 8)) :
    test b j = test b' j := by
  unfold test
  rw [h]

theorem Ready.bit (h : Ready k v fs g i) (k' : Kind) {g' j : Nat} (hg' : g' < fs.bgdescCount)
    (hj : j < 8 * fs.blockSize) :
    bit k' (afterSb k v fs g i) g' j =
      if k' = k ∧ g' = g ∧ j = i then v else bit k' fs g' j := by
  have hbyte : j / 8 < fs.blockSize := by omega
  unfold Ext2.bit
  rw [h.bitmapNo k' hg']
  by_cases hself : k' = k ∧ g' = g
  · obtain ⟨rfl, rfl⟩ := hself
    have hold : test fs.buf j =
        test (fs.diskByte (k'.bitmap (fs.desc g'))) j :=
      test_congr (h.loaded _ hbyte)
    rw [test_congr (h.bitmap_done hbyte), ← hold]
    cases v with
    | true =>
      rw [if_pos rfl, test_set (by decide)]
      by_cases hji : j = i
      · simp [hji]
      · simp [hji]
    | false =>
      rw [if_neg (by decide), test_clear (by decide)]
      by_cases hji : j = i
      · simp [hji]
      · simp [hji]
  · rw [if_neg (fun hc => hself ⟨hc.1, hc.2.1⟩)]
    apply test_congr
    refine h.other (a := .bitmap k' g') hg' (by simp) (by simp) ?_ hbyte
    intro hc
    injection hc with hk hgg
    exact hself ⟨hk, hgg⟩

theorem Ready.edit (h : Ready k v fs g i) :
    Edit k v g i fs (afterSb k v fs g i) := by
  obtain ⟨hsize, hblock, hcount, hsb⟩ := afterSb_static k v fs g i
  refine ⟨hsize, hblock, hcount, ?_, ?_, ?_,
    fun k' g' hg' => h.bitmapNo k' hg',
    fun k' g' j hg' hj => h.bit k' hg' hj,
    fun k' g' hg' => h.groupFree k' hg', ?_⟩
  · intro k'
    rw [hsb]
    exact (setSbFree_frame k k' fs.sb _).1
  · intro k'
    rw [hsb]
    exact (setSbFree_frame k k' fs.sb _).2.1
  · rw [hsb]
    exact (setSbFree_frame k k fs.sb _).2.2
  · intro k'
    rw [hsb]
    exact sbFree_setSbFree k k' fs.sb _

end Assemble

end Ext2
end Homunculos
