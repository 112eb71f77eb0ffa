import Homunculos.Ext2.AllocSpec

/-!
# The search for a free bit

The loop of an allocation over the groups ends with nothing or with the first
clear bit that it can read; then the three writes follow.  A release is the
three writes at the place of its number.
-/

namespace Homunculos
namespace Ext2

open Bytes Block Bitmap

/-- The numbers of the superblock describe the groups. -/
structure Geometry (k : Kind) (fs : Ext2Fs) : Prop where
  pos : 0 < k.perGroup fs.sb
  fits : k.perGroup fs.sb ≤ 8 * fs.blockSize
  lower : (fs.bgdescCount - 1) * k.perGroup fs.sb ≤ k.count fs.sb
  upper : k.count fs.sb ≤ fs.bgdescCount * k.perGroup fs.sb

/-- The bitmap of a group is in the buffer. -/
def Loaded (k : Kind) (fs : Ext2Fs) (g : Nat) (buf : Nat → BitVec 8) : Prop :=
  ∀ q, q < fs.blockSize → buf q = fs.diskByte (k.bitmap (fs.desc g)) q

section Numbers

variable {k : Kind} {fs : Ext2Fs} {g i : Nat}

theorem count_lt (k : Kind) (sb : Ext2Sb) :
    k.count sb < 2 ^ 32 := by
  cases k with
  | block => exact u32_lt _ _
  | inode => exact u32_lt _ _

/-- `ext2_mount` rounds the number of block groups up. -/
theorem geometry_of_mount
    {dev : BlockDevice} {buf : Nat → BitVec 8} (hmount : ext2MountSb dev buf = some fs)
    (hpos : 0 < fs.sb.blocksPerGroup) (hfits : fs.sb.blocksPerGroup ≤ 8 * fs.blockSize)
    (hcount : fs.sb.blocksCount + fs.sb.blocksPerGroup ≤ 2 ^ 32) :
    Geometry .block fs := by
  have hgroups : fs.bgdescCount =
      (fs.sb.blocksCount + fs.sb.blocksPerGroup - 1) /
        fs.sb.blocksPerGroup := by
    have hraw : fs.bgdescCount =
        (fs.sb.blocksCount + fs.sb.blocksPerGroup + (2 ^ 32 - 1)) % 2 ^ 32 /
          fs.sb.blocksPerGroup := by
      unfold ext2MountSb at hmount
      dsimp only at hmount
      split at hmount
      next =>
        cases hmount
      next =>
        cases hmount
        rfl
    have hsum : fs.sb.blocksCount + fs.sb.blocksPerGroup + (2 ^ 32 - 1) =
        fs.sb.blocksCount + fs.sb.blocksPerGroup - 1 + 2 ^ 32 := by
      omega
    rw [hraw, hsum, Nat.add_mod_right, Nat.mod_eq_of_lt (by omega)]
  have hdown := Nat.div_mul_le_self
    (fs.sb.blocksCount + fs.sb.blocksPerGroup - 1) fs.sb.blocksPerGroup
  have hup := Nat.lt_div_mul_add hpos
    (a := fs.sb.blocksCount + fs.sb.blocksPerGroup - 1)
  rw [← hgroups] at hdown hup
  refine ⟨hpos, hfits, ?_, ?_⟩
  · change (fs.bgdescCount - 1) * fs.sb.blocksPerGroup ≤ fs.sb.blocksCount
    rw [Nat.sub_mul]
    omega
  · change fs.sb.blocksCount ≤ fs.bgdescCount * fs.sb.blocksPerGroup
    omega

variable (h : Geometry k fs) (hg : g < fs.bgdescCount)
include h hg

theorem Geometry.start_le :
    g * k.perGroup fs.sb ≤ k.count fs.sb := by
  have hmul : g * k.perGroup fs.sb ≤
      (fs.bgdescCount - 1) * k.perGroup fs.sb :=
    Nat.mul_le_mul_right _ (by omega)
  exact hmul.trans h.lower

theorem Geometry.maxBits_eq :
    maxBits k fs g =
      if g = fs.bgdescCount - 1 then
        k.count fs.sb - g * k.perGroup fs.sb
      else
        k.perGroup fs.sb := by
  have hstart := h.start_le hg
  have hcount := count_lt k fs.sb
  unfold maxBits
  split
  · omega
  · rfl

theorem Geometry.maxBits_le :
    maxBits k fs g ≤ k.perGroup fs.sb := by
  rw [h.maxBits_eq hg]
  split
  next hlast =>
    have hupper := h.upper
    have hsucc : fs.bgdescCount * k.perGroup fs.sb =
        g * k.perGroup fs.sb + k.perGroup fs.sb := by
      have heq : fs.bgdescCount = g + 1 := by omega
      rw [heq, Nat.add_mul, Nat.one_mul]
    omega
  next =>
    exact Nat.le_refl _

theorem Geometry.index_lt (hi : i < maxBits k fs g) :
    g * k.perGroup fs.sb + i < k.count fs.sb := by
  rw [h.maxBits_eq hg] at hi
  split at hi
  next =>
    omega
  next hlast =>
    have hnext : (g + 1) * k.perGroup fs.sb ≤
        (fs.bgdescCount - 1) * k.perGroup fs.sb :=
      Nat.mul_le_mul_right _ (by omega)
    have hlower := h.lower
    rw [Nat.add_mul] at hnext
    omega

theorem Geometry.number_eq (hi : i < maxBits k fs g) :
    number k fs g i = g * k.perGroup fs.sb + i + k.first := by
  have hlt := h.index_lt hg hi
  have hcount := count_lt k fs.sb
  have hfirst : k.first ≤ 1 := by
    cases k with
    | block => exact Nat.zero_le _
    | inode => exact Nat.le_refl _
  exact Nat.mod_eq_of_lt (by omega)

theorem Geometry.parts (hi : i < maxBits k fs g) :
    (g * k.perGroup fs.sb + i) / k.perGroup fs.sb = g ∧
      (g * k.perGroup fs.sb + i) % k.perGroup fs.sb = i := by
  have hper := lt_of_lt_of_le hi (h.maxBits_le hg)
  rw [Nat.mul_comm]
  refine ⟨?_, ?_⟩
  · rw [Nat.mul_add_div h.pos, Nat.div_eq_of_lt hper, Nat.add_zero]
  · rw [Nat.mul_add_mod, Nat.mod_eq_of_lt hper]

omit hg

theorem Geometry.bit_of_index {n : Nat} (hn : n < k.count fs.sb) :
    n / k.perGroup fs.sb < fs.bgdescCount ∧
      n % k.perGroup fs.sb < maxBits k fs (n / k.perGroup fs.sb) := by
  have hpos := h.pos
  have hg : n / k.perGroup fs.sb < fs.bgdescCount :=
    (Nat.div_lt_iff_lt_mul hpos).mpr (lt_of_lt_of_le hn h.upper)
  refine ⟨hg, ?_⟩
  have hmod := Nat.mod_lt n hpos
  have hsplit := Nat.div_add_mod' n (k.perGroup fs.sb)
  rw [h.maxBits_eq hg]
  split
  · omega
  · exact hmod

end Numbers

section Search

variable {k : Kind} {fs : Ext2Fs}

theorem Layout.withBuf (h : Layout fs) (buf : Nat → BitVec 8) :
    Layout (fs.withBuf buf) :=
  ⟨h.blockSize, h.distinct⟩

/-- What is in `ext2_buf` does not matter for an edit. -/
theorem Edit.of_withBuf {v : Bool} {g i : Nat} {fs' : Ext2Fs} {buf : Nat → BitVec 8}
    (h : Edit k v g i (fs.withBuf buf) fs') :
    Edit k v g i fs fs' :=
  ⟨h.blockSize, h.bgdescBlock, h.bgdescCount, h.perGroup, h.count,
    h.firstDataBlock, h.bitmapNo, h.bit, h.groupFree, h.sbFree⟩

theorem loaded_readBuf
    (fs : Ext2Fs) (h : Layout fs) {g : Nat} (hread : (fs.readBuf (k.bitmap (fs.desc g))).1 = true) :
    Loaded k fs g (fs.readBuf (k.bitmap (fs.desc g))).2.buf :=
  fun _ hq => readBuf_done fs h.blockSize hread hq

theorem firstZero_loaded {g : Nat} {buf : Nat → BitVec 8} (hload : Loaded k fs g buf)
    (hfit : maxBits k fs g ≤ 8 * fs.blockSize) :
    firstZero (test buf) (maxBits k fs g) =
      firstZero (bit k fs g) (maxBits k fs g) := by
  apply firstZero_congr
  intro i hi
  exact test_congr (hload _ (by omega))

/-- An allocation has nothing to find in this group. -/
def GroupFull (k : Kind) (fs : Ext2Fs) (g : Nat) : Prop :=
  k.groupFree (fs.desc g) = 0 ∨
    ∀ i, i < maxBits k fs g → bit k fs g i = true

/-- Nothing is to be found from group `bg` on before bit `i` of group `g`. -/
def FirstFrom (k : Kind) (fs : Ext2Fs) (bg g i : Nat) : Prop :=
  (fs.dev.Healthy → ∀ g', bg ≤ g' → g' < g → GroupFull k fs g') ∧
    ∀ j, j < i → bit k fs g j = true

theorem allocLoop_succ (h : Layout fs) {bg : Nat}
    (hfit : maxBits k fs bg ≤ 8 * fs.blockSize) (n : Nat) (buf : Nat → BitVec 8) :
    (∃ buf', allocLoop k (n + 1) bg (fs.withBuf buf) =
        allocLoop k n (bg + 1) (fs.withBuf buf') ∧
      (fs.dev.Healthy → GroupFull k fs bg)) ∨
    (∃ i buf', i < maxBits k fs bg ∧ bit k fs bg i = false ∧
      (∀ j, j < i → bit k fs bg j = true) ∧ Loaded k fs bg buf' ∧
      allocLoop k (n + 1) bg (fs.withBuf buf) =
        takeBit k (fs.withBuf buf') bg (fs.desc bg) i) := by
  rw [allocLoop]
  cases hdesc : ext2ReadBgdesc (fs.withBuf buf) bg with
  | mk found fs1 =>
    cases found with
    | none =>
      obtain ⟨hfail, rfl⟩ := readBgdesc_none hdesc
      refine Or.inl ⟨_, rfl, ?_⟩
      intro hhealthy
      rw [readBuf_healthy (fs.withBuf buf) hhealthy] at hfail
      cases hfail
    | some bgd =>
      obtain ⟨rfl, rfl⟩ := readBgdesc_some (h.withBuf buf).blockSize hdesc
      -- reading the descriptor only changed the buffer
      generalize hbuf : ((fs.withBuf buf).readBuf ((fs.withBuf buf).descBlock bg)).2.buf = buf1
      have hfs1 : ((fs.withBuf buf).readBuf
          ((fs.withBuf buf).descBlock bg)).2 = fs.withBuf buf1 := by
        rw [← hbuf]
        rfl
      have hsame : (fs.withBuf buf).desc bg = fs.desc bg := rfl
      rw [hfs1, hsame]
      dsimp only
      by_cases hzero : k.groupFree (fs.desc bg) = 0
      · rw [if_pos hzero]
        exact Or.inl ⟨buf1, rfl, fun _ => Or.inl hzero⟩
      · rw [if_neg hzero]
        cases hread : ((fs.withBuf buf1).readBuf
            (k.bitmap (fs.desc bg))).1 with
        | false =>
          refine Or.inl ⟨_, rfl, ?_⟩
          intro hhealthy
          rw [readBuf_healthy (fs.withBuf buf1) hhealthy] at hread
          cases hread
        | true =>
          have hload : Loaded k fs bg ((fs.withBuf buf1).readBuf
              (k.bitmap (fs.desc bg))).2.buf :=
            loaded_readBuf (fs.withBuf buf1) (h.withBuf buf1) hread
          generalize hbuf2 : ((fs.withBuf buf1).readBuf
            (k.bitmap (fs.desc bg))).2.buf = buf2 at hload
          have hfs2 : ((fs.withBuf buf1).readBuf
              (k.bitmap (fs.desc bg))).2 = fs.withBuf buf2 := by
            rw [← hbuf2]
            rfl
          have hscan : firstZero (test buf2)
              (maxBits k (fs.withBuf buf2) bg) =
                firstZero (bit k fs bg) (maxBits k fs bg) :=
            firstZero_loaded hload hfit
          rw [hfs2, hscan]
          cases hzeroBit : firstZero (bit k fs bg) (maxBits k fs bg) with
          | none =>
            exact Or.inl ⟨buf2, rfl, fun _ =>
              Or.inr (firstZero_none.mp hzeroBit)⟩
          | some i =>
            obtain ⟨hi, hbit⟩ := firstZero_some hzeroBit
            exact Or.inr ⟨i, buf2, hi, hbit, fun _ hj => firstZero_least hzeroBit hj, hload, rfl⟩

/--
The loop finds nothing, or it finds a clear bit, with the bitmap in the buffer.
On a device without errors it finds nothing only if there is nothing, and it
finds the first clear bit.
-/
theorem allocLoop_cases
    (h : Layout fs) (hfit : ∀ g, g < fs.bgdescCount → maxBits k fs g ≤ 8 * fs.blockSize)
    (n bg : Nat) (hbg : bg + n ≤ fs.bgdescCount) (buf : Nat → BitVec 8) :
    (∃ buf', allocLoop k n bg (fs.withBuf buf) = (0, fs.withBuf buf') ∧
      (fs.dev.Healthy → ∀ g, bg ≤ g → g < bg + n → GroupFull k fs g)) ∨
    (∃ g i buf', g < fs.bgdescCount ∧ i < maxBits k fs g ∧
      bit k fs g i = false ∧ FirstFrom k fs bg g i ∧ Loaded k fs g buf' ∧
      allocLoop k n bg (fs.withBuf buf) =
        takeBit k (fs.withBuf buf') g (fs.desc g) i) := by
  induction n generalizing bg buf with
  | zero =>
    refine Or.inl ⟨buf, rfl, ?_⟩
    intro _ g hg hg'
    omega
  | succ n ih =>
    have hgroup : bg < fs.bgdescCount := by omega
    rcases allocLoop_succ h (hfit bg hgroup) n buf with
      ⟨buf', hnext, hfull⟩ | ⟨i, buf', hi, hbit, hleast, hload, htake⟩
    · rw [hnext]
      rcases ih (bg + 1) (by omega) buf' with
        ⟨buf'', hout, hrest⟩ | ⟨g, i, buf'', hg, hi, hbit, ⟨hskip, hleast⟩, hfound⟩
      · refine Or.inl ⟨buf'', hout, ?_⟩
        intro hhealthy g hg hg'
        by_cases hgb : g = bg
        · subst hgb
          exact hfull hhealthy
        · exact hrest hhealthy g (by omega) (by omega)
      · refine Or.inr ⟨g, i, buf'', hg, hi, hbit, ⟨?_, hleast⟩, hfound⟩
        intro hhealthy g' hg' hlt
        by_cases hgb : g' = bg
        · subst hgb
          exact hfull hhealthy
        · exact hskip hhealthy g' (by omega) hlt
    · refine Or.inr ⟨bg, i, buf', hgroup, hi, hbit, ⟨?_, hleast⟩, hload, htake⟩
      intro _ g' hg' hlt
      omega

end Search

section Outcomes

variable {k : Kind} {fs : Ext2Fs} {g i : Nat}

/-- The writes of `takeBit` succeeded. -/
theorem takeBit_of_ok (fs : Ext2Fs) (hw : (writeBitmap k true fs (fs.desc g) i).1 = true)
    (hd : (writeGroupFree k true (afterBitmap k true fs g i) g (fs.desc g)).1 = true) :
    takeBit k fs g (fs.desc g) i =
      (number k fs g i, afterSb k true fs g i) := by
  unfold takeBit
  rw [if_neg (by simp [hw])]
  have hd' : (writeGroupFree k true
      (writeBitmap k true fs (fs.desc g) i).2 g (fs.desc g)).1 = true := hd
  rw [if_neg (by simp [hd'])]
  rfl

theorem takeBit_block_nonzero (fs : Ext2Fs) (hne : (takeBit .block fs g (fs.desc g) i).1 ≠ 0) :
    (writeBitmap .block true fs (fs.desc g) i).1 = true ∧
      (writeGroupFree .block true (afterBitmap .block true fs g i) g
        (fs.desc g)).1 = true := by
  unfold takeBit at hne
  cases hw : (writeBitmap .block true fs (fs.desc g) i).1 with
  | false =>
    rw [if_pos hw] at hne
    exact absurd rfl hne
  | true =>
    rw [if_neg (by simp [hw])] at hne
    refine ⟨rfl, ?_⟩
    by_contra hd
    have hd' : (writeGroupFree .block true
        (writeBitmap .block true fs (fs.desc g) i).2 g
          (fs.desc g)).1 = false := by
      simpa [afterBitmap] using hd
    rw [if_pos ⟨rfl, hd'⟩] at hne
    exact absurd rfl hne

theorem writes_healthy (fs : Ext2Fs) (h : fs.dev.Healthy) (k : Kind) (v : Bool) (g i : Nat) :
    (writeBitmap k v fs (fs.desc g) i).1 = true ∧
      (writeGroupFree k v (afterBitmap k v fs g i) g (fs.desc g)).1 = true ∧
      (afterSb k v fs g i).dev.Healthy := by
  have hbitmap := writeBuf_healthy
    (fs.withBuf (if v then Bitmap.set fs.buf i else Bitmap.clear fs.buf i)) h
    (k.bitmap (fs.desc g))
  have hdesc := writeBgdesc_healthy (afterBitmap k v fs g i) hbitmap.2 g
    (k.setGroupFree (fs.desc g) (bump v (2 ^ 16) (k.groupFree (fs.desc g))))
  refine ⟨hbitmap.1, hdesc.1, ?_⟩
  exact (writeBuf_healthy
    (Ext2Fs.withBuf
      { afterDesc k v fs g i with
        sb := k.setSbFree (afterDesc k v fs g i).sb
          (bump v (2 ^ 32) (k.sbFree (afterDesc k v fs g i).sb)) } _)
    hdesc.2 _).2

/-- What `ext2_alloc_block` does when it returns a block, on any device. -/
theorem ext2AllocBlock_nonzero
    (h : Layout fs) (hgeo : Geometry .block fs) (hne : (ext2AllocBlock fs).1 ≠ 0) :
    ∃ g i, g < fs.bgdescCount ∧ i < maxBits .block fs g ∧
      bit .block fs g i = false ∧
      (ext2AllocBlock fs).1 = number .block fs g i ∧
      Edit .block true g i fs (ext2AllocBlock fs).2 := by
  have hfit : ∀ g, g < fs.bgdescCount →
      maxBits .block fs g ≤ 8 * fs.blockSize :=
    fun g hg => (hgeo.maxBits_le hg).trans hgeo.fits
  unfold ext2AllocBlock at hne ⊢
  rcases allocLoop_cases h hfit fs.bgdescCount 0 (by omega) fs.buf with
    ⟨buf', hout, _⟩ | ⟨g, i, buf', hg, hi, hbit, -, hload, hout⟩
  · change allocLoop .block fs.bgdescCount 0 fs = _ at hout
    rw [hout] at hne
    exact absurd rfl hne
  · change allocLoop .block fs.bgdescCount 0 fs = _ at hout
    rw [hout] at hne ⊢
    obtain ⟨hw, hd⟩ := takeBit_block_nonzero (fs.withBuf buf') hne
    have hready : Ready .block true (fs.withBuf buf') g i :=
      ⟨h.withBuf buf', hg, lt_of_lt_of_le hi (hfit g hg), hload, hw, hd⟩
    have htake := takeBit_of_ok (fs.withBuf buf') hw hd
    refine ⟨g, i, hg, hi, hbit, ?_, ?_⟩
    · exact congrArg Prod.fst htake
    · have hstate := congrArg Prod.snd htake
      change (takeBit .block (fs.withBuf buf') g (fs.desc g) i).2 = _ at hstate
      rw [hstate]
      exact hready.edit.of_withBuf

theorem alloc_ready (h : Layout fs) (hgeo : Geometry k fs) (hhealthy : fs.dev.Healthy) :
    ((allocLoop k fs.bgdescCount 0 fs).1 = 0 ∧
      (∃ buf', (allocLoop k fs.bgdescCount 0 fs).2 = fs.withBuf buf') ∧
      ∀ g, g < fs.bgdescCount → GroupFull k fs g) ∨
    (∃ g i buf', g < fs.bgdescCount ∧ i < maxBits k fs g ∧
      bit k fs g i = false ∧ FirstFrom k fs 0 g i ∧
      allocLoop k fs.bgdescCount 0 fs =
        (number k fs g i, afterSb k true (fs.withBuf buf') g i) ∧
      Ready k true (fs.withBuf buf') g i ∧
      (afterSb k true (fs.withBuf buf') g i).dev.Healthy) := by
  have hfit : ∀ g, g < fs.bgdescCount → maxBits k fs g ≤ 8 * fs.blockSize :=
    fun g hg => (hgeo.maxBits_le hg).trans hgeo.fits
  rcases allocLoop_cases h hfit fs.bgdescCount 0 (by omega) fs.buf with
    ⟨buf', hout, hfull⟩ | ⟨g, i, buf', hg, hi, hbit, hfirst, hload, hout⟩
  · change allocLoop k fs.bgdescCount 0 fs = _ at hout
    rw [hout]
    exact Or.inl ⟨rfl, ⟨buf', rfl⟩,
      fun g hg => hfull hhealthy g (Nat.zero_le _) (by omega)⟩
  · change allocLoop k fs.bgdescCount 0 fs = _ at hout
    rw [hout]
    obtain ⟨hw, hd, hdev⟩ := writes_healthy (fs.withBuf buf')
      hhealthy k true g i
    have hready : Ready k true (fs.withBuf buf') g i :=
      ⟨h.withBuf buf', hg, lt_of_lt_of_le hi (hfit g hg), hload, hw, hd⟩
    have htake : takeBit k (fs.withBuf buf') g (fs.desc g) i = _ :=
      takeBit_of_ok (fs.withBuf buf') hw hd
    rw [htake]
    exact Or.inr ⟨g, i, buf', hg, hi, hbit, hfirst, rfl, hready, hdev⟩

theorem freeBit_ready (h : Layout fs) (hhealthy : fs.dev.Healthy) (hg : g < fs.bgdescCount)
    (hi : i < 8 * fs.blockSize) :
    ∃ buf', freeBit k fs g i = afterSb k false (fs.withBuf buf') g i ∧
      Ready k false (fs.withBuf buf') g i ∧
      (afterSb k false (fs.withBuf buf') g i).dev.Healthy := by
  have hread := readBuf_healthy fs hhealthy (fs.descBlock g)
  have hdesc : ext2ReadBgdesc fs g =
      (some (fs.desc g), (fs.readBuf (fs.descBlock g)).2) := by
    cases hout : ext2ReadBgdesc fs g with
    | mk found fs1 =>
      cases found with
      | none =>
        obtain ⟨hfail, _⟩ := readBgdesc_none hout
        rw [hread] at hfail
        cases hfail
      | some bgd =>
        obtain ⟨rfl, rfl⟩ := readBgdesc_some h.blockSize hout
        rfl
  have hfs1 : (fs.readBuf (fs.descBlock g)).2 =
      fs.withBuf (fs.readBuf (fs.descBlock g)).2.buf := rfl
  generalize (fs.readBuf (fs.descBlock g)).2.buf = buf1 at hfs1
  rw [hfs1] at hdesc
  have hload : Loaded k fs g ((fs.withBuf buf1).readBuf
      (k.bitmap (fs.desc g))).2.buf :=
    loaded_readBuf (fs.withBuf buf1) (h.withBuf buf1)
      (readBuf_healthy (fs.withBuf buf1) hhealthy (k.bitmap (fs.desc g)))
  generalize hbuf2 : ((fs.withBuf buf1).readBuf (k.bitmap (fs.desc g))).2.buf = buf2 at hload
  have hfs2 : ((fs.withBuf buf1).readBuf (k.bitmap (fs.desc g))).2 =
      fs.withBuf buf2 := by
    rw [← hbuf2]
    rfl
  have hout : freeBit k fs g i = afterSb k false (fs.withBuf buf2) g i := by
    unfold freeBit
    rw [hdesc]
    dsimp only
    rw [hfs2, readBuf_healthy (fs.withBuf buf1) hhealthy]
    rfl
  obtain ⟨hw, hd, hdev⟩ := writes_healthy (fs.withBuf buf2)
    hhealthy k false g i
  exact ⟨buf2, hout, ⟨h.withBuf buf2, hg, hi, hload, hw, hd⟩, hdev⟩

theorem freeBit_healthy (h : Layout fs) (hhealthy : fs.dev.Healthy) (hg : g < fs.bgdescCount)
    (hi : i < 8 * fs.blockSize) :
    Edit k false g i fs (freeBit k fs g i) ∧
      (freeBit k fs g i).dev.Healthy := by
  obtain ⟨buf', hout, hready, hdev⟩ := freeBit_ready (k := k) h hhealthy hg hi
  rw [hout]
  exact ⟨hready.edit.of_withBuf, hdev⟩

end Outcomes

end Ext2
end Homunculos
