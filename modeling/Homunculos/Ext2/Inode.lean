import Homunculos.Ext2.AllocRuns

/-!
# Inodes on the device

`struct ext2_inode` is a packed record of 128 bytes; `ext2_read_inode` and
`ext2_write_inode` copy it from and to the inode table of its group.
-/

namespace Homunculos
namespace Ext2

open Bytes Block

def Ext2Bgdesc.inodeTable (d : Ext2Bgdesc) : Nat := u32 d.bytes 8
def Ext2Sb.inodeSize (sb : Ext2Sb) : Nat := u16 sb.bytes 88

/-- `struct ext2_inode`, 128 bytes. -/
@[ext]
structure Ext2Inode where
  bytes : Nat → BitVec 8
  tail : ∀ q, 128 ≤ q → bytes q = 0#8

namespace Ext2Inode

def mode (raw : Ext2Inode) : Nat := u16 raw.bytes 0
def size (raw : Ext2Inode) : Nat := u32 raw.bytes 4
def links (raw : Ext2Inode) : Nat := u16 raw.bytes 26
def blocks (raw : Ext2Inode) : Nat := u32 raw.bytes 28

/-- `block[i]` -/
def block (raw : Ext2Inode) (i : Nat) : Nat :=
  u32 raw.bytes (40 + 4 * i)

/-- The record at offset `o`. -/
def ofBytes (m : Nat → BitVec 8) (o : Nat) : Ext2Inode where
  bytes := slice m o 128
  tail := by
    intro q hq
    unfold slice
    rw [if_neg (by omega)]

/-- A field of four bytes is written. -/
def put32 (raw : Ext2Inode) (o v : Nat) (ho : o + 4 ≤ 128) : Ext2Inode where
  bytes := putU32 raw.bytes o v
  tail := by
    intro q hq
    rw [putU32_of_apart (by omega), raw.tail q hq]

/-- A field of two bytes is written. -/
def put16 (raw : Ext2Inode) (o v : Nat) (ho : o + 2 ≤ 128) : Ext2Inode where
  bytes := putU16 raw.bytes o v
  tail := by
    intro q hq
    rw [putU16_of_ne (by omega) (by omega), raw.tail q hq]

def setMode (raw : Ext2Inode) (v : Nat) : Ext2Inode := raw.put16 0 v (by decide)
def setSize (raw : Ext2Inode) (v : Nat) : Ext2Inode := raw.put32 4 v (by decide)
def setLinks (raw : Ext2Inode) (v : Nat) : Ext2Inode := raw.put16 26 v (by decide)
def setBlocks (raw : Ext2Inode) (v : Nat) : Ext2Inode := raw.put32 28 v (by decide)

/-- For literal indices of `i_block` -/
instance : NeZero 15 :=
  ⟨by decide⟩

def setBlock (raw : Ext2Inode) (i : Fin 15) (v : Nat) : Ext2Inode :=
  raw.put32 (40 + 4 * i.val) v (by omega)

/-- `memset (&raw, 0, sizeof (raw))` -/
def zero : Ext2Inode where
  bytes := fun _ => 0#8
  tail := fun _ _ => rfl

section Fields

variable (raw : Ext2Inode) (i : Fin 15) (j v : Nat)

@[simp]
theorem size_setSize :
    (raw.setSize v).size = v % 2 ^ 32 :=
  u32_putU32_self _ _ _

@[simp]
theorem size_setBlocks :
    (raw.setBlocks v).size = raw.size :=
  u32_putU32_of_apart (by omega)

@[simp]
theorem size_setBlock :
    (raw.setBlock i v).size = raw.size :=
  u32_putU32_of_apart (by omega)

@[simp]
theorem block_setSize :
    (raw.setSize v).block j = raw.block j :=
  u32_putU32_of_apart (by omega)

@[simp]
theorem block_setBlocks :
    (raw.setBlocks v).block j = raw.block j :=
  u32_putU32_of_apart (by omega)

theorem block_setBlock :
    (raw.setBlock i v).block j = if j = i.val then v % 2 ^ 32 else raw.block j := by
  split
  · rename_i h
    subst h
    exact u32_putU32_self _ _ _
  · exact u32_putU32_of_apart (by omega)

@[simp]
theorem mode_setSize :
    (raw.setSize v).mode = raw.mode :=
  u16_congr (fun _ _ => putU32_of_apart (by omega))

@[simp]
theorem mode_setBlocks :
    (raw.setBlocks v).mode = raw.mode :=
  u16_congr (fun _ _ => putU32_of_apart (by omega))

@[simp]
theorem links_setSize :
    (raw.setSize v).links = raw.links :=
  u16_congr (fun _ _ => putU32_of_apart (by omega))

@[simp]
theorem links_setBlocks :
    (raw.setBlocks v).links = raw.links :=
  u16_congr (fun _ _ => putU32_of_apart (by omega))

@[simp]
theorem size_setLinks :
    (raw.setLinks v).size = raw.size :=
  u32_putU16_of_apart (by omega)

@[simp]
theorem block_setMode :
    (raw.setMode v).block j = raw.block j :=
  u32_putU16_of_apart (by omega)

@[simp]
theorem block_setLinks :
    (raw.setLinks v).block j = raw.block j :=
  u32_putU16_of_apart (by omega)

@[simp]
theorem mode_setMode :
    (raw.setMode v).mode = v % 65536 :=
  u16_putU16_self _ _ _

@[simp]
theorem mode_setLinks :
    (raw.setLinks v).mode = raw.mode :=
  u16_putU16_of_apart (by omega)

@[simp]
theorem links_setLinks :
    (raw.setLinks v).links = v % 65536 :=
  u16_putU16_self _ _ _

@[simp]
theorem mode_setBlock :
    (raw.setBlock i v).mode = raw.mode :=
  u16_congr (fun _ _ => putU32_of_apart (by omega))

@[simp]
theorem links_setBlock :
    (raw.setBlock i v).links = raw.links :=
  u16_congr (fun _ _ => putU32_of_apart (by omega))

theorem size_lt :
    raw.size < 2 ^ 32 :=
  u32_lt _ _

end Fields

end Ext2Inode

/-- The size of an inode in the table. -/
def Ext2Fs.inodeSize (fs : Ext2Fs) : Nat :=
  if fs.sb.inodeSize = 0 then 128 else fs.sb.inodeSize

/-- The group of an inode. -/
def Ext2Fs.inodeGroup (fs : Ext2Fs) (n : Nat) : Nat :=
  (n - 1) / fs.sb.inodesPerGroup

/-- The offset of an inode in the table of its group, in 32 bits. -/
def Ext2Fs.inodeOffset (fs : Ext2Fs) (n : Nat) : Nat :=
  (n - 1) % fs.sb.inodesPerGroup * fs.inodeSize % 2 ^ 32

/-- The block of an inode, from the table of its group. -/
def Ext2Fs.inodeBlockIn (fs : Ext2Fs) (table n : Nat) : Nat :=
  (table + fs.inodeOffset n / fs.blockSize) % 2 ^ 32

def ext2ReadInode (fs : Ext2Fs) (inodeNo : Nat) : Option Ext2Inode × Ext2Fs :=
  if inodeNo = 0 ∨ fs.sb.inodesCount < inodeNo then
    (none, fs)
  else
    match ext2ReadBgdesc fs (fs.inodeGroup inodeNo) with
    | (none, fs₁) => (none, fs₁)
    | (some bgd, fs₁) =>
      let r := fs₁.readBuf (fs.inodeBlockIn bgd.inodeTable inodeNo)
      if r.1 then
        (some (.ofBytes r.2.buf (fs.inodeOffset inodeNo % fs.blockSize)), r.2)
      else
        (none, r.2)

def ext2WriteInode (fs : Ext2Fs) (inodeNo : Nat) (inode : Ext2Inode) : Bool × Ext2Fs :=
  if inodeNo = 0 ∨ fs.sb.inodesCount < inodeNo then
    (false, fs)
  else
    match ext2ReadBgdesc fs (fs.inodeGroup inodeNo) with
    | (none, fs₁) => (false, fs₁)
    | (some bgd, fs₁) =>
      let nr := fs.inodeBlockIn bgd.inodeTable inodeNo
      let r := fs₁.readBuf nr
      if r.1 then
        (r.2.withBuf (copy r.2.buf (fs.inodeOffset inodeNo % fs.blockSize)
          inode.bytes 128)).writeBuf nr
      else
        (false, r.2)

/-- The block of an inode on the device. -/
def Ext2Fs.inodeBlock (fs : Ext2Fs) (n : Nat) : Nat :=
  fs.inodeBlockIn (fs.desc (fs.inodeGroup n)).inodeTable n

/-- The place of an inode in its block. -/
def Ext2Fs.inodePos (fs : Ext2Fs) (n : Nat) : Nat :=
  fs.inodeOffset n % fs.blockSize

/-- An inode on the device. -/
def Ext2Fs.inodeOf (fs : Ext2Fs) (n : Nat) : Ext2Inode :=
  .ofBytes (fs.diskByte (fs.inodeBlock n)) (fs.inodePos n)

/-- The inode numbers that exist. -/
def Ext2Fs.IsInode (fs : Ext2Fs) (n : Nat) : Prop :=
  1 ≤ n ∧ n ≤ fs.sb.inodesCount

section Access

variable {fs : Ext2Fs} {n : Nat}

theorem ofBytes_congr
    {m m' : Nat → BitVec 8} {o o' : Nat} (h : ∀ q, q < 128 → m (o + q) = m' (o' + q)) :
    Ext2Inode.ofBytes m o = Ext2Inode.ofBytes m' o' :=
  Ext2Inode.ext (slice_congr h)

theorem ofBytes_copy (m : Nat → BitVec 8) (o : Nat) (raw : Ext2Inode) :
    Ext2Inode.ofBytes (copy m o raw.bytes 128) o = raw := by
  apply Ext2Inode.ext
  funext q
  change slice _ o 128 q = raw.bytes q
  by_cases hq : q < 128
  · rw [slice_of_lt hq, copy_inside (by omega) (by omega), Nat.add_sub_cancel_left]
  · rw [raw.tail q (by omega)]
    unfold slice
    rw [if_neg hq]

theorem readBgdesc_desc (h : BlockSizeOk fs) (hhealthy : fs.dev.Healthy) (g : Nat) :
    ∃ buf, ext2ReadBgdesc fs g = (some (fs.desc g), fs.withBuf buf) := by
  have hread := readBuf_healthy fs hhealthy (fs.descBlock g)
  cases hout : ext2ReadBgdesc fs g with
  | mk found fs₁ =>
    cases found with
    | none =>
      obtain ⟨hfail, -⟩ := readBgdesc_none hout
      rw [hread] at hfail
      cases hfail
    | some bgd =>
      obtain ⟨rfl, rfl⟩ := readBgdesc_some h hout
      exact ⟨_, rfl⟩

theorem Ext2Fs.IsInode.group_lt (hn : fs.IsInode n) (hgeo : Geometry .inode fs) :
    fs.inodeGroup n < fs.bgdescCount := by
  have hlt : n - 1 < Kind.inode.count fs.sb := by
    change n - 1 < fs.sb.inodesCount
    have h1 := hn.1
    have h2 := hn.2
    omega
  exact (hgeo.bit_of_index hlt).1

theorem not_isInode (hn : fs.IsInode n) :
    ¬ (n = 0 ∨ fs.sb.inodesCount < n) := by
  have h1 := hn.1
  have h2 := hn.2
  omega

theorem readInode_of_not_isInode (hn : ¬ fs.IsInode n) :
    ext2ReadInode fs n = (none, fs) := by
  have hbad : n = 0 ∨ fs.sb.inodesCount < n := by
    unfold Ext2Fs.IsInode at hn
    omega
  rw [ext2ReadInode, if_pos hbad]

/-- `ext2_read_inode` without device errors. -/
theorem readInode_spec (h : BlockSizeOk fs) (hhealthy : fs.dev.Healthy) (hn : fs.IsInode n)
    (hpos : fs.inodePos n + 128 ≤ fs.blockSize) :
    ∃ buf, ext2ReadInode fs n = (some (fs.inodeOf n), fs.withBuf buf) := by
  obtain ⟨buf1, hdesc⟩ := readBgdesc_desc h hhealthy (fs.inodeGroup n)
  have hread := readBuf_healthy (fs.withBuf buf1) hhealthy (fs.inodeBlock n)
  refine ⟨((fs.withBuf buf1).readBuf (fs.inodeBlock n)).2.buf, ?_⟩
  unfold ext2ReadInode
  rw [if_neg (not_isInode hn), hdesc]
  change (if ((fs.withBuf buf1).readBuf (fs.inodeBlock n)).1 = true then _ else _) = _
  rw [if_pos hread]
  have hraw : Ext2Inode.ofBytes ((fs.withBuf buf1).readBuf (fs.inodeBlock n)).2.buf
      (fs.inodePos n) = fs.inodeOf n := by
    apply ofBytes_congr
    intro q hq
    exact readBuf_done (fs.withBuf buf1) h hread
      (show fs.inodePos n + q < fs.blockSize by omega)
  exact Prod.ext (congrArg some hraw) rfl

/-- `ext2_write_inode` without device errors. -/
theorem writeInode_spec (h : BlockSizeOk fs) (hhealthy : fs.dev.Healthy) (hn : fs.IsInode n)
    (raw : Ext2Inode) :
    (ext2WriteInode fs n raw).1 = true ∧
      PutBlock (fs.inodeBlock n)
        (copy (fs.diskByte (fs.inodeBlock n)) (fs.inodePos n) raw.bytes 128)
        fs (ext2WriteInode fs n raw).2 := by
  obtain ⟨buf1, hdesc⟩ := readBgdesc_desc h hhealthy (fs.inodeGroup n)
  obtain ⟨hread, hok, hput⟩ := rewrite_put (fs.withBuf buf1) h hhealthy (fs.inodeBlock n)
    (fun m => copy m (fs.inodePos n) raw.bytes 128) (fun _ _ _ hq => copy_congr hq)
  have hout : ext2WriteInode fs n raw =
      (((fs.withBuf buf1).readBuf (fs.inodeBlock n)).2.withBuf
        (copy ((fs.withBuf buf1).readBuf (fs.inodeBlock n)).2.buf (fs.inodePos n)
          raw.bytes 128)).writeBuf (fs.inodeBlock n) := by
    unfold ext2WriteInode
    rw [if_neg (not_isInode hn), hdesc]
    change (if ((fs.withBuf buf1).readBuf (fs.inodeBlock n)).1 = true then _ else _) = _
    rw [if_pos hread]
    rfl
  rw [hout]
  exact ⟨hok, hput.sb, hput.blockSize, hput.bgdescBlock, hput.bgdescCount, hput.healthy,
    hput.done, hput.frame⟩

end Access

/-- The number of blocks of an inode table. -/
def Ext2Fs.tableBlocks (fs : Ext2Fs) : Nat :=
  (fs.sb.inodesPerGroup * fs.inodeSize + fs.blockSize - 1) / fs.blockSize

/-- A block of the inode table of a group. -/
def Ext2Fs.tableBlock (fs : Ext2Fs) (g j : Nat) : Nat :=
  ((fs.desc g).inodeTable + j) % 2 ^ 32

/-- Whole inodes fill the blocks of the tables, and on the device the tables share no block
with each other or with the descriptors. -/
structure InodeTables (fs : Ext2Fs) : Prop where
  blockSize : BlockSizeOk fs
  size_ge : 128 ≤ fs.inodeSize
  size_dvd : fs.inodeSize ∣ fs.blockSize
  perGroup_pos : 0 < fs.sb.inodesPerGroup
  disjoint : ∀ n m j i, fs.IsInode n → fs.IsInode m → fs.inodeGroup m ≠ fs.inodeGroup n →
    j < fs.tableBlocks → i < fs.tableBlocks →
    fs.blockLba (fs.tableBlock (fs.inodeGroup m) i) ≠
      fs.blockLba (fs.tableBlock (fs.inodeGroup n) j)
  descs : ∀ n m j, fs.IsInode n → fs.IsInode m → j < fs.tableBlocks →
    fs.blockLba (fs.descBlock (fs.inodeGroup m)) ≠
      fs.blockLba (fs.tableBlock (fs.inodeGroup n) j)

/-- Every inode is in the first 2 ^ 32 bytes of its table. -/
def Ext2Fs.OffsetsFit (fs : Ext2Fs) : Prop :=
  ∀ n, fs.IsInode n → (n - 1) % fs.sb.inodesPerGroup * fs.inodeSize < 2 ^ 32

section Tables

variable {fs fs' : Ext2Fs} {n m : Nat}

theorem BlockSizeOk.pos (h : BlockSizeOk fs) :
    0 < fs.blockSize := by
  rcases h with hs | hs | hs
  · omega
  · omega
  · omega

theorem InodeTables.block_lt (h : InodeTables fs) (n : Nat) :
    fs.inodeOffset n / fs.blockSize < fs.tableBlocks := by
  have hpos := h.blockSize.pos
  have hsize := h.size_ge
  have hbelow := Nat.mul_le_mul_right fs.inodeSize (Nat.mod_lt (n - 1) h.perGroup_pos)
  rw [Nat.succ_mul] at hbelow
  have hle : fs.inodeOffset n ≤ (n - 1) % fs.sb.inodesPerGroup * fs.inodeSize :=
    Nat.mod_le _ _
  unfold Ext2Fs.tableBlocks
  rw [Nat.div_lt_iff_lt_mul hpos]
  have hup := Nat.lt_div_mul_add (a := fs.sb.inodesPerGroup * fs.inodeSize + fs.blockSize - 1) hpos
  omega

theorem InodeTables.pos_fits (h : InodeTables fs) (n : Nat) :
    fs.inodePos n + 128 ≤ fs.blockSize := by
  have hsize := h.size_ge
  obtain ⟨c, hc⟩ := h.size_dvd
  have hlt : fs.inodePos n < fs.blockSize := Nat.mod_lt _ h.blockSize.pos
  have hwrap : fs.blockSize ∣ 2 ^ 32 := by
    rcases h.blockSize with hs | hs | hs
    · rw [hs]
      decide
    · rw [hs]
      decide
    · rw [hs]
      decide
  obtain ⟨d, hd⟩ : fs.inodeSize ∣ fs.inodePos n := by
    unfold Ext2Fs.inodePos Ext2Fs.inodeOffset
    rw [Nat.mod_mod_of_dvd _ hwrap]
    exact (Nat.dvd_mod_iff h.size_dvd).mpr (Dvd.intro_left _ rfl)
  rw [hc, hd] at hlt
  have hdc : d + 1 ≤ c := Nat.lt_of_mul_lt_mul_left hlt
  have hmul : fs.inodeSize * (d + 1) ≤ fs.inodeSize * c := Nat.mul_le_mul_left _ hdc
  rw [Nat.mul_succ] at hmul
  omega

theorem InodeTables.offset_apart (h : InodeTables fs) (hfits : fs.OffsetsFit) (hn : fs.IsInode n)
    (hm : fs.IsInode m) (hne : m ≠ n) (hgroup : fs.inodeGroup m = fs.inodeGroup n) :
    fs.inodeOffset m + 128 ≤ fs.inodeOffset n ∨ fs.inodeOffset n + 128 ≤ fs.inodeOffset m := by
  have hindex : (m - 1) % fs.sb.inodesPerGroup ≠ (n - 1) % fs.sb.inodesPerGroup := by
    intro heq
    have hm' := Nat.div_add_mod (m - 1) fs.sb.inodesPerGroup
    have hn' := Nat.div_add_mod (n - 1) fs.sb.inodesPerGroup
    unfold Ext2Fs.inodeGroup at hgroup
    rw [hgroup] at hm'
    have h1 := hn.1
    have h2 := hm.1
    omega
  have hsize := h.size_ge
  unfold Ext2Fs.inodeOffset
  rw [Nat.mod_eq_of_lt (hfits n hn), Nat.mod_eq_of_lt (hfits m hm)]
  rcases Nat.lt_or_gt_of_ne hindex with hlt | hgt
  · left
    have hmul := Nat.mul_le_mul_right fs.inodeSize hlt
    rw [Nat.succ_mul] at hmul
    omega
  · right
    have hmul := Nat.mul_le_mul_right fs.inodeSize hgt
    rw [Nat.succ_mul] at hmul
    omega

theorem BlockSizeOk.tableBlock_inj (h : BlockSizeOk fs) {g o o' : Nat} (ho : o < 2 ^ 32)
    (ho' : o' < 2 ^ 32)
    (hlba : fs.blockLba (fs.tableBlock g (o / fs.blockSize)) =
      fs.blockLba (fs.tableBlock g (o' / fs.blockSize))) :
    o / fs.blockSize = o' / fs.blockSize := by
  unfold Ext2Fs.blockLba Ext2Fs.tableBlock at hlba
  rcases h with hs | hs | hs
  · rw [hs] at hlba ⊢
    omega
  · rw [hs] at hlba ⊢
    omega
  · rw [hs] at hlba ⊢
    omega

theorem InodeTables.apart (h : InodeTables fs) (hfits : fs.OffsetsFit) (hn : fs.IsInode n)
    (hm : fs.IsInode m) (hne : m ≠ n) :
    fs.blockLba (fs.inodeBlock m) ≠ fs.blockLba (fs.inodeBlock n) ∨
      fs.inodeBlock m = fs.inodeBlock n ∧
        (fs.inodePos m + 128 ≤ fs.inodePos n ∨ fs.inodePos n + 128 ≤ fs.inodePos m) := by
  by_cases hlba : fs.blockLba (fs.inodeBlock m) = fs.blockLba (fs.inodeBlock n)
  · right
    have hgroup : fs.inodeGroup m = fs.inodeGroup n := by
      by_contra hgroup
      exact h.disjoint n m _ _ hn hm hgroup (h.block_lt n) (h.block_lt m) hlba
    have hoffset := h.offset_apart hfits hn hm hne hgroup
    unfold Ext2Fs.inodeBlock at hlba ⊢
    rw [hgroup] at hlba ⊢
    have hdiv : fs.inodeOffset m / fs.blockSize = fs.inodeOffset n / fs.blockSize :=
      h.blockSize.tableBlock_inj (Nat.mod_lt _ (by decide)) (Nat.mod_lt _ (by decide)) hlba
    have hm' := Nat.div_add_mod (fs.inodeOffset m) fs.blockSize
    have hn' := Nat.div_add_mod (fs.inodeOffset n) fs.blockSize
    rw [hdiv] at hm'
    unfold Ext2Fs.inodePos Ext2Fs.inodeBlockIn
    exact ⟨by rw [hdiv], by omega⟩
  · exact Or.inl hlba

theorem PutBlock.desc {nr g : Nat} {content : Nat → BitVec 8} (h : PutBlock nr content fs fs')
    (hsize : BlockSizeOk fs) (hne : fs.blockLba (fs.descBlock g) ≠ fs.blockLba nr) :
    fs'.desc g = fs.desc g := by
  have hfits := hsize.descPos_fits g
  unfold Ext2Fs.desc Ext2Fs.descBlock Ext2Fs.descPos
  rw [h.blockSize, h.bgdescBlock]
  congr 1
  apply slice_congr
  intro q hq
  exact h.frame _ _ hne (by unfold Ext2Fs.descPos at hfits; omega)

end Tables

end Ext2
end Homunculos
