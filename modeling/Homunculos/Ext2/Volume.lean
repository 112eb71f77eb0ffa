import Homunculos.Ext2.Bmap

/-!
# A volume and what it shows

The skeleton of a file system are its metadata blocks (superblock, descriptors,
bitmaps and inode tables), in different places, whatever the bitmaps and counts
say.  In a volume the counts agree with the bitmaps and the metadata blocks are
marked used.  What it is for is a `View`: which blocks and inodes are in use, the
inodes, and the bytes of the data blocks.  Each low-level call changes one part
of the view and leaves the rest.
-/

namespace Homunculos
namespace Ext2

open Bytes Block Bitmap GroupAlloc Function

/-- A metadata block. -/
inductive Place where
  | area (a : Area)
  | table (g j : Nat)
deriving DecidableEq

def Place.blockNo (fs : Ext2Fs) : Place → Nat
  | .area a => a.blockNo fs
  | .table g j => ((fs.desc g).inodeTable + j) % 2 ^ 32

def Place.Valid (fs : Ext2Fs) : Place → Prop
  | .area a => a.Valid fs
  | .table g j => g < fs.bgdescCount ∧ j < fs.tableBlocks

/-- The metadata blocks of a file system are different blocks of the device. -/
structure Skeleton (fs : Ext2Fs) : Prop where
  layout : Layout fs
  geometry : ∀ k, Geometry k fs
  healthy : fs.dev.Healthy
  inodeSize_ge : 128 ≤ fs.inodeSize
  inodeSize_dvd : fs.inodeSize ∣ fs.blockSize
  table_fits : fs.sb.inodesPerGroup * fs.inodeSize < 2 ^ 32
  device_fits : fs.sb.blocksCount * (fs.blockSize / 512) ≤ 2 ^ 32
  place_inj : ∀ p q : Place, p.Valid fs → q.Valid fs →
    p.blockNo fs = q.blockNo fs → p = q
  place_lt : ∀ p : Place, p.Valid fs → p.blockNo fs < fs.sb.blocksCount

/-- A file system in order with its metadata blocks in use. -/
structure Volume (fs : Ext2Fs) : Prop extends Skeleton fs where
  consistent : Consistent fs
  place_used : ∀ p : Place, p.Valid fs → p.blockNo fs ∈ usedNumbers .block fs
  zero_used : 0 ∈ usedNumbers .block fs

theorem Skeleton.inOrder {fs : Ext2Fs} (h : Skeleton fs) (hcons : Consistent fs) :
    InOrder fs :=
  ⟨h.layout, h.geometry, h.healthy, hcons⟩

theorem Volume.inOrder {fs : Ext2Fs} (h : Volume fs) :
    InOrder fs :=
  h.toSkeleton.inOrder h.consistent

/-- A block that is no metadata block. -/
def Ext2Fs.DataBlock (fs : Ext2Fs) (b : Nat) : Prop :=
  b < fs.sb.blocksCount ∧ ∀ p : Place, p.Valid fs → p.blockNo fs ≠ b

/-- What a volume is for. -/
structure View where
  blockSize : Nat
  inodes : Nat
  dataBlocks : Set Nat
  used : Kind → Set Nat
  inode : Nat → Ext2Inode
  data : Nat → Nat → BitVec 8

def Ext2Fs.view (fs : Ext2Fs) : View where
  blockSize := fs.blockSize
  inodes := fs.sb.inodesCount
  dataBlocks := { b | fs.DataBlock b }
  used := fun k => usedNumbers k fs
  inode := fs.inodeOf
  data := fs.diskByte

/-- The volume shows this view. -/
structure Shows (fs : Ext2Fs) (v : View) : Prop where
  volume : Volume fs
  blockSize : v.blockSize = fs.blockSize
  inodes : v.inodes = fs.sb.inodesCount
  dataBlocks : ∀ b, b ∈ v.dataBlocks ↔ fs.DataBlock b
  used : ∀ k, v.used k = usedNumbers k fs
  inode : ∀ n, fs.IsInode n → v.inode n = fs.inodeOf n
  data : ∀ b q, fs.DataBlock b → q < fs.blockSize → v.data b q = fs.diskByte b q

namespace View

def withUsed (v : View) (k : Kind) (s : Set Nat) : View :=
  { v with used := update v.used k s }

def withInode (v : View) (n : Nat) (raw : Ext2Inode) : View :=
  { v with inode := update v.inode n raw }

def withData (v : View) (b : Nat) (content : Nat → BitVec 8) : View :=
  { v with data := update v.data b content }

@[simp]
theorem used_withUsed (v : View) (k : Kind) (s : Set Nat) :
    (v.withUsed k s).used k = s := by
  simp [withUsed]

theorem used_withUsed_of_ne (v : View) {k k' : Kind} (hne : k' ≠ k) (s : Set Nat) :
    (v.withUsed k s).used k' = v.used k' := by
  simp [withUsed, hne]

@[simp]
theorem inode_withInode (v : View) (n : Nat) (raw : Ext2Inode) :
    (v.withInode n raw).inode n = raw := by
  simp [withInode]

theorem inode_withInode_of_ne (v : View) {n m : Nat} (hne : m ≠ n) (raw : Ext2Inode) :
    (v.withInode n raw).inode m = v.inode m := by
  simp [withInode, hne]

@[simp]
theorem withInode_self (v : View) (n : Nat) :
    v.withInode n (v.inode n) = v := by
  simp [withInode]

@[simp]
theorem data_withData (v : View) (b : Nat) (content : Nat → BitVec 8) :
    (v.withData b content).data b = content := by
  simp [withData]

theorem data_withData_of_ne (v : View) {b b' : Nat} (hne : b' ≠ b) (content : Nat → BitVec 8) :
    (v.withData b content).data b' = v.data b' := by
  simp [withData, hne]

end View

theorem Volume.shows {fs : Ext2Fs} (h : Volume fs) :
    Shows fs fs.view :=
  ⟨h, rfl, rfl, fun _ => Iff.rfl, fun _ => rfl, fun _ _ => rfl, fun _ _ _ _ => rfl⟩

section Places

variable {fs : Ext2Fs} {b : Nat} {p q : Place}

theorem used_lt (hgeo : Geometry .block fs) {n : Nat} (hn : n ∈ usedNumbers .block fs) :
    n < fs.sb.blocksCount := by
  obtain ⟨g, i, hg, hi, rfl, -⟩ := hn
  exact hgeo.index_lt hg hi

theorem Volume.used_lt (h : Volume fs) {n : Nat} (hn : n ∈ usedNumbers .block fs) :
    n < fs.sb.blocksCount :=
  Ext2.used_lt (h.geometry .block) hn

theorem Volume.data_of_unused
    (h : Volume fs) (hb : b < fs.sb.blocksCount) (hfree : b ∉ usedNumbers .block fs) :
    fs.DataBlock b := by
  refine ⟨hb, ?_⟩
  rintro p hp rfl
  exact hfree (h.place_used p hp)

variable (h : Skeleton fs)
include h

theorem Skeleton.lba_inj {b b' : Nat} (hb : b < fs.sb.blocksCount) (hb' : b' < fs.sb.blocksCount)
    (hlba : fs.blockLba b = fs.blockLba b') :
    b = b' := by
  have hsectors : 0 < fs.blockSize / 512 := by
    rcases h.layout.blockSize with hs | hs | hs
    · omega
    · omega
    · omega
  have hlt : ∀ c, c < fs.sb.blocksCount → c * (fs.blockSize / 512) < 2 ^ 32 := by
    intro c hc
    have hmul : c * (fs.blockSize / 512) < fs.sb.blocksCount * (fs.blockSize / 512) :=
      Nat.mul_lt_mul_of_pos_right hc hsectors
    exact hmul.trans_le h.device_fits
  unfold Ext2Fs.blockLba at hlba
  rw [Nat.mod_eq_of_lt (hlt b hb), Nat.mod_eq_of_lt (hlt b' hb')] at hlba
  exact Nat.eq_of_mul_eq_mul_right hsectors hlba

theorem Skeleton.place_lba_ne (hp : p.Valid fs) (hq : q.Valid fs) (hne : p ≠ q) :
    fs.blockLba (p.blockNo fs) ≠ fs.blockLba (q.blockNo fs) := by
  intro heq
  exact hne (h.place_inj p q hp hq (h.lba_inj (h.place_lt p hp) (h.place_lt q hq) heq))

theorem Skeleton.data_lba_ne (hb : fs.DataBlock b) (hp : p.Valid fs) :
    fs.blockLba b ≠ fs.blockLba (p.blockNo fs) := by
  intro heq
  exact hb.2 p hp (h.lba_inj hb.1 (h.place_lt p hp) heq).symm

theorem Skeleton.offsetsFit :
    fs.OffsetsFit := by
  intro n hn
  have hindex := Nat.mod_lt (n - 1) (h.geometry .inode).pos
  exact lt_of_le_of_lt (Nat.mul_le_mul_right _ hindex.le) h.table_fits

theorem Skeleton.inodeTables :
    InodeTables fs := by
  have hgeo := h.geometry .inode
  refine ⟨h.layout.blockSize, h.inodeSize_ge, h.inodeSize_dvd, hgeo.pos, ?_, ?_⟩
  · intro n m j i hn hm hne hj hi
    exact h.place_lba_ne (p := .table _ i) (q := .table _ j) ⟨hm.group_lt hgeo, hi⟩
      ⟨hn.group_lt hgeo, hj⟩ (by simp [hne])
  · intro n m j hn hm hj
    rw [h.layout.descBlock_eq (hm.group_lt hgeo)]
    exact h.place_lba_ne (p := .area (.descs _)) (q := .table _ j) ⟨_, hm.group_lt hgeo, rfl⟩
      ⟨hn.group_lt hgeo, hj⟩ (by simp)

theorem Skeleton.inodePos_fits (n : Nat) :
    fs.inodePos n + 128 ≤ fs.blockSize :=
  h.inodeTables.pos_fits n

theorem Skeleton.inodePlace {n : Nat} (hn : fs.IsInode n) :
    Place.Valid fs (.table (fs.inodeGroup n) (fs.inodeOffset n / fs.blockSize)) ∧
      fs.inodeBlock n =
        Place.blockNo fs (.table (fs.inodeGroup n) (fs.inodeOffset n / fs.blockSize)) :=
  ⟨⟨hn.group_lt (h.geometry .inode), h.inodeTables.block_lt n⟩, rfl⟩

end Places

section Shape

variable {fs fs' : Ext2Fs}

/-- The numbers and the places of the metadata blocks are the same. -/
structure SameShape (fs fs' : Ext2Fs) : Prop where
  blockSize : fs'.blockSize = fs.blockSize
  bgdescBlock : fs'.bgdescBlock = fs.bgdescBlock
  bgdescCount : fs'.bgdescCount = fs.bgdescCount
  perGroup : ∀ k : Kind, k.perGroup fs'.sb = k.perGroup fs.sb
  count : ∀ k : Kind, k.count fs'.sb = k.count fs.sb
  inodeSize : fs'.sb.inodeSize = fs.sb.inodeSize
  bitmapNo : ∀ (k : Kind) (g : Nat), g < fs.bgdescCount →
    k.bitmap (fs'.desc g) = k.bitmap (fs.desc g)
  tableNo : ∀ g, g < fs.bgdescCount → (fs'.desc g).inodeTable = (fs.desc g).inodeTable

variable (h : SameShape fs fs')
include h

theorem SameShape.lba (nr : Nat) :
    fs'.blockLba nr = fs.blockLba nr := by
  unfold Ext2Fs.blockLba
  rw [h.blockSize]

theorem SameShape.inodeSize_eq :
    fs'.inodeSize = fs.inodeSize := by
  unfold Ext2Fs.inodeSize
  rw [h.inodeSize]

theorem SameShape.inodesPerGroup :
    fs'.sb.inodesPerGroup = fs.sb.inodesPerGroup :=
  h.perGroup .inode

theorem SameShape.inodesCount :
    fs'.sb.inodesCount = fs.sb.inodesCount :=
  h.count .inode

theorem SameShape.blocksCount :
    fs'.sb.blocksCount = fs.sb.blocksCount :=
  h.count .block

theorem SameShape.tableBlocks :
    fs'.tableBlocks = fs.tableBlocks := by
  unfold Ext2Fs.tableBlocks
  rw [h.inodesPerGroup, h.inodeSize_eq, h.blockSize]

theorem SameShape.valid (p : Place) :
    p.Valid fs' ↔ p.Valid fs := by
  cases p with
  | area a =>
    cases a with
    | superblock => exact Iff.rfl
    | descs j =>
      change (∃ g, g < fs'.bgdescCount ∧ j = g * 32 / fs'.blockSize) ↔ _
      rw [h.bgdescCount, h.blockSize]
      exact Iff.rfl
    | bitmap k g =>
      change g < fs'.bgdescCount ↔ _
      rw [h.bgdescCount]
      exact Iff.rfl
  | table g j =>
    change (g < fs'.bgdescCount ∧ j < fs'.tableBlocks) ↔ _
    rw [h.bgdescCount, h.tableBlocks]
    exact Iff.rfl

theorem SameShape.blockNo {p : Place} (hp : p.Valid fs) :
    p.blockNo fs' = p.blockNo fs := by
  cases p with
  | area a =>
    cases a with
    | superblock =>
      change fs'.sbBlock = fs.sbBlock
      unfold Ext2Fs.sbBlock
      rw [h.blockSize]
    | descs j =>
      change (fs'.bgdescBlock + j) % 2 ^ 32 = (fs.bgdescBlock + j) % 2 ^ 32
      rw [h.bgdescBlock]
    | bitmap k g => exact h.bitmapNo k g hp
  | table g j =>
    change ((fs'.desc g).inodeTable + j) % 2 ^ 32 = ((fs.desc g).inodeTable + j) % 2 ^ 32
    rw [h.tableNo g hp.1]

theorem SameShape.dataBlock (b : Nat) :
    fs'.DataBlock b ↔ fs.DataBlock b := by
  unfold Ext2Fs.DataBlock
  rw [h.blocksCount]
  constructor
  · rintro ⟨hlt, hplaces⟩
    refine ⟨hlt, ?_⟩
    intro p hp
    rw [← h.blockNo hp]
    exact hplaces p ((h.valid p).mpr hp)
  · rintro ⟨hlt, hplaces⟩
    refine ⟨hlt, ?_⟩
    intro p hp
    have hp' := (h.valid p).mp hp
    rw [h.blockNo hp']
    exact hplaces p hp'

theorem SameShape.isInode (n : Nat) :
    fs'.IsInode n ↔ fs.IsInode n := by
  unfold Ext2Fs.IsInode
  rw [h.inodesCount]

theorem SameShape.inodePos (n : Nat) :
    fs'.inodePos n = fs.inodePos n := by
  unfold Ext2Fs.inodePos Ext2Fs.inodeOffset
  rw [h.inodesPerGroup, h.inodeSize_eq, h.blockSize]

theorem SameShape.inodeBlock (hgeo : Geometry .inode fs) {n : Nat} (hn : fs.IsInode n) :
    fs'.inodeBlock n = fs.inodeBlock n := by
  have hgroup : fs'.inodeGroup n = fs.inodeGroup n := by
    unfold Ext2Fs.inodeGroup
    rw [h.inodesPerGroup]
  unfold Ext2Fs.inodeBlock Ext2Fs.inodeBlockIn Ext2Fs.inodeOffset
  rw [hgroup, h.tableNo _ (hn.group_lt hgeo), h.inodesPerGroup, h.inodeSize_eq, h.blockSize]

theorem SameShape.layout (hl : Layout fs) :
    Layout fs' := by
  refine ⟨?_, ?_⟩
  · unfold BlockSizeOk
    rw [h.blockSize]
    exact hl.blockSize
  · intro a b ha hb heq
    have ha' := (h.valid (.area a)).mp ha
    have hb' := (h.valid (.area b)).mp hb
    have hano : a.blockNo fs' = a.blockNo fs := h.blockNo (p := .area a) ha'
    have hbno : b.blockNo fs' = b.blockNo fs := h.blockNo (p := .area b) hb'
    rw [h.lba, h.lba, hano, hbno] at heq
    exact hl.distinct a b ha' hb' heq

theorem SameShape.geometry {k : Kind} (hgeo : Geometry k fs) :
    Geometry k fs' := by
  refine ⟨?_, ?_, ?_, ?_⟩
  · rw [h.perGroup]
    exact hgeo.pos
  · rw [h.perGroup, h.blockSize]
    exact hgeo.fits
  · rw [h.perGroup, h.count, h.bgdescCount]
    exact hgeo.lower
  · rw [h.perGroup, h.count, h.bgdescCount]
    exact hgeo.upper

theorem SameShape.skeleton (hs : Skeleton fs) (hhealthy : fs'.dev.Healthy) :
    Skeleton fs' where
  layout := h.layout hs.layout
  geometry := fun k => h.geometry (hs.geometry k)
  healthy := hhealthy
  inodeSize_ge := h.inodeSize_eq ▸ hs.inodeSize_ge
  inodeSize_dvd := by
    rw [h.inodeSize_eq, h.blockSize]
    exact hs.inodeSize_dvd
  table_fits := by
    rw [h.inodesPerGroup, h.inodeSize_eq]
    exact hs.table_fits
  device_fits := by
    rw [h.blocksCount, h.blockSize]
    exact hs.device_fits
  place_inj := by
    intro p q hp hq heq
    have hp' := (h.valid p).mp hp
    have hq' := (h.valid q).mp hq
    rw [h.blockNo hp', h.blockNo hq'] at heq
    exact hs.place_inj p q hp' hq' heq
  place_lt := by
    intro p hp
    have hp' := (h.valid p).mp hp
    rw [h.blockNo hp', h.blocksCount]
    exact hs.place_lt p hp'

theorem SameShape.volume (hv : Volume fs) (hinOrder : InOrder fs')
    (hused : ∀ b, b = 0 ∨ (∃ p : Place, p.Valid fs ∧ p.blockNo fs = b) →
      b ∈ usedNumbers .block fs → b ∈ usedNumbers .block fs') :
    Volume fs' where
  toSkeleton := h.skeleton hv.toSkeleton hinOrder.healthy
  consistent := hinOrder.consistent
  place_used := by
    intro p hp
    have hp' := (h.valid p).mp hp
    rw [h.blockNo hp']
    exact hused _ (Or.inr ⟨p, hp', rfl⟩) (hv.place_used p hp')
  zero_used := hused 0 (Or.inl rfl) hv.zero_used

theorem SameShape.inodeOf (hs : Skeleton fs) {n : Nat} (hn : fs.IsInode n)
    (hsame : ∀ q, fs.inodePos n ≤ q → q < fs.inodePos n + 128 →
      fs'.diskByte (fs.inodeBlock n) q = fs.diskByte (fs.inodeBlock n) q) :
    fs'.inodeOf n = fs.inodeOf n := by
  unfold Ext2Fs.inodeOf
  rw [h.inodePos, h.inodeBlock (hs.geometry .inode) hn]
  apply ofBytes_congr
  intro q hq
  exact hsame _ (by omega) (by omega)

end Shape

/-- Nothing but the bitmaps, the counts, the bytes of data blocks and the inodes `T` differ. -/
structure SameFiles (T : Set Nat) (fs fs' : Ext2Fs) : Prop where
  skeleton : Skeleton fs'
  shape : SameShape fs fs'
  inode : ∀ n, fs.IsInode n → n ∉ T → fs'.inodeOf n = fs.inodeOf n

section SameFiles

variable {T : Set Nat} {fs fs₁ fs' : Ext2Fs}

theorem SameShape.trans (h : SameShape fs fs₁) (h' : SameShape fs₁ fs') :
    SameShape fs fs' where
  blockSize := h'.blockSize.trans h.blockSize
  bgdescBlock := h'.bgdescBlock.trans h.bgdescBlock
  bgdescCount := h'.bgdescCount.trans h.bgdescCount
  perGroup := fun k => (h'.perGroup k).trans (h.perGroup k)
  count := fun k => (h'.count k).trans (h.count k)
  inodeSize := h'.inodeSize.trans h.inodeSize
  bitmapNo := fun k g hg => (h'.bitmapNo k g (h.bgdescCount ▸ hg)).trans (h.bitmapNo k g hg)
  tableNo := fun g hg => (h'.tableNo g (h.bgdescCount ▸ hg)).trans (h.tableNo g hg)

theorem SameFiles.trans (h : SameFiles T fs fs₁) (h' : SameFiles T fs₁ fs') :
    SameFiles T fs fs' := by
  refine ⟨h'.skeleton, h.shape.trans h'.shape, ?_⟩
  intro n hn hT
  rw [h'.inode n ((h.shape.isInode n).mpr hn) hT, h.inode n hn hT]

theorem SameFiles.mono {S : Set Nat} (h : SameFiles S fs fs') (hsub : S ⊆ T) :
    SameFiles T fs fs' :=
  ⟨h.skeleton, h.shape, fun n hn hT => h.inode n hn (fun hS => hT (hsub hS))⟩

theorem SameShape.ptrsPerBlock (h : SameShape fs fs') :
    fs'.ptrsPerBlock = fs.ptrsPerBlock := by
  unfold Ext2Fs.ptrsPerBlock
  rw [h.blockSize]

end SameFiles

section OneBlock

variable {fs fs' : Ext2Fs} {v : View} {nr : Nat} {content : Nat → BitVec 8}

/-- `ext2_buf` does not matter. -/
theorem Skeleton.withBuf (hs : Skeleton fs) (buf : Nat → BitVec 8) :
    SameFiles ∅ fs (fs.withBuf buf) := by
  have hshape : SameShape fs (fs.withBuf buf) :=
    ⟨rfl, rfl, rfl, fun _ => rfl, fun _ => rfl, rfl, fun _ _ _ => rfl, fun _ _ => rfl⟩
  exact ⟨hshape.skeleton hs hs.healthy, hshape, fun _ _ _ => rfl⟩

theorem Shows.withBuf (h : Shows fs v) (buf : Nat → BitVec 8) :
    Shows (fs.withBuf buf) v :=
  ⟨⟨(h.volume.toSkeleton.withBuf buf).skeleton, h.volume.consistent, h.volume.place_used,
    h.volume.zero_used⟩, h.blockSize, h.inodes, h.dataBlocks, h.used, h.inode, h.data⟩

section Put

variable (h : PutBlock nr content fs fs') (hl : Layout fs)
variable (hapart : ∀ a : Area, a.Valid fs → fs.blockLba (a.blockNo fs) ≠ fs.blockLba nr)
include h hl hapart

theorem PutBlock.descs {g : Nat} (hg : g < fs.bgdescCount) :
    fs'.desc g = fs.desc g := by
  apply h.desc hl.blockSize
  rw [hl.descBlock_eq hg]
  exact hapart _ ⟨g, hg, rfl⟩

theorem PutBlock.shape :
    SameShape fs fs' where
  blockSize := h.blockSize
  bgdescBlock := h.bgdescBlock
  bgdescCount := h.bgdescCount
  perGroup := fun k => by rw [h.sb]
  count := fun k => by rw [h.sb]
  inodeSize := by rw [h.sb]
  bitmapNo := fun k g hg => by rw [h.descs hl hapart hg]
  tableNo := fun g hg => by rw [h.descs hl hapart hg]

theorem PutBlock.used (hgeo : ∀ k, Geometry k fs) :
    (∀ k, usedNumbers k fs' = usedNumbers k fs) ∧ (Consistent fs → Consistent fs') := by
  have hshape := h.shape hl hapart
  have hmax : ∀ k, maxBits k fs' = maxBits k fs := by
    intro k
    funext g
    unfold maxBits
    rw [h.bgdescCount, h.sb]
  have hbit : ∀ k g i, g < fs.bgdescCount → i < maxBits k fs g →
      bit k fs' g i = bit k fs g i := by
    intro k g i hg hi
    have hfit : i < 8 * fs.blockSize :=
      lt_of_lt_of_le hi (((hgeo k).maxBits_le hg).trans (hgeo k).fits)
    unfold bit
    rw [hshape.bitmapNo k g hg]
    apply test_congr
    exact h.frame _ _ (hapart (.bitmap k g) hg) (by omega)
  have hfree : ∀ k g, g < fs.bgdescCount →
      (groups k fs').free g = (groups k fs).free g := by
    intro k g hg
    change k.groupFree (fs'.desc g) = k.groupFree (fs.desc g)
    rw [h.descs hl hapart hg]
  refine ⟨?_, ?_⟩
  · intro k
    unfold usedNumbers
    rw [h.bgdescCount, hmax, h.sb]
    exact used_congr (hbit k)
  · intro hcons k
    rw [h.bgdescCount, hmax]
    apply (hcons k).congr (hbit k) (hfree k)
    change k.sbFree fs'.sb = k.sbFree fs.sb
    rw [h.sb]

end Put

theorem Shows.of_shape
    {v' : View} (h : Shows fs v) (hshape : SameShape fs fs') (hinOrder : InOrder fs')
    (hsizes : v'.blockSize = v.blockSize ∧ v'.inodes = v.inodes ∧ v'.dataBlocks = v.dataBlocks)
    (hused : ∀ k, v'.used k = usedNumbers k fs')
    (hkept : ∀ b, b = 0 ∨ (∃ p : Place, p.Valid fs ∧ p.blockNo fs = b) →
      b ∈ usedNumbers .block fs → b ∈ v'.used .block)
    (hinode : ∀ n, fs.IsInode n → v'.inode n = fs'.inodeOf n)
    (hdata : ∀ b q, fs.DataBlock b → q < fs.blockSize → v'.data b q = fs'.diskByte b q) :
    Shows fs' v' := by
  obtain ⟨hbs, hinodes, hblocks⟩ := hsizes
  refine ⟨hshape.volume h.volume hinOrder ?_, ?_, ?_, ?_, hused, ?_, ?_⟩
  · intro b hb hb'
    rw [← hused]
    exact hkept b hb hb'
  · rw [hbs, hshape.blockSize]
    exact h.blockSize
  · rw [hinodes, hshape.inodesCount]
    exact h.inodes
  · intro b
    rw [hblocks, hshape.dataBlock]
    exact h.dataBlocks b
  · exact fun n hn => hinode n ((hshape.isInode n).mp hn)
  · intro b q hb hq
    rw [hshape.blockSize] at hq
    exact hdata b q ((hshape.dataBlock b).mp hb) hq

theorem PutBlock.sameFiles (h : PutBlock nr content fs fs') (hs : Skeleton fs)
    (hnr : fs.DataBlock nr) :
    SameFiles ∅ fs fs' ∧
      ((∀ k, usedNumbers k fs' = usedNumbers k fs) ∧ (Consistent fs → Consistent fs')) ∧
      ∀ b q, fs.DataBlock b → b ≠ nr → q < fs.blockSize → fs'.diskByte b q = fs.diskByte b q := by
  have hapart : ∀ a : Area, a.Valid fs → fs.blockLba (a.blockNo fs) ≠ fs.blockLba nr :=
    fun a ha => (hs.data_lba_ne hnr (p := .area a) ha).symm
  have hshape := h.shape hs.layout hapart
  refine ⟨⟨hshape.skeleton hs h.healthy, hshape, ?_⟩, h.used hs.layout hapart hs.geometry, ?_⟩
  · intro n hn _
    have hfits := hs.inodePos_fits n
    refine hshape.inodeOf hs hn (fun q _ hq => h.frame _ _ ?_ (by omega))
    exact (hs.data_lba_ne hnr (hs.inodePlace hn).1).symm
  · intro b q hb hbn hq
    exact h.frame _ _ (fun heq => hbn (hs.lba_inj hb.1 hnr.1 heq)) hq

theorem Shows.putData
    (h : Shows fs v) (hput : PutBlock nr content fs fs') (hnr : nr ∈ v.dataBlocks) :
    Shows fs' (v.withData nr content) := by
  have hv := h.volume
  have hdata := (h.dataBlocks nr).mp hnr
  obtain ⟨hsame, ⟨hused, hcons⟩, hothers⟩ := hput.sameFiles hv.toSkeleton hdata
  refine h.of_shape hsame.shape (hsame.skeleton.inOrder (hcons hv.consistent)) ⟨rfl, rfl, rfl⟩
    (fun k => (h.used k).trans (hused k).symm) (fun _ _ hb => (h.used .block).symm ▸ hb) ?_ ?_
  · intro n hn
    rw [hsame.inode n hn (Set.notMem_empty n)]
    exact h.inode n hn
  · intro b q hb hq
    change update v.data nr content b q = _
    by_cases hbn : b = nr
    · subst hbn
      rw [update_self, hput.done q hq]
    · rw [update_of_ne hbn, h.data b q hb hq, hothers b q hb hbn hq]

/-- `ext2_read_inode` gives the inode that the volume shows. -/
theorem Shows.readInode (h : Shows fs v) {n : Nat} (hn : fs.IsInode n) :
    ∃ buf, ext2ReadInode fs n = (some (v.inode n), fs.withBuf buf) := by
  have hi := h.volume.inOrder
  rw [h.inode n hn]
  exact readInode_spec hi.layout.blockSize hi.healthy hn (h.volume.inodePos_fits n)

/-- `ext2_write_inode` changes one inode. -/
theorem Skeleton.writeInode (hs : Skeleton fs) {n : Nat} (hn : fs.IsInode n) (raw : Ext2Inode) :
    (ext2WriteInode fs n raw).1 = true ∧ SameFiles {n} fs (ext2WriteInode fs n raw).2 ∧
      (ext2WriteInode fs n raw).2.inodeOf n = raw ∧
      (∀ b q, fs.DataBlock b → q < fs.blockSize →
        (ext2WriteInode fs n raw).2.diskByte b q = fs.diskByte b q) ∧
      (∀ k, usedNumbers k (ext2WriteInode fs n raw).2 = usedNumbers k fs) ∧
      (Consistent fs → Consistent (ext2WriteInode fs n raw).2) := by
  obtain ⟨hok, hput⟩ := writeInode_spec hs.layout.blockSize hs.healthy hn raw
  obtain ⟨hvalid, -⟩ := hs.inodePlace hn
  have hapart : ∀ a : Area, a.Valid fs →
      fs.blockLba (a.blockNo fs) ≠ fs.blockLba (fs.inodeBlock n) :=
    fun a ha => hs.place_lba_ne (p := .area a) ha hvalid (by simp)
  have hshape := hput.shape hs.layout hapart
  have hfits := hs.inodePos_fits n
  refine ⟨hok, ⟨hshape.skeleton hs hput.healthy, hshape, ?_⟩, ?_, ?_,
    hput.used hs.layout hapart hs.geometry⟩
  · intro m hm hmn
    refine hshape.inodeOf hs hm ?_
    -- the other inode is in another block or apart in this one
    intro q hq hq'
    have hfits' := hs.inodePos_fits m
    rcases hs.inodeTables.apart hs.offsetsFit hn hm hmn with hlba | ⟨hblock, hpos⟩
    · exact hput.frame _ _ hlba (by omega)
    · rw [hblock, hput.done q (by omega), copy_outside (by omega)]
  · unfold Ext2Fs.inodeOf
    rw [hshape.inodePos, hshape.inodeBlock (hs.geometry .inode) hn]
    refine Eq.trans (ofBytes_congr ?_)
      (ofBytes_copy (fs.diskByte (fs.inodeBlock n)) (fs.inodePos n) raw)
    exact fun q hq => hput.done _ (by omega)
  · intro b q hb hq
    exact hput.frame _ _ (hs.data_lba_ne hb hvalid) hq

theorem Shows.writeInode (h : Shows fs v) {n : Nat} (hn : fs.IsInode n) (raw : Ext2Inode) :
    (ext2WriteInode fs n raw).1 = true ∧
      Shows (ext2WriteInode fs n raw).2 (v.withInode n raw) := by
  have hv := h.volume
  obtain ⟨hok, hsame, hself, hbytes, hused, hcons⟩ := hv.toSkeleton.writeInode hn raw
  refine ⟨hok, h.of_shape hsame.shape (hsame.skeleton.inOrder (hcons hv.consistent)) ⟨rfl, rfl, rfl⟩
    (fun k => (h.used k).trans (hused k).symm) (fun _ _ hb => (h.used .block).symm ▸ hb) ?_ ?_⟩
  · intro m hm
    change update v.inode n raw m = _
    by_cases hmn : m = n
    · subst hmn
      rw [update_self, hself]
    · rw [update_of_ne hmn, h.inode m hm, hsame.inode m hm hmn]
  · intro b q hb hq
    exact (h.data b q hb hq).trans (hbytes b q hb hq).symm

end OneBlock

section Allocation

variable {fs : Ext2Fs} {v : View} {k : Kind} {w : Bool} {g i : Nat}

theorem Ready.inodeTable (h : Ready k w fs g i) {g' : Nat} (hg' : g' < fs.bgdescCount) :
    ((afterSb k w fs g i).desc g').inodeTable = (fs.desc g').inodeTable := by
  have hset : ∀ q, 8 ≤ q → q < 12 → (k.setGroupFree (fs.desc g)
      (bump w (2 ^ 16) (k.groupFree (fs.desc g)))).bytes q = (fs.desc g).bytes q := by
    intro q hq hq'
    cases k with
    | block => exact putU16_of_ne (by omega) (by omega)
    | inode => exact putU16_of_ne (by omega) (by omega)
  apply u32_congr
  intro j hj
  rw [h.desc_bytes hg' (by omega)]
  split
  · rename_i hgg
    rw [hset _ (by omega) (by omega), hgg]
  · rfl

theorem Ready.shape (h : Ready k w fs g i) :
    SameShape fs (afterSb k w fs g i) := by
  obtain ⟨hsize, hblock, hcount, hsb⟩ := afterSb_static k w fs g i
  refine ⟨hsize, hblock, hcount, h.edit.perGroup, h.edit.count, ?_, h.edit.bitmapNo,
    fun g' hg' => h.inodeTable hg'⟩
  rw [hsb]
  apply u16_congr
  intro j hj
  cases k with
  | block => exact putU32_of_apart (by omega)
  | inode => exact putU32_of_apart (by omega)

theorem Ready.outside (h : Ready k w fs g i) {nr q : Nat}
    (hapart : ∀ a : Area, a.Valid fs → fs.blockLba nr ≠ fs.blockLba (a.blockNo fs))
    (hq : q < fs.blockSize) :
    (afterSb k w fs g i).diskByte nr q = fs.diskByte nr q := by
  have hdesc : fs.blockLba nr ≠ fs.blockLba (fs.descBlock g) := by
    rw [h.layout.descBlock_eq h.group]
    exact hapart (.descs (g * 32 / fs.blockSize)) ⟨g, h.group, rfl⟩
  rw [h.sb_frame (hapart .superblock trivial) hq, h.desc_frame hdesc hq,
    h.bitmap_frame (hapart (.bitmap k g) h.group) hq]

theorem Ready.sameFiles {buf : Nat → BitVec 8} (h : Ready k w (fs.withBuf buf) g i)
    (hs : Skeleton fs) (hhealthy : (afterSb k w (fs.withBuf buf) g i).dev.Healthy) :
    SameFiles ∅ fs (afterSb k w (fs.withBuf buf) g i) ∧
      ∀ b q, fs.DataBlock b → q < fs.blockSize →
        (afterSb k w (fs.withBuf buf) g i).diskByte b q = fs.diskByte b q := by
  have hbase := h.shape
  have hshape : SameShape fs (afterSb k w (fs.withBuf buf) g i) :=
    ⟨hbase.blockSize, hbase.bgdescBlock, hbase.bgdescCount, hbase.perGroup, hbase.count,
      hbase.inodeSize, hbase.bitmapNo, hbase.tableNo⟩
  refine ⟨⟨hshape.skeleton hs hhealthy, hshape, ?_⟩, ?_⟩
  · intro n hn _
    have hfits := hs.inodePos_fits n
    refine hshape.inodeOf hs hn
      (fun q _ hq => h.outside ?_ (show q < fs.blockSize by omega))
    exact fun a ha => hs.place_lba_ne (q := .area a) (hs.inodePlace hn).1 ha (by simp)
  · intro b q hb hq
    exact h.outside (fun a ha => hs.data_lba_ne (p := .area a) hb ha) hq

theorem Shows.ready {fs' : Ext2Fs} {s : Kind → Set Nat} {buf : Nat → BitVec 8} (h : Shows fs v)
    (hready : Ready k w (fs.withBuf buf) g i) (hfs' : fs' = afterSb k w (fs.withBuf buf) g i)
    (hinOrder : InOrder fs') (hused : ∀ k', usedNumbers k' fs' = s k')
    (hkept : ∀ b, b = 0 ∨ (∃ p : Place, p.Valid fs ∧ p.blockNo fs = b) →
      b ∈ usedNumbers .block fs → b ∈ s .block) :
    Shows fs' { v with used := s } := by
  subst hfs'
  obtain ⟨hsame, hbytes⟩ := hready.sameFiles h.volume.toSkeleton hinOrder.healthy
  refine h.of_shape hsame.shape hinOrder ⟨rfl, rfl, rfl⟩ (fun k' => (hused k').symm) hkept ?_ ?_
  · intro n hn
    exact (h.inode n hn).trans (hsame.inode n hn (Set.notMem_empty n)).symm
  · intro b q hb hq
    exact (h.data b q hb hq).trans (hbytes b q hb hq).symm

theorem Skeleton.free (hs : Skeleton fs) {m : Nat} (hm : m < k.count fs.sb) :
    SameFiles ∅ fs ((Op.free k (m + k.first)).run fs).2 ∧
      (∀ k', usedNumbers k' ((Op.free k (m + k.first)).run fs).2 =
        if k' = k then usedNumbers k fs \ {m + k.first} else usedNumbers k' fs) ∧
      ∀ c q, fs.DataBlock c → q < fs.blockSize →
        ((Op.free k (m + k.first)).run fs).2.diskByte c q = fs.diskByte c q := by
  have hgeo := hs.geometry k
  obtain ⟨hgroup, hindex⟩ := hgeo.bit_of_index hm
  obtain ⟨buf', hout, hready, hhealthy⟩ := freeBit_ready (k := k) hs.layout hs.healthy hgroup
    (lt_of_lt_of_le hindex ((hgeo.maxBits_le hgroup).trans hgeo.fits))
  rw [run_free, hout]
  obtain ⟨hsame, hbytes⟩ := hready.sameFiles hs hhealthy
  refine ⟨hsame, ?_, hbytes⟩
  intro k'
  have hgeo' := (hs.withBuf buf').skeleton.geometry
  have hused := hready.edit.used_eq hgeo' hgroup hindex k'
  rw [(hgeo' k).number_eq hgroup hindex] at hused
  have hparts := Nat.div_add_mod' m (k.perGroup fs.sb)
  refine hused.trans ?_
  change (if k' = k then usedNumbers k fs \ {m / k.perGroup fs.sb * k.perGroup fs.sb +
    m % k.perGroup fs.sb + k.first} else usedNumbers k' fs) = _
  rw [hparts]

theorem Skeleton.freeBlock (hs : Skeleton fs) {b : Nat} (hb : b < fs.sb.blocksCount) :
    SameFiles ∅ fs (ext2FreeBlock fs b) ∧
      usedNumbers .block (ext2FreeBlock fs b) = usedNumbers .block fs \ {b} ∧
      ∀ c q, fs.DataBlock c → q < fs.blockSize →
        (ext2FreeBlock fs b).diskByte c q = fs.diskByte c q := by
  obtain ⟨hsame, hused, hbytes⟩ := hs.free (k := .block) hb
  exact ⟨hsame, (hused .block).trans (if_pos rfl), hbytes⟩

theorem withUsed_eq (v : View) (k : Kind) (s : Set Nat) :
    v.withUsed k s = { v with used := fun k' => if k' = k then s else v.used k' } := by
  unfold View.withUsed
  congr 1
  funext k'
  by_cases hk : k' = k
  · subst hk
    rw [update_self, if_pos rfl]
  · rw [update_of_ne hk, if_neg hk]

variable (h : Shows fs v)
include h

/-- An allocation finds nothing, and then nothing is free, or it takes a number
that is not in use. -/
theorem Shows.alloc (k : Kind) :
    (((Op.alloc k).run fs).1 = 0 ∧ Shows ((Op.alloc k).run fs).2 v ∧
      ∀ g i, g < fs.bgdescCount → i < maxBits k fs g → bit k fs g i = true) ∨
    (k.first ≤ ((Op.alloc k).run fs).1 ∧ ((Op.alloc k).run fs).1 ∉ v.used k ∧
      ((Op.alloc k).run fs).1 < k.count fs.sb + k.first ∧
      Shows ((Op.alloc k).run fs).2
        (v.withUsed k (insert ((Op.alloc k).run fs).1 (v.used k)))) := by
  have hi := h.volume.inOrder
  obtain ⟨hinOrder, hspec⟩ := alloc_spec k hi
  rw [run_alloc] at hinOrder hspec ⊢
  rcases alloc_ready hi.layout (hi.geometry k) hi.healthy with
    ⟨hzero, ⟨buf', hout⟩, hfull⟩ | ⟨g, i, buf', hg, hi', hbit, -, hout, hready, -⟩
  · refine Or.inl ⟨hzero, ?_, ?_⟩
    · rw [hout]
      exact h.withBuf buf'
    · intro g i hg hi'
      exact hi.set_of_full hg hi' (hfull g hg)
  · have hnumber : (allocLoop k fs.bgdescCount 0 fs).1 = number k fs g i := by
      rw [hout]
    have hlt := (hi.geometry k).index_lt hg hi'
    have hnumber' := (hi.geometry k).number_eq hg hi'
    rcases hspec with ⟨-, -, hset⟩ | ⟨hfirst, hnew, hused⟩
    · rw [hset g i hg hi'] at hbit
      cases hbit
    · refine Or.inr ⟨hfirst, ?_, ?_, ?_⟩
      · rw [h.used k]
        exact hnew
      · omega
      · rw [withUsed_eq]
        apply h.ready hready (by rw [hout]) hinOrder
        · intro k'
          rw [hused k', h.used k, h.used k']
        · intro b _ hb
          split
          · rename_i hk
            rw [h.used, ← hk]
            exact Set.mem_insert_of_mem _ hb
          · rw [h.used]
            exact hb

theorem Shows.alloc_congr
    {fs' : Ext2Fs} {v' : View} (h' : Shows fs' v') (hused : v'.used k = v.used k)
    (hcount : k.count fs'.sb = k.count fs.sb) :
    ((Op.alloc k).run fs').1 = ((Op.alloc k).run fs).1 := by
  have hi := h.volume.inOrder
  have hi' := h'.volume.inOrder
  have hused' : usedNumbers k fs' = usedNumbers k fs := by
    rw [← h.used, ← h'.used, hused]
  rcases h.alloc k with ⟨hzero, -, hset⟩ | ⟨hfirst, hnew, hlt, -⟩
  · rcases h'.alloc k with ⟨hzero', -, -⟩ | ⟨hfirst', hnew', hlt', -⟩
    · rw [hzero, hzero']
    · rw [hcount] at hlt'
      rw [h'.used, hused'] at hnew'
      exact absurd (hi.all_used hset hfirst' hlt') hnew'
  · rcases h'.alloc k with ⟨-, -, hset'⟩ | ⟨hfirst', hnew', -, -⟩
    · rw [← hcount] at hlt
      rw [h.used, ← hused'] at hnew
      exact absurd (hi'.all_used hset' hfirst hlt) hnew
    · rw [h.used] at hnew
      rw [h'.used, hused'] at hnew'
      rcases Nat.lt_trichotomy ((Op.alloc k).run fs').1 ((Op.alloc k).run fs).1 with
        hbelow | hsame | habove
      · exact absurd (alloc_least hi hfirst' hbelow) hnew'
      · exact hsame
      · have hmem := alloc_least hi' hfirst habove
        rw [hused'] at hmem
        exact absurd hmem hnew

/-- `ext2_alloc_block` finds no free block or takes a data block. -/
theorem Shows.allocBlock :
    ((ext2AllocBlock fs).1 = 0 ∧ Shows (ext2AllocBlock fs).2 v ∧
      ∀ b ∈ v.dataBlocks, b ∈ v.used .block) ∨
    ((ext2AllocBlock fs).1 ≠ 0 ∧ (ext2AllocBlock fs).1 ∉ v.used .block ∧
      (ext2AllocBlock fs).1 ∈ v.dataBlocks ∧
      Shows (ext2AllocBlock fs).2
        (v.withUsed .block (insert (ext2AllocBlock fs).1 (v.used .block)))) := by
  rcases h.alloc .block with ⟨hzero, hshows, hset⟩ | ⟨-, hnew, hlt, hshows⟩
  · refine Or.inl ⟨hzero, hshows, ?_⟩
    intro b hb
    rw [h.used]
    exact h.volume.inOrder.all_used hset (Nat.zero_le b) ((h.dataBlocks b).mp hb).1
  · right
    change (ext2AllocBlock fs).1 < fs.sb.blocksCount + 0 at hlt
    have hfree : (ext2AllocBlock fs).1 ∉ usedNumbers .block fs := by
      rwa [h.used] at hnew
    have hdata := h.volume.data_of_unused (by omega) hfree
    have hne : (ext2AllocBlock fs).1 ≠ 0 := by
      intro hzero
      rw [hzero] at hfree
      exact hfree h.volume.zero_used
    exact ⟨hne, hnew, (h.dataBlocks _).mpr hdata, hshows⟩

/-- `ext2_alloc_inode` finds no free inode or takes one. -/
theorem Shows.allocInode :
    ((ext2AllocInode fs).1 = 0 ∧ Shows (ext2AllocInode fs).2 v) ∨
    (fs.IsInode (ext2AllocInode fs).1 ∧ (ext2AllocInode fs).1 ∉ v.used .inode ∧
      Shows (ext2AllocInode fs).2
        (v.withUsed .inode (insert (ext2AllocInode fs).1 (v.used .inode)))) := by
  rcases h.alloc .inode with ⟨hzero, hshows, -⟩ | ⟨hfirst, hnew, hlt, hshows⟩
  · exact Or.inl ⟨hzero, hshows⟩
  · change (ext2AllocInode fs).1 < fs.sb.inodesCount + 1 at hlt
    exact Or.inr ⟨⟨hfirst, by omega⟩, hnew, hshows⟩

theorem Shows.free {n : Nat} (hn : n ∈ v.used k) (hdata : k = .block → n ∈ v.dataBlocks ∧ n ≠ 0) :
    Shows ((Op.free k n).run fs).2 (v.withUsed k (v.used k \ {n})) := by
  have hi := h.volume.inOrder
  have hn' : n ∈ usedNumbers k fs := h.used k ▸ hn
  obtain ⟨hinOrder, hused⟩ := free_spec hi hn'
  have hplaces : ∀ b, b = 0 ∨ (∃ p : Place, p.Valid fs ∧ p.blockNo fs = b) →
      k = .block → b ≠ n := by
    rintro b hb hk rfl
    rcases hb with hzero | ⟨p, hp, hpb⟩
    · exact (hdata hk).2 hzero
    · exact ((h.dataBlocks b).mp (hdata hk).1).2 p hp hpb
  obtain ⟨g, i, hg, hi', hnum, hbit⟩ := hn'
  have hgeo := hi.geometry k
  have hfit : i < 8 * fs.blockSize :=
    lt_of_lt_of_le hi' ((hgeo.maxBits_le hg).trans hgeo.fits)
  obtain ⟨buf', hout, hready, -⟩ := freeBit_ready (k := k) hi.layout hi.healthy hg hfit
  obtain ⟨hdiv, hmod⟩ := hgeo.parts hg hi'
  have hrun : ((Op.free k n).run fs).2 = afterSb k false (fs.withBuf buf') g i := by
    rw [hnum, run_free, hdiv, hmod]
    exact hout
  rw [withUsed_eq]
  apply h.ready hready hrun hinOrder
  · intro k'
    rw [hused k', h.used k, h.used k']
  · intro b hb hb'
    split
    · rename_i hk
      rw [h.used, ← hk]
      exact ⟨hb', hplaces b hb hk.symm⟩
    · rw [h.used]
      exact hb'

end Allocation

/-- The metadata blocks of one group with two blocks of inodes. -/
def smallPlaces : List Place :=
  [.area .superblock, .area (.descs 0), .area (.bitmap .block 0), .area (.bitmap .inode 0),
    .table 0 0, .table 0 1]

section OneGroup

variable {fs : Ext2Fs} {p : Place}

theorem mem_smallPlaces
    (hcount : fs.bgdescCount = 1) (htable : fs.tableBlocks = 2) (hp : p.Valid fs) :
    p ∈ smallPlaces := by
  rcases p with a | ⟨g, j⟩
  · exact List.mem_append_left [.table 0 0, .table 0 1]
      (List.mem_map_of_mem (f := Place.area) (mem_smallAreas hcount hp))
  · obtain ⟨hg, hj⟩ := hp
    have hg0 : g = 0 := by omega
    have hj01 : j = 0 ∨ j = 1 := by omega
    rcases hj01 with hj | hj
    · simp [smallPlaces, hg0, hj]
    · simp [smallPlaces, hg0, hj]

theorem volume_of_one_group
    (hcount : fs.bgdescCount = 1) (htable : fs.tableBlocks = 2) (hinOrder : InOrder fs)
    (hinodeSize : 128 ≤ fs.inodeSize ∧ fs.inodeSize ∣ fs.blockSize)
    (hfits : fs.sb.inodesPerGroup * fs.inodeSize < 2 ^ 32 ∧
      fs.sb.blocksCount * (fs.blockSize / 512) ≤ 2 ^ 32)
    (hinj : ∀ p ∈ smallPlaces, ∀ q ∈ smallPlaces, p.blockNo fs = q.blockNo fs → p = q)
    (hlt : ∀ p ∈ smallPlaces, p.blockNo fs < 10)
    (hbits : 10 ≤ maxBits .block fs 0 ∧ ∀ n, n < 10 → bit .block fs 0 n = true) :
    Volume fs := by
  have hused : ∀ n, n < 10 → n ∈ usedNumbers .block fs := by
    intro n hn
    refine ⟨0, n, by omega, lt_of_lt_of_le hn hbits.1, ?_, hbits.2 n hn⟩
    rw [Nat.zero_mul, Nat.zero_add]
    rfl
  have hplaces : ∀ p : Place, p.Valid fs → p.blockNo fs ∈ usedNumbers .block fs :=
    fun p hp => hused _ (hlt p (mem_smallPlaces hcount htable hp))
  refine ⟨⟨hinOrder.layout, hinOrder.geometry, hinOrder.healthy, hinodeSize.1, hinodeSize.2,
    hfits.1, hfits.2, ?_, fun p hp => used_lt (hinOrder.geometry .block) (hplaces p hp)⟩,
    hinOrder.consistent, hplaces, hused 0 (by decide)⟩
  intro p q hp hq
  exact hinj p (mem_smallPlaces hcount htable hp) q (mem_smallPlaces hcount htable hq)

end OneGroup

/-- The small image: superblock 1, descriptors 2, bitmaps 3 and 4, inodes 5 and 6. -/
theorem smallFs_volume :
    Volume smallFs := by
  refine volume_of_one_group ?_ ?_ smallFs_inOrder ?_ ?_ ?_ ?_ ?_
  · decide +kernel
  · decide +kernel
  · decide +kernel
  · decide +kernel
  · decide +kernel
  · decide +kernel
  · decide +kernel

end Ext2
end Homunculos
