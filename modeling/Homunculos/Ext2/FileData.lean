import Homunculos.Ext2.SetBmap

/-!
# File data

`ext2_inode_read` and `ext2_inode_write`.  Both walk over the blocks of a file
with one shared buffer.  A block that is not mapped reads as zeros and is
allocated by a write; whether it is mapped is asked of `ext2_inode_bmap`, which
takes a zero pointer of an indirect tree for block 0 of the device.
-/

namespace Homunculos
namespace Ext2

open Bytes Block

/-- `i_type` of `struct vfs_inode`. -/
inductive InodeType where
  | file
  | dir
  | symlink
  | chr
  | blk
deriving DecidableEq

/-- The operation tables of ext2. -/
inductive InodeOps where
  | file
  | dir
  | symlink
deriving DecidableEq

/-- `struct vfs_inode`. The private data is the inode number in `struct ext2_inode_data`; its file
system is the one that is passed along. -/
structure VfsInode where
  iNo : Nat
  iSize : Nat
  iType : InodeType
  iMode : Nat
  ops : Option InodeOps
  privateData : Option Nat
  iRdev : Nat

/-- A block of a file is brought into `ext2_buf`; a hole is zeros. -/
def loadBlock (fs : Ext2Fs) (raw : Ext2Inode) (idx : Nat) : Bool × Ext2Fs :=
  let b := ext2InodeBmap fs raw idx
  if b.1 = 0 then
    (true, b.2.withBuf (fun q => if q < fs.blockSize then 0#8 else b.2.buf q))
  else
    b.2.readBuf b.1

/-- The loop of `ext2_inode_read`, with the bytes it puts at `dst`. -/
def readLoop : Nat → Ext2Fs → Ext2Inode → Nat → Nat → List (BitVec 8) × Ext2Fs
  | 0, fs, _, _, _ => ([], fs)
  | n + 1, fs, raw, pos, size =>
    if size = 0 then
      ([], fs)
    else
      let l := loadBlock fs raw (pos / fs.blockSize)
      if l.1 then
        let toCopy := min (fs.blockSize - pos % fs.blockSize) size
        let rest := readLoop n l.2 raw ((pos + toCopy) % 2 ^ 32) (size - toCopy)
        ((List.range toCopy).map (fun k => l.2.buf (pos % fs.blockSize + k)) ++ rest.1, rest.2)
      else
        ([], l.2)

/-- `ext2_inode_read`: the bytes read, or `none` for -1. -/
def ext2InodeRead (fs : Ext2Fs) (inode : VfsInode)
    (offset size : Nat) : Option (List (BitVec 8)) × Ext2Fs :=
  if inode.iType = .chr ∨ inode.iType = .blk then
    (none, fs)
  else
    match inode.privateData with
    | none => (none, fs)
    | some inodeNo =>
      match ext2ReadInode fs inodeNo with
      | (none, fs₁) => (none, fs₁)
      | (some raw, fs₁) =>
        if raw.size ≤ offset then
          (some [], fs₁)
        else
          let size := if raw.size < (offset + size) % 2 ^ 32 then raw.size - offset else size
          let r := readLoop size fs₁ raw offset size
          (some r.1, r.2)

/-- The block for a part of a file that is written; a hole gets a new block. -/
def placeBlock (fs : Ext2Fs) (raw : Ext2Inode) (idx : Nat) : Option Nat × Ext2Inode × Ext2Fs :=
  let b := ext2InodeBmap fs raw idx
  if b.1 = 0 then
    let a := ext2AllocBlock b.2
    if a.1 = 0 then
      (none, raw, a.2)
    else
      let s := ext2SetBmap a.2 raw idx a.1
      if s.1 then
        (some a.1, s.2.1, s.2.2)
      else
        (none, s.2.1, ext2FreeBlock s.2.2 a.1)
  else
    (some b.1, raw, b.2)

/-- How much of a block is written in one round. -/
def toCopy (blockSize blockOffset size : Nat) : Nat :=
  if blockOffset = 0 ∧ blockSize ≤ size then
    blockSize
  else
    min (blockSize - blockOffset) size

/-- A whole block is written, or a part of one after it has been read. -/
def storeBlock (fs : Ext2Fs) (phys : Nat) (src : Nat → BitVec 8)
    (blockOffset size : Nat) : Bool × Ext2Fs :=
  if blockOffset = 0 ∧ fs.blockSize ≤ size then
    ext2WriteBlock fs phys src
  else
    let r := fs.readBuf phys
    if r.1 then
      (r.2.withBuf (copy r.2.buf blockOffset src
        (toCopy fs.blockSize blockOffset size))).writeBuf phys
    else
      (false, r.2)

/-- The loop of `ext2_inode_write`: the position it reaches, the inode, the file system. -/
def writeLoop : Nat → Ext2Fs → Ext2Inode → (Nat → BitVec 8) → Nat → Nat →
    Nat × Ext2Inode × Ext2Fs
  | 0, fs, raw, _, pos, _ => (pos, raw, fs)
  | n + 1, fs, raw, src, pos, size =>
    if size = 0 then
      (pos, raw, fs)
    else
      match placeBlock fs raw (pos / fs.blockSize) with
      | (none, raw, fs) => (pos, raw, fs)
      | (some phys, raw, fs) =>
        let w := storeBlock fs phys src (pos % fs.blockSize) size
        if w.1 then
          let done := toCopy fs.blockSize (pos % fs.blockSize) size
          writeLoop n w.2 raw (fun k => src (done + k)) ((pos + done) % 2 ^ 32) (size - done)
        else
          (pos, raw, w.2)

/-- Blocks `i` to `i + n - 1` of a file are unmapped and freed. -/
def freeBlocks : Nat → Nat → Ext2Inode → Ext2Fs → Ext2Inode × Ext2Fs
  | 0, _, raw, fs => (raw, fs)
  | n + 1, i, raw, fs =>
    let b := ext2InodeBmap fs raw i
    if b.1 = 0 then
      freeBlocks n (i + 1) raw b.2
    else
      let s := ext2SetBmap b.2 raw i 0
      freeBlocks n (i + 1) s.2.1 (ext2FreeBlock s.2.2 b.1)

/-- `(size + block_size - 1) / block_size`, in 32 bits. -/
def Ext2Fs.blocksFor (fs : Ext2Fs) (size : Nat) : Nat :=
  (size + fs.blockSize - 1) % 2 ^ 32 / fs.blockSize

/-- The branch of `ext2_inode_write` that empties the file. -/
def emptyFile (fs : Ext2Fs) (inodeNo : Nat) (raw : Ext2Inode) : Ext2Fs :=
  let r := freeBlocks (fs.blocksFor raw.size) 0 raw fs
  (ext2WriteInode r.2 inodeNo ((r.1.setSize 0).setBlocks 0)).2

/-- The inode after data has been written up to `pos`. -/
def grown (fs : Ext2Fs) (raw : Ext2Inode) (pos : Nat) : Ext2Inode :=
  let raw := if raw.size < pos then raw.setSize pos else raw
  raw.setBlocks (fs.blocksFor raw.size * (fs.blockSize / 512))

/-- `ext2_inode_write`: the number of bytes written, or `none` for -1. -/
def ext2InodeWrite (fs : Ext2Fs) (inode : VfsInode) (offset : Nat) (buf : Nat → BitVec 8)
    (size : Nat) : Option Nat × VfsInode × Ext2Fs :=
  if inode.iType = .chr ∨ inode.iType = .blk then
    (none, inode, fs)
  else
    match inode.privateData with
    | none => (none, inode, fs)
    | some inodeNo =>
      match ext2ReadInode fs inodeNo with
      | (none, fs₁) => (none, inode, fs₁)
      | (some raw, fs₁) =>
        if offset = 0 ∧ size = 0 then
          (some 0, { inode with iSize := 0 }, emptyFile fs₁ inodeNo raw)
        else
          let r := writeLoop size fs₁ raw buf offset size
          let written := (r.1 + (2 ^ 32 - offset)) % 2 ^ 32
          if 0 < written then
            let raw := grown r.2.2 r.2.1 r.1
            (some written, { inode with iSize := raw.size },
              (ext2WriteInode r.2.2 inodeNo raw).2)
          else
            (some written, inode, r.2.2)

/-- The byte of a file at a position, from the device. -/
def byteOf (fs : Ext2Fs) (raw : Ext2Inode) (pos : Nat) : BitVec 8 :=
  if bmapOf fs raw (pos / fs.blockSize) = 0 then
    0#8
  else
    fs.diskByte (bmapOf fs raw (pos / fs.blockSize)) (pos % fs.blockSize)

section Read

variable {fs : Ext2Fs} {raw : Ext2Inode}

theorem bmapOf_withBuf
    (hsize : BlockSizeOk fs) (buf : Nat → BitVec 8) (raw : Ext2Inode) (idx : Nat) :
    bmapOf (fs.withBuf buf) raw idx = bmapOf fs raw idx := by
  have hboth : bmapOf (fs.withBuf buf) raw idx = bmapOf fs raw idx ∧
      pointerBlocks (fs.withBuf buf) raw idx = pointerBlocks fs raw idx :=
    bmapOf_congr hsize rfl (fun _ _ _ => rfl) (fun _ _ _ _ => rfl)
  exact hboth.1

theorem loadBlock_spec
    (hsize : BlockSizeOk fs) (hhealthy : fs.dev.Healthy) (raw : Ext2Inode) (idx : Nat)
    (buf : Nat → BitVec 8) :
    ∃ buf', loadBlock (fs.withBuf buf) raw idx = (true, fs.withBuf buf') ∧
      ∀ q, q < fs.blockSize →
        buf' q = if bmapOf fs raw idx = 0 then 0#8 else fs.diskByte (bmapOf fs raw idx) q := by
  obtain ⟨buf1, hout⟩ : ∃ buf1, ext2InodeBmap (fs.withBuf buf) raw idx =
      (bmapOf (fs.withBuf buf) raw idx, fs.withBuf buf1) :=
    bmap_spec (show BlockSizeOk (fs.withBuf buf) from hsize) hhealthy raw idx
  rw [bmapOf_withBuf hsize] at hout
  unfold loadBlock
  rw [hout]
  by_cases hzero : bmapOf fs raw idx = 0
  · rw [if_pos hzero]
    refine ⟨_, rfl, ?_⟩
    intro q hq
    rw [if_pos hzero]
    exact if_pos hq
  · rw [if_neg hzero]
    have hread := readBuf_healthy (fs.withBuf buf1) hhealthy (bmapOf fs raw idx)
    refine ⟨((fs.withBuf buf1).readBuf (bmapOf fs raw idx)).2.buf, Prod.ext hread rfl, ?_⟩
    intro q hq
    rw [if_neg hzero]
    exact readBuf_done (fs.withBuf buf1) hsize hread hq

theorem same_block {bs pos k : Nat} (hk : k < bs - pos % bs) :
    (pos + k) / bs = pos / bs ∧ (pos + k) % bs = pos % bs + k := by
  have hpos := Nat.div_add_mod pos bs
  have hlt : pos % bs + k < bs := by omega
  have hsum : pos + k = pos % bs + k + bs * (pos / bs) := by omega
  rw [hsum]
  refine ⟨?_, ?_⟩
  · rw [Nat.add_mul_div_left _ _ (by omega), Nat.div_eq_of_lt hlt, Nat.zero_add]
  · rw [Nat.add_mul_mod_self_left, Nat.mod_eq_of_lt hlt]

theorem loaded_bytes
    {buf : Nat → BitVec 8} {pos len : Nat} (hlen : len ≤ fs.blockSize - pos % fs.blockSize)
    (hbuf : ∀ q, q < fs.blockSize → buf q =
      if bmapOf fs raw (pos / fs.blockSize) = 0 then 0#8
      else fs.diskByte (bmapOf fs raw (pos / fs.blockSize)) q) :
    (List.range len).map (fun k => buf (pos % fs.blockSize + k)) =
      (List.range len).map (fun k => byteOf fs raw (pos + k)) := by
  apply List.map_congr_left
  intro k hk
  have hk' := List.mem_range.mp hk
  obtain ⟨hdiv, hmod⟩ := same_block (show k < fs.blockSize - pos % fs.blockSize by omega)
  rw [hbuf _ (by omega)]
  unfold byteOf
  rw [hdiv, hmod]

theorem readLoop_spec
    (hsize : BlockSizeOk fs) (hhealthy : fs.dev.Healthy) (raw : Ext2Inode) {n pos size : Nat}
    (hn : size ≤ n) (hfits : pos + size < 2 ^ 32) (buf : Nat → BitVec 8) :
    ∃ buf', readLoop n (fs.withBuf buf) raw pos size =
      ((List.range size).map (fun k => byteOf fs raw (pos + k)), fs.withBuf buf') := by
  induction n generalizing pos size buf with
  | zero =>
    have hzero : size = 0 := by omega
    subst hzero
    exact ⟨buf, rfl⟩
  | succ n ih =>
    rw [readLoop]
    by_cases hzero : size = 0
    · subst hzero
      exact ⟨buf, rfl⟩
    · have hmod := Nat.mod_lt pos hsize.pos
      obtain ⟨buf1, hload, hbuf⟩ := loadBlock_spec hsize hhealthy raw (pos / fs.blockSize) buf
      have hload' : loadBlock (fs.withBuf buf) raw (pos / (fs.withBuf buf).blockSize) =
          (true, fs.withBuf buf1) := hload
      rw [if_neg hzero, hload']
      dsimp only
      rw [if_pos rfl]
      -- the rest of the block of `pos`, then the rest of the file
      obtain ⟨c, hc⟩ : ∃ c, min (fs.blockSize - pos % fs.blockSize) size = c := ⟨_, rfl⟩
      have hc' : min ((fs.withBuf buf).blockSize - pos % (fs.withBuf buf).blockSize) size = c :=
        hc
      obtain ⟨buf', hrest⟩ := ih (show size - c ≤ n by omega)
        (show pos + c + (size - c) < 2 ^ 32 by omega) buf1
      refine ⟨buf', ?_⟩
      rw [hc', show (pos + c) % 2 ^ 32 = pos + c from Nat.mod_eq_of_lt (by omega), hrest]
      have hfirst := loaded_bytes (show c ≤ fs.blockSize - pos % fs.blockSize by omega) hbuf
      have hsum : size = c + (size - c) := by omega
      refine Prod.ext ?_ rfl
      change (List.range c).map (fun k => buf1 (pos % fs.blockSize + k)) ++ _ = _
      conv => rhs; rw [hsum, List.range_add, List.map_append, List.map_map]
      congr 1
      apply List.map_congr_left
      intro k _
      change byteOf fs raw (pos + c + k) = byteOf fs raw (pos + (c + k))
      rw [Nat.add_assoc]

end Read

section Holes

variable {fs : Ext2Fs} {raw : Ext2Inode} {idx : Nat}

section Content

variable {js : List Nat} {p : Nat} {fs' : Ext2Fs}

end Content

end Holes

end Ext2
end Homunculos
