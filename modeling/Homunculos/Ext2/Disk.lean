import Homunculos.Block.Device
import Homunculos.Lib.Bitmap

/-!
# ext2 on a block device

The low-level part of `kernel/ext2.c`: blocks, the superblock and the group
descriptors.  The superblock in memory and a descriptor are packed records, so
they are runs of bytes with fields at fixed offsets; `ext2_buf` is part of the
state because some functions write what earlier ones left in it.
-/

namespace Homunculos
namespace Ext2

open Bytes Block

/-- `struct ext2_sb`, 136 bytes. -/
structure Ext2Sb where
  bytes : Nat → BitVec 8

def Ext2Sb.inodesCount (sb : Ext2Sb) : Nat := u32 sb.bytes 0
def Ext2Sb.blocksCount (sb : Ext2Sb) : Nat := u32 sb.bytes 4
def Ext2Sb.freeBlocksCount (sb : Ext2Sb) : Nat := u32 sb.bytes 12
def Ext2Sb.freeInodesCount (sb : Ext2Sb) : Nat := u32 sb.bytes 16
def Ext2Sb.firstDataBlock (sb : Ext2Sb) : Nat := u32 sb.bytes 20
def Ext2Sb.logBlockSize (sb : Ext2Sb) : Nat := u32 sb.bytes 24
def Ext2Sb.blocksPerGroup (sb : Ext2Sb) : Nat := u32 sb.bytes 32
def Ext2Sb.inodesPerGroup (sb : Ext2Sb) : Nat := u32 sb.bytes 40
def Ext2Sb.magic (sb : Ext2Sb) : Nat := u16 sb.bytes 56

/-- `struct ext2_bgdesc`, 32 bytes. -/
structure Ext2Bgdesc where
  bytes : Nat → BitVec 8

def Ext2Bgdesc.blockBitmap (d : Ext2Bgdesc) : Nat := u32 d.bytes 0
def Ext2Bgdesc.inodeBitmap (d : Ext2Bgdesc) : Nat := u32 d.bytes 4
def Ext2Bgdesc.freeBlocksCount (d : Ext2Bgdesc) : Nat := u16 d.bytes 12
def Ext2Bgdesc.freeInodesCount (d : Ext2Bgdesc) : Nat := u16 d.bytes 14

/-- `struct ext2_fs` with its device, and `ext2_buf`. -/
structure Ext2Fs where
  dev : BlockDevice
  buf : Nat → BitVec 8
  sb : Ext2Sb
  blockSize : Nat
  bgdescBlock : Nat
  bgdescCount : Nat

/-- `ext2_buf` is written. -/
def Ext2Fs.withBuf (fs : Ext2Fs) (buf : Nat → BitVec 8) : Ext2Fs :=
  { fs with buf := buf }

/-- The first sector of a block, in 32 bits. -/
def Ext2Fs.blockLba (fs : Ext2Fs) (nr : Nat) : Nat :=
  nr * (fs.blockSize / 512) % 2 ^ 32

def ext2ReadBlock (fs : Ext2Fs) (nr : Nat) (buf : Nat → BitVec 8) : Bool × (Nat → BitVec 8) :=
  blockRead fs.dev (fs.blockLba nr) (fs.blockSize / 512) buf

def ext2WriteBlock (fs : Ext2Fs) (nr : Nat) (buf : Nat → BitVec 8) : Bool × Ext2Fs :=
  let r := blockWrite fs.dev (fs.blockLba nr) (fs.blockSize / 512) buf
  (r.1, { fs with dev := r.2 })

/-- `ext2_read_block` into `ext2_buf`. -/
def Ext2Fs.readBuf (fs : Ext2Fs) (nr : Nat) : Bool × Ext2Fs :=
  let r := ext2ReadBlock fs nr fs.buf
  (r.1, fs.withBuf r.2)

/-- `ext2_write_block` from `ext2_buf`. -/
def Ext2Fs.writeBuf (fs : Ext2Fs) (nr : Nat) : Bool × Ext2Fs :=
  ext2WriteBlock fs nr fs.buf

/-- The block that `ext2_write_sb` writes. -/
def Ext2Fs.sbBlock (fs : Ext2Fs) : Nat :=
  if fs.blockSize = 1024 then 1 else 0

def ext2WriteSb (fs : Ext2Fs) : Bool × Ext2Fs :=
  (fs.withBuf (copy fs.buf 0 fs.sb.bytes 136)).writeBuf fs.sbBlock

/-- The block with the descriptor of a group. -/
def Ext2Fs.descBlock (fs : Ext2Fs) (bg : Nat) : Nat :=
  (fs.bgdescBlock + bg * 32 % 2 ^ 32 / fs.blockSize) % 2 ^ 32

/-- The place of the descriptor in that block. -/
def Ext2Fs.descPos (fs : Ext2Fs) (bg : Nat) : Nat :=
  bg * 32 % 2 ^ 32 % fs.blockSize

def ext2WriteBgdesc (fs : Ext2Fs) (bg : Nat) (bgd : Ext2Bgdesc) : Bool × Ext2Fs :=
  let r := fs.readBuf (fs.descBlock bg)
  if r.1 then
    (r.2.withBuf (copy r.2.buf (fs.descPos bg) bgd.bytes 32)).writeBuf
      (fs.descBlock bg)
  else
    (false, r.2)

def ext2ReadBgdesc (fs : Ext2Fs) (bg : Nat) : Option Ext2Bgdesc × Ext2Fs :=
  let r := fs.readBuf (fs.descBlock bg)
  if r.1 then
    (some ⟨slice r.2.buf (fs.descPos bg) 32⟩, r.2)
  else
    (none, r.2)

/--
The part of `ext2_mount` that sets up `struct ext2_fs`: `none` when the
superblock cannot be read or has another magic number.
-/
def ext2MountSb (dev : BlockDevice) (buf : Nat → BitVec 8) : Option Ext2Fs :=
  let r := blockRead dev 2 1 buf
  let sb : Ext2Sb := ⟨slice r.2 0 136⟩
  if r.1 = false ∨ sb.magic ≠ 0xEF53 then
    none
  else
    let blockSize := 1024 * 2 ^ sb.logBlockSize % 2 ^ 32
    some
      { dev := dev
        buf := r.2
        sb := sb
        blockSize := blockSize
        bgdescBlock := if blockSize = 1024 then 2 else 1
        bgdescCount :=
          (sb.blocksCount + sb.blocksPerGroup + (2 ^ 32 - 1)) % 2 ^ 32 /
            sb.blocksPerGroup }

/-- The block sizes that fit `ext2_buf`. -/
def BlockSizeOk (fs : Ext2Fs) : Prop :=
  fs.blockSize = 1024 ∨ fs.blockSize = 2048 ∨ fs.blockSize = 4096

/-- Byte `k` of block `nr` on the device. -/
def Ext2Fs.diskByte (fs : Ext2Fs) (nr k : Nat) : BitVec 8 :=
  fs.dev.data (sectorNo (fs.blockLba nr) (k / 512)) (k % 512)

/-- The descriptor of a group on the device. -/
def Ext2Fs.desc (fs : Ext2Fs) (g : Nat) : Ext2Bgdesc :=
  ⟨slice (fs.diskByte (fs.descBlock g)) (fs.descPos g) 32⟩

section Blocks

variable {fs : Ext2Fs}

theorem BlockSizeOk.sectors (h : BlockSizeOk fs) :
    512 * (fs.blockSize / 512) = fs.blockSize := by
  rcases h with h | h | h
  · omega
  · omega
  · omega

theorem BlockSizeOk.lba_fits (h : BlockSizeOk fs) (nr : Nat) :
    fs.blockLba nr + fs.blockSize / 512 ≤ 2 ^ 32 := by
  unfold Ext2Fs.blockLba
  rcases h with h | h | h
  · rw [h]
    omega
  · rw [h]
    omega
  · rw [h]
    omega

theorem BlockSizeOk.sector_ne
    (h : BlockSizeOk fs) {nr nr' : Nat} (hne : fs.blockLba nr' ≠ fs.blockLba nr) {i j : Nat}
    (hi : i < fs.blockSize / 512) (hj : j < fs.blockSize / 512) :
    sectorNo (fs.blockLba nr') i ≠ sectorNo (fs.blockLba nr) j := by
  unfold sectorNo
  unfold Ext2Fs.blockLba at hne ⊢
  rcases h with h | h | h
  · rw [h] at hne hi hj ⊢
    omega
  · rw [h] at hne hi hj ⊢
    omega
  · rw [h] at hne hi hj ⊢
    omega

/-- A block that was read is in `ext2_buf`. -/
theorem readBuf_done
    (fs : Ext2Fs) (hsize : BlockSizeOk fs) {nr k : Nat} (h : (fs.readBuf nr).1 = true)
    (hk : k < fs.blockSize) :
    (fs.readBuf nr).2.buf k = fs.diskByte nr k := by
  have hsectors := hsize.sectors
  have hread := blockReadLoop_done h k
  rw [if_pos (by omega)] at hread
  exact hread

theorem readBuf_healthy (fs : Ext2Fs) (h : fs.dev.Healthy) (nr : Nat) :
    (fs.readBuf nr).1 = true :=
  blockReadLoop_healthy h 0 _

theorem writeBuf_done
    (fs : Ext2Fs) (hsize : BlockSizeOk fs) {nr k : Nat} (h : (fs.writeBuf nr).1 = true)
    (hk : k < fs.blockSize) :
    (fs.writeBuf nr).2.diskByte nr k = fs.buf k := by
  have hsectors := hsize.sectors
  have hfit := hsize.lba_fits nr
  have hwritten := blockWriteLoop_done (j := k / 512) (by omega) h
    (Nat.zero_le _) (by omega)
  have hbyte := congrFun hwritten (k % 512)
  rw [Nat.div_add_mod] at hbyte
  exact hbyte

theorem writeBuf_frame
    (fs : Ext2Fs) (hsize : BlockSizeOk fs) {nr nr' k : Nat} (hne : fs.blockLba nr' ≠ fs.blockLba nr)
    (hk : k < fs.blockSize) :
    (fs.writeBuf nr).2.diskByte nr' k = fs.diskByte nr' k := by
  have hsectors := hsize.sectors
  have hframe := (blockWriteLoop_frame (fs.blockLba nr) fs.buf fs.dev 0
    (fs.blockSize / 512)).2.2
  have hsector := hframe (sectorNo (fs.blockLba nr') (k / 512)) (by
    intro j _ hj
    exact hsize.sector_ne hne (by omega) (by omega))
  exact congrFun hsector (k % 512)

theorem writeBuf_healthy (fs : Ext2Fs) (h : fs.dev.Healthy) (nr : Nat) :
    (fs.writeBuf nr).1 = true ∧ (fs.writeBuf nr).2.dev.Healthy := by
  refine ⟨blockWriteLoop_healthy h 0 _, ?_⟩
  have hframe := blockWriteLoop_frame (fs.blockLba nr) fs.buf fs.dev 0
    (fs.blockSize / 512)
  refine ⟨?_, ?_⟩
  · intro s
    exact (congrFun hframe.1 s).trans (h.read s)
  · intro s
    exact (congrFun hframe.2.1 s).trans (h.write s)

/-- One block has been written; the rest of the file system is as before. -/
structure PutBlock (nr : Nat) (content : Nat → BitVec 8) (fs fs' : Ext2Fs) : Prop where
  sb : fs'.sb = fs.sb
  blockSize : fs'.blockSize = fs.blockSize
  bgdescBlock : fs'.bgdescBlock = fs.bgdescBlock
  bgdescCount : fs'.bgdescCount = fs.bgdescCount
  healthy : fs'.dev.Healthy
  done : ∀ q, q < fs.blockSize → fs'.diskByte nr q = content q
  frame : ∀ nr' q, fs.blockLba nr' ≠ fs.blockLba nr → q < fs.blockSize →
    fs'.diskByte nr' q = fs.diskByte nr' q

/-- `ext2_write_block` on a device without errors. -/
theorem writeBlock_put
    (fs : Ext2Fs) (hsize : BlockSizeOk fs) (h : fs.dev.Healthy) (nr : Nat) (src : Nat → BitVec 8) :
    (ext2WriteBlock fs nr src).1 = true ∧
      PutBlock nr src fs (ext2WriteBlock fs nr src).2 := by
  -- the source does not matter, so it may as well be `ext2_buf`
  have hok := writeBuf_healthy (fs.withBuf src) h nr
  refine ⟨hok.1, rfl, rfl, rfl, rfl, hok.2, ?_, ?_⟩
  · intro q hq
    exact writeBuf_done (fs.withBuf src) hsize hok.1 hq
  · intro nr' q hne hq
    exact writeBuf_frame (fs.withBuf src) hsize hne hq

/--
A block is read into `ext2_buf`, edited there byte by byte and written back, on
a device without errors.
-/
theorem rewrite_put (fs : Ext2Fs) (hsize : BlockSizeOk fs) (h : fs.dev.Healthy) (nr : Nat)
    (edit : (Nat → BitVec 8) → Nat → BitVec 8)
    (hedit : ∀ (m m' : Nat → BitVec 8) q, m q = m' q → edit m q = edit m' q) :
    (fs.readBuf nr).1 = true ∧
      (((fs.readBuf nr).2.withBuf (edit (fs.readBuf nr).2.buf)).writeBuf nr).1 = true ∧
      PutBlock nr (edit (fs.diskByte nr)) fs
        (((fs.readBuf nr).2.withBuf (edit (fs.readBuf nr).2.buf)).writeBuf nr).2 := by
  have hread := readBuf_healthy fs h nr
  obtain ⟨hok, hput⟩ := writeBlock_put
    (fs.withBuf (edit (fs.readBuf nr).2.buf)) hsize h nr (edit (fs.readBuf nr).2.buf)
  refine ⟨hread, hok, hput.sb, hput.blockSize, hput.bgdescBlock, hput.bgdescCount,
    hput.healthy, ?_, hput.frame⟩
  intro q hq
  exact (hput.done q hq).trans (hedit _ _ q (readBuf_done fs hsize hread hq))

end Blocks

end Ext2
end Homunculos
