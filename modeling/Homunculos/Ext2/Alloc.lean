import Homunculos.Ext2.Disk

/-!
# The allocators

`ext2_alloc_block`, `ext2_free_block`, `ext2_alloc_inode` and
`ext2_free_inode`.  The two pairs are the same code on different fields, apart
from one check and the number of the first bit; `Kind` says which fields.

An allocation or release edits one bit of a bitmap, one count of a descriptor
and one count of the superblock, in three block writes through `ext2_buf`.
-/

namespace Homunculos
namespace Ext2

open Bytes Block Bitmap

/-- What is allocated. -/
inductive Kind where
  | block
  | inode
deriving DecidableEq

/-- The bitmap block of a group. -/
def Kind.bitmap : Kind → Ext2Bgdesc → Nat
  | .block, d => d.blockBitmap
  | .inode, d => d.inodeBitmap

/-- The free count of a group. -/
def Kind.groupFree : Kind → Ext2Bgdesc → Nat
  | .block, d => d.freeBlocksCount
  | .inode, d => d.freeInodesCount

/-- The free count of a group is written. -/
def Kind.setGroupFree : Kind → Ext2Bgdesc → Nat → Ext2Bgdesc
  | .block, d, v => ⟨putU16 d.bytes 12 v⟩
  | .inode, d, v => ⟨putU16 d.bytes 14 v⟩

/-- The bits of a full group. -/
def Kind.perGroup : Kind → Ext2Sb → Nat
  | .block, sb => sb.blocksPerGroup
  | .inode, sb => sb.inodesPerGroup

/-- The bits of all groups. -/
def Kind.count : Kind → Ext2Sb → Nat
  | .block, sb => sb.blocksCount
  | .inode, sb => sb.inodesCount

/-- The free count of the superblock. -/
def Kind.sbFree : Kind → Ext2Sb → Nat
  | .block, sb => sb.freeBlocksCount
  | .inode, sb => sb.freeInodesCount

/-- The free count of the superblock is written. -/
def Kind.setSbFree : Kind → Ext2Sb → Nat → Ext2Sb
  | .block, sb, v => ⟨putU32 sb.bytes 12 v⟩
  | .inode, sb, v => ⟨putU32 sb.bytes 16 v⟩

/-- The number of bit 0 of group 0. -/
def Kind.first : Kind → Nat
  | .block => 0
  | .inode => 1

/-- `ext2_alloc_block` gives up when the descriptor cannot be written. -/
def Kind.checksDesc : Kind → Bool
  | .block => true
  | .inode => false

/-- A count after one bit was taken (`v`) or given back, before it is stored. -/
def bump (v : Bool) (modulus count : Nat) : Nat :=
  if v then count + (modulus - 1) else count + 1

/-- The bitmap in `ext2_buf` is edited and written. -/
def writeBitmap (k : Kind) (v : Bool) (fs : Ext2Fs) (bgd : Ext2Bgdesc) (i : Nat) : Bool × Ext2Fs :=
  (fs.withBuf (if v then Bitmap.set fs.buf i else Bitmap.clear fs.buf i)).writeBuf
    (k.bitmap bgd)

/-- The descriptor is written with its new free count. -/
def writeGroupFree (k : Kind) (v : Bool) (fs : Ext2Fs) (bg : Nat)
    (bgd : Ext2Bgdesc) : Bool × Ext2Fs :=
  ext2WriteBgdesc fs bg
    (k.setGroupFree bgd (bump v (2 ^ 16) (k.groupFree bgd)))

/-- The superblock is written with its new free count. -/
def writeSbFree (k : Kind) (v : Bool) (fs : Ext2Fs) : Bool × Ext2Fs :=
  ext2WriteSb
    { fs with sb := k.setSbFree fs.sb (bump v (2 ^ 32) (k.sbFree fs.sb)) }

/-- The number of valid bits that an allocation scans in a group. -/
def maxBits (k : Kind) (fs : Ext2Fs) (bg : Nat) : Nat :=
  if bg = fs.bgdescCount - 1 then
    (k.count fs.sb + (2 ^ 32 - bg * k.perGroup fs.sb % 2 ^ 32)) % 2 ^ 32
  else
    k.perGroup fs.sb

/-- The number that stands for a bit, in 32 bits. -/
def number (k : Kind) (fs : Ext2Fs) (bg i : Nat) : Nat :=
  (bg * k.perGroup fs.sb + i + k.first) % 2 ^ 32

/-- The body of an allocation for the bit it found. -/
def takeBit (k : Kind) (fs : Ext2Fs) (bg : Nat) (bgd : Ext2Bgdesc) (i : Nat) : Nat × Ext2Fs :=
  let w := writeBitmap k true fs bgd i
  if w.1 = false then
    (0, w.2)
  else
    let d := writeGroupFree k true w.2 bg bgd
    if k.checksDesc = true ∧ d.1 = false then
      (0, d.2)
    else
      (number k fs bg i, (writeSbFree k true d.2).2)

/-- The loop of an allocation over the groups from `bg` on, with `n` to go. -/
def allocLoop (k : Kind) : Nat → Nat → Ext2Fs → Nat × Ext2Fs
  | 0, _, fs => (0, fs)
  | n + 1, bg, fs =>
    match ext2ReadBgdesc fs bg with
    | (none, fs₁) => allocLoop k n (bg + 1) fs₁
    | (some bgd, fs₁) =>
      if k.groupFree bgd = 0 then
        allocLoop k n (bg + 1) fs₁
      else
        let r := fs₁.readBuf (k.bitmap bgd)
        if r.1 = false then
          allocLoop k n (bg + 1) r.2
        else
          match firstZero (test r.2.buf) (maxBits k r.2 bg) with
          | none => allocLoop k n (bg + 1) r.2
          | some i => takeBit k r.2 bg bgd i

/-- A release of a bit of a group; the results of the writes are not looked at. -/
def freeBit (k : Kind) (fs : Ext2Fs) (bg i : Nat) : Ext2Fs :=
  match ext2ReadBgdesc fs bg with
  | (none, fs₁) => fs₁
  | (some bgd, fs₁) =>
    let r := fs₁.readBuf (k.bitmap bgd)
    if r.1 = false then
      r.2
    else
      let w := writeBitmap k false r.2 bgd i
      let d := writeGroupFree k false w.2 bg bgd
      (writeSbFree k false d.2).2

def ext2AllocBlock (fs : Ext2Fs) : Nat × Ext2Fs :=
  allocLoop .block fs.bgdescCount 0 fs

def ext2FreeBlock (fs : Ext2Fs) (blockNr : Nat) : Ext2Fs :=
  freeBit .block fs (blockNr / fs.sb.blocksPerGroup)
    (blockNr % fs.sb.blocksPerGroup)

def ext2AllocInode (fs : Ext2Fs) : Nat × Ext2Fs :=
  allocLoop .inode fs.bgdescCount 0 fs

def ext2FreeInode (fs : Ext2Fs) (inodeNo : Nat) : Ext2Fs :=
  if inodeNo = 0 then
    fs
  else
    freeBit .inode fs ((inodeNo - 1) / fs.sb.inodesPerGroup)
      ((inodeNo - 1) % fs.sb.inodesPerGroup)

/-- Bit `i` of the bitmap of a group on the device. -/
def bit (k : Kind) (fs : Ext2Fs) (g i : Nat) : Bool :=
  test (fs.diskByte (k.bitmap (fs.desc g))) i

/-- The blocks that the allocators write. -/
inductive Area where
  | superblock
  | descs (j : Nat)
  | bitmap (k : Kind) (g : Nat)
deriving DecidableEq

/-- The block number of an area. -/
def Area.blockNo (fs : Ext2Fs) : Area → Nat
  | .superblock => fs.sbBlock
  | .descs j => (fs.bgdescBlock + j) % 2 ^ 32
  | .bitmap k g => k.bitmap (fs.desc g)

/-- The areas of the groups that exist. -/
def Area.Valid (fs : Ext2Fs) : Area → Prop
  | .superblock => True
  | .descs j => ∃ g, g < fs.bgdescCount ∧ j = g * 32 / fs.blockSize
  | .bitmap _ g => g < fs.bgdescCount

/-- The superblock, the descriptors and the bitmaps are in different blocks. -/
structure Layout (fs : Ext2Fs) : Prop where
  blockSize : BlockSizeOk fs
  distinct : ∀ a b : Area, a.Valid fs → b.Valid fs →
    fs.blockLba (a.blockNo fs) = fs.blockLba (b.blockNo fs) → a = b

end Ext2
end Homunculos
