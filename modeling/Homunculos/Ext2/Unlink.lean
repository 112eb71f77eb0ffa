import Homunculos.Ext2.DirEntry

/-!
# Truncating and unlinking

`ext2_truncate` and `ext2_unlink`.  Both give blocks of a file back; `ext2_unlink`
takes a name away and, with the last link, the inode itself, whoever still has the
file open.
-/

namespace Homunculos
namespace Ext2

open Bytes Block

/-- `ext2_truncate`: whether it succeeds, the inode in memory, the file system. -/
def ext2Truncate (fs : Ext2Fs) (inode : VfsInode) (length : Nat) : Bool × VfsInode × Ext2Fs :=
  if inode.iType = .chr ∨ inode.iType = .blk then
    (false, inode, fs)
  else
    match inode.privateData with
    | none => (false, inode, fs)
    | some inodeNo =>
      match ext2ReadInode fs inodeNo with
      | (none, fs) => (false, inode, fs)
      | (some raw, fs) =>
        if raw.size ≤ length then
          let raw := (raw.setSize length).setBlocks
            (fs.blocksFor length * (fs.blockSize / 512))
          (true, { inode with iSize := length }, (ext2WriteInode fs inodeNo raw).2)
        else
          let count := if length = 0 then 0 else fs.blocksFor length
          let r := freeBlocks (fs.blocksFor raw.size - count) count raw fs
          let raw := (r.1.setSize length).setBlocks (count * (fs.blockSize / 512))
          (true, { inode with iSize := length }, (ext2WriteInode r.2 inodeNo raw).2)

/-- The link count goes down by one, in 16 bits. -/
def Ext2Inode.dropLink (raw : Ext2Inode) : Ext2Inode :=
  raw.setLinks (raw.links + 65535)

/-- The end of `ext2_unlink`: one link less, and with the last link the file is freed. -/
def dropInode (fs : Ext2Fs) (inodeNo : Nat) (raw : Ext2Inode) : Ext2Fs :=
  if raw.dropLink.links = 0 then
    ext2FreeInode (emptyFile fs inodeNo raw.dropLink) inodeNo
  else
    (ext2WriteInode fs inodeNo raw.dropLink).2

/-- `ext2_unlink`: whether it succeeds, and the file system. -/
def ext2Unlink (fs : Ext2Fs) (parent : VfsInode)
    (name : List (BitVec 8)) : Option (Bool × Ext2Fs) :=
  match parent.privateData with
  | none => some (false, fs)
  | some dirNo =>
    match ext2ReadInode fs dirNo with
    | (none, fs) => some (false, fs)
    | (some raw, fs) =>
      match findEntry fs raw name with
      | none => none
      | some (none, fs) => some (false, fs)
      | some (some childNo, fs) =>
        match ext2RemoveEntry fs parent name with
        | none => none
        | some (false, fs) => some (false, fs)
        | some (true, fs) =>
          match ext2ReadInode fs childNo with
          | (none, fs) => some (false, fs)
          | (some childRaw, fs) => some (true, dropInode fs childNo childRaw)

theorem Shows.isInode_of_used
    {fs : Ext2Fs} {v : View} {no : Nat} (h : Shows fs v) (hno : no ∈ v.used .inode) :
    fs.IsInode no := by
  rw [h.used] at hno
  obtain ⟨g, i, hg, hi, rfl, -⟩ := hno
  have hlt := (h.volume.inOrder.geometry .inode).index_lt hg hi
  exact ⟨Nat.le_add_left _ _, hlt⟩

theorem Ext2Inode.links_dropLink (raw : Ext2Inode) (hpos : 0 < raw.links) :
    raw.dropLink.links = raw.links - 1 := by
  have hlt : raw.links < 65536 := u16_lt _ _
  unfold Ext2Inode.dropLink
  rw [Ext2Inode.links_setLinks]
  omega

theorem Ext2Inode.block_dropLink (raw : Ext2Inode) (j : Nat) :
    raw.dropLink.block j = raw.block j :=
  raw.block_setLinks j _

end Ext2
end Homunculos
