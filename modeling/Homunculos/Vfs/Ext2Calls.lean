import Homunculos.Ext2.DirLaw
import Homunculos.Ext2.Unlink
import Homunculos.Vfs.FileRuns

/-!
# Calls on the files of one ext2 file system

Reads and writes down to the blocks: the descriptors and the open files, the inodes in
memory that they point to, and the ext2 file system below.
-/

namespace Homunculos
namespace Vfs

open Ext2 Function

/-- The kernel as far as files go. `inodes` are the inodes in memory that belong to the ext2 file
system, by their place in `vfs_inodes`. -/
structure Kernel where
  sys : FileSys
  st : Ext2State
  inodes : Nat → Option VfsInode

/-- The inode of an open ext2 file, with its place. -/
def Kernel.opened (k : Kernel) (f : Slot) : Option (Nat × VfsInode) :=
  match (k.sys.files f).ops, (k.sys.files f).privateData with
  | some .vfsFileOps, .inode ino => (k.inodes ino).map (fun inode => (ino, inode))
  | _, _ => none

/-- `vfs_file_read` with an ext2 inode: the bytes, the position after it, and the file system. The
names that it packs for a directory are left out. -/
def vfsFileRead (fs : Ext2Fs) (inode : VfsInode)
    (pos nbyte : Nat) : Option (List (BitVec 8)) × Nat × Ext2Fs :=
  match inode.ops with
  | some .file =>
    let r := ext2InodeRead fs inode pos nbyte
    (r.1, (pos + (r.1.getD []).length) % 2 ^ 32, r.2)
  | some .dir => (none, pos, fs)
  | some .symlink => (none, pos, fs)
  | none => (none, pos, fs)

/-- `vfs_file_write` with an ext2 inode. -/
def vfsFileWrite (fs : Ext2Fs) (inode : VfsInode) (pos : Nat) (buf : Nat → BitVec 8)
    (nbyte : Nat) : Option Nat × Nat × VfsInode × Ext2Fs :=
  match inode.ops with
  | some .file =>
    let r := ext2InodeWrite fs inode pos buf nbyte
    (r.1, (pos + r.1.getD 0) % 2 ^ 32, r.2.1, r.2.2)
  | some .dir => (none, pos, inode, fs)
  | some .symlink => (none, pos, inode, fs)
  | none => (none, pos, inode, fs)

/-- The open ext2 file at a descriptor. -/
def Kernel.fileAt (k : Kernel) (t : Pid) (fd : Int) : Option (Slot × Nat × VfsInode) :=
  (k.sys.fileAt t fd).bind (fun x => (k.opened x.2).map (fun o => (x.2, o)))

/-- The file system and a position after a call. -/
def Kernel.afterIo (k : Kernel) (f : Slot) (pos : Nat) (fs : Ext2Fs) : Kernel :=
  { k with
    sys := k.sys.setFile f { k.sys.files f with pos := pos }
    st := { k.st with fs := fs } }

/-- `sys_read` from an ext2 file. -/
def Kernel.read (k : Kernel) (t : Pid) (fd : Int) (len : Nat) : Option (List (BitVec 8)) × Kernel :=
  match k.fileAt t fd with
  | none => (none, k)
  | some (f, _, inode) =>
    let r := vfsFileRead k.st.fs inode (k.sys.files f).pos len
    (r.1, k.afterIo f r.2.1 r.2.2)

/-- The bytes of a file on the device. -/
def fileBytes (fs : Ext2Fs) (n : Nat) : List (BitVec 8) :=
  (List.range (fs.inodeOf n).size).map (byteOf fs (fs.inodeOf n))

end Vfs
end Homunculos
