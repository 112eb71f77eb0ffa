import Homunculos.Ext2.FileData
import Homunculos.Lib.SwapRemove

/-!
# devtmpfs

The directories of `kernel/devtmpfs.c`, which are static or come from a static pool, the
inodes of `vfs_inodes` that their entries point to, and the operations on them.  An inode
says by `private_data` what it stands for; that pointer is the only thing that ties it to a
directory or to the target of a symbolic link.
-/

namespace Homunculos
namespace Devtmpfs

open Ext2 (InodeType)
open SwapRemove

/-- A C string without its final zero byte. -/
abbrev Name := List (BitVec 8)

/-- `devtmpfs_root_data`, `devtmpfs_dev_data`, `devtmpfs_mnt_data`,
`devtmpfs_devmount_root` and `devtmpfs_dirs`. -/
inductive Dir where
  | root
  | dev
  | mnt
  | devmount
  | pool (i : Fin 16)
deriving DecidableEq, Fintype

/-- What `private_data` of an inode points to. -/
inductive Data where
  | null
  | dir (d : Dir)
  | target (k : Fin 16)
  | device (k : Nat)
  | foreign (p : Nat)
deriving DecidableEq

/-- A slot of `vfs_inodes` -/
abbrev Ino := Fin 256

/-- `struct vfs_inode` without its operation table -/
structure Inode where
  iNo : Nat
  iType : InodeType
  iMode : BitVec 16
  iSize : Nat
  iRdev : Nat
  data : Data

/-- `struct devtmpfs_device`: with a table of file operations, or with one of inodes and
its `private_data`. -/
structure Device where
  name : Name
  iType : InodeType
  dev : Nat
  inodeData : Option Nat

abbrev Entry := Name × Ino

structure State where
  inodes : Ino → Inode
  nextIno : Nat
  dirs : Dir → List Entry
  dirNext : Nat
  targets : Fin 16 → Name
  symlinkNext : Nat
  devices : List Device

/-- `DEVTMPFS_MAX_ENTRIES` -/
def maxEntries : Nat :=
  16

/-- `S_IFDIR | S_IRWXU | S_IRGRP | S_IXGRP | S_IROTH | S_IXOTH` -/
def dirMode : BitVec 16 :=
  0o40755#16

/-- `S_IFREG | S_IRUSR | S_IWUSR | S_IRGRP | S_IROTH` -/
def fileMode : BitVec 16 :=
  0o100644#16

namespace State

def setInode (s : State) (ino : Ino) (x : Inode) : State :=
  { s with inodes := Function.update s.inodes ino x }

def setDir (s : State) (d : Dir) (l : List Entry) : State :=
  { s with dirs := Function.update s.dirs d l }

theorem inodes_setInode (s : State) (ino : Ino) (x : Inode) : (s.setInode ino x).inodes ino = x :=
  Function.update_self _ _ _

theorem inodes_setInode_of_ne {i ino : Ino} (h : i ≠ ino) (s : State) (x : Inode) :
    (s.setInode ino x).inodes i = s.inodes i :=
  Function.update_of_ne h _ _

theorem dirs_setDir (s : State) (d : Dir) (l : List Entry) : (s.setDir d l).dirs d = l :=
  Function.update_self _ _ _

theorem dirs_setDir_of_ne {d d' : Dir} (h : d' ≠ d) (s : State) (l : List Entry) :
    (s.setDir d l).dirs d' = s.dirs d' :=
  Function.update_of_ne h _ _

def vfsAllocInode (s : State) : Option (Ino × State) :=
  match (List.finRange 256).find? (fun i => decide ((s.inodes i).iNo = 0)) with
  | none => none
  | some i =>
    some (i, { s with nextIno := s.nextIno + 1 }.setInode i ⟨s.nextIno, .file, 0, 0, 0, .null⟩)

def vfsFreeInode (s : State) (ino : Ino) : State :=
  s.setInode ino { s.inodes ino with iNo := 0 }

def addEntry (s : State) (d : Dir) (name : Name) (ino : Ino) : Bool × State :=
  if maxEntries ≤ (s.dirs d).length then
    (false, s)
  else
    (true, s.setDir d (s.dirs d ++ [(name.take 63, ino)]))

/-- The index of the first entry with this name. -/
def index (s : State) (d : Dir) (name : Name) : Option Nat :=
  (s.dirs d).findIdx? (fun e => decide (e.1 = name))

def lookup (s : State) (d : Dir) (name : Name) : Option Ino :=
  match s.index d name with
  | none => none
  | some i => (s.dirs d)[i]?.map Prod.snd

def removeEntry (s : State) (d : Dir) (name : Name) : Bool × State :=
  match s.index d name with
  | none => (false, s)
  | some i => (true, s.setDir d (swapRemove (s.dirs d) i))

def mkdir (s : State) (d : Dir) (name : Name) : Bool × State :=
  if maxEntries ≤ (s.dirs d).length then
    (false, s)
  else if h : s.dirNext < 16 then
    let newDir := Dir.pool ⟨s.dirNext, h⟩
    let s := { s with dirNext := s.dirNext + 1 }.setDir newDir []
    match s.vfsAllocInode with
    | none => (false, s)
    | some (ino, s) =>
      (s.setInode ino { s.inodes ino with
        iType := .dir, iMode := dirMode, data := .dir newDir }).addEntry d name ino
  else
    (false, s)

def mknod (s : State) (d : Dir) (name : Name) (mode : BitVec 16) (dev : Nat) : Bool × State :=
  if maxEntries ≤ (s.dirs d).length then
    (false, s)
  else
    match s.vfsAllocInode with
    | none => (false, s)
    | some (ino, s) =>
      if mode &&& 0o170000 = 0o20000 ∨ mode &&& 0o170000 = 0o60000 then
        (s.setInode ino { s.inodes ino with
          iType := if mode &&& 0o170000 = 0o20000 then .chr else .blk
          iSize := 0, iMode := mode, iRdev := dev, data := .null }).addEntry d name ino
      else
        (false, s.vfsFreeInode ino)

def unlink (s : State) (d : Dir) (name : Name) : Bool × State :=
  s.removeEntry d name

/-- `child && child->count > 0` in `devtmpfs_rmdir`. For an inode that is no directory, it reads
the count from memory of something else, where it finds `garbage`. -/
def occupied (s : State) (ino : Ino) (garbage : Bool) : Bool :=
  match (s.inodes ino).data with
  | .null => false
  | .dir x => !(s.dirs x).isEmpty
  | _ => garbage

def rmdir (s : State) (d : Dir) (name : Name) (garbage : Bool) : Bool × State :=
  match s.lookup d name with
  | none => (false, s)
  | some ino => if s.occupied ino garbage then (false, s) else s.removeEntry d name

def symlink (s : State) (d : Dir) (name target : Name) : Bool × State :=
  if h : s.symlinkNext < 16 then
    let k : Fin 16 := ⟨s.symlinkNext, h⟩
    let s := { s with targets := Function.update s.targets k (target.take 63) }
    match s.vfsAllocInode with
    | none => (false, s)
    | some (ino, s) =>
      ({ s with symlinkNext := s.symlinkNext + 1 }.setInode ino { s.inodes ino with
        iType := .symlink, iMode := 0o120777, iSize := (target.take 63).length
        data := .target k }).addEntry d name ino
  else
    (false, s)

/-- `vfs_create_file` in a directory of devtmpfs -/
def createFile (s : State) (d : Dir) (name : Name) (mode : BitVec 16) : Option Ino × State :=
  match s.vfsAllocInode with
  | none => (none, s)
  | some (ino, s) =>
    match (s.setInode ino { s.inodes ino with
        iMode := 0o100000 ||| (mode &&& 0o7777) }).addEntry d name ino with
    | (true, s) => (some ino, s)
    | (false, s) => (none, s.vfsFreeInode ino)

/-- `vfs_rename` between directories of devtmpfs, which has no rename operation -/
def rename (s : State) (d : Dir) (name : Name) (d' : Dir) (name' : Name) : Bool × State :=
  match s.lookup d name with
  | none => (false, s)
  | some ino =>
    match s.addEntry d' name' ino with
    | (false, s) => (false, s)
    | (true, s) =>
      match s.removeEntry d name with
      | (true, s) => (true, s)
      | (false, s) => (false, (s.removeEntry d' name').2)

/-- The inode that `populate_dir` makes of the device `k`. -/
def deviceInode (k : Nat) (dev : Device) (x : Inode) : Inode :=
  { x with
    iType := dev.iType
    iSize := 0
    iMode := if dev.iType = .dir then dirMode else fileMode
    iRdev := dev.dev
    data :=
      match dev.inodeData with
      | none => .device k
      | some p => .foreign p }

/-- The loop body of `populate_dir` -/
def populate (d : Dir) (s : State) (x : Device × Nat) : State :=
  match s.vfsAllocInode with
  | none => s
  | some (ino, s) =>
    ((s.setInode ino (deviceInode x.2 x.1 (s.inodes ino))).addEntry d x.1.name ino).2

def populateDir (s : State) (d : Dir) : State :=
  s.devices.zipIdx.foldl (populate d) s

/-- `devtmpfs_create_mount` -/
def createMount (s : State) : Option Ino × State :=
  match s.vfsAllocInode with
  | none => (none, s)
  | some (ino, s) =>
    let s := (s.setDir .devmount []).setInode ino { s.inodes ino with
      iType := .dir, iMode := dirMode, data := .dir .devmount }
    (some ino, s.populateDir .devmount)

/-- `devtmpfs_register_vfs` and `devtmpfs_register_inode` -/
def register (s : State) (dev : Device) : State :=
  if 32 ≤ s.devices.length then
    s
  else
    { s with devices := s.devices ++ [{ dev with name := dev.name.take 63 }] }

end State

end Devtmpfs
end Homunculos
