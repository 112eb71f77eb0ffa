import Homunculos.Ext2.Unlink

/-!
# Calls on names

`ext2_mkdir`, `ext2_rmdir`, `ext2_mknod`, `ext2_symlink`, `ext2_rename` and
`ext2_link`.  Each of them is made of the same few steps: an inode is allocated and
written, an entry is added or removed, a link count goes up or down.  None of them
looks whether the name that it adds is there already.
-/

namespace Homunculos
namespace Ext2

open Bytes Block

/-- The link count goes up by one, in 16 bits. -/
def Ext2Inode.addLink (raw : Ext2Inode) : Ext2Inode :=
  raw.setLinks (raw.links + 1)

/-- An inode is read, and if that works, it is written with another link count. -/
def adjustLinks (fs : Ext2Fs) (no : Nat) (change : Ext2Inode → Ext2Inode) : Ext2Fs :=
  match ext2ReadInode fs no with
  | (none, fs) => fs
  | (some raw, fs) => (ext2WriteInode fs no (change raw)).2

/-- The inode of a new directory with its block. -/
def newDirInode (fs : Ext2Fs) (mode phys : Nat) : Ext2Inode :=
  ((((Ext2Inode.zero.setMode (0x4000 + mode % 0x1000)).setLinks 2).setSize fs.blockSize).setBlock
    0 phys).setBlocks (fs.blockSize / 512)

/-- A record of a directory, with its file type. -/
def putDirRecord (m : Nat → BitVec 8) (o inode recLen : Nat)
    (name : List (BitVec 8)) : Nat → BitVec 8 :=
  putU8 (putDirent m o inode recLen name) (o + 7) 2

/-- `ext2_buf` with the entries `.` and `..` of a new directory. -/
def dotsBlock (buf : Nat → BitVec 8) (bs no dirNo : Nat) : Nat → BitVec 8 :=
  let zeroed := fun q => if q < bs then 0#8 else buf q
  putDirRecord (putDirRecord zeroed 0 no 12 dot) 12 dirNo (bs - 12) dotdot

/-- The inode and the block of a new directory are given back. -/
def giveBack (fs : Ext2Fs) (no phys : Nat) : Ext2Fs :=
  ext2FreeInode (ext2FreeBlock fs phys) no

/-- The first half of `ext2_mkdir`: the inode and the block, both written. -/
def makeDir (fs : Ext2Fs) (dirNo mode : Nat) : Option (Nat × Nat) × Ext2Fs :=
  let i := ext2AllocInode fs
  if i.1 = 0 then
    (none, i.2)
  else
    let b := ext2AllocBlock i.2
    if b.1 = 0 then
      (none, ext2FreeInode b.2 i.1)
    else
      let w := (b.2.withBuf (dotsBlock b.2.buf fs.blockSize i.1 dirNo)).writeBuf b.1
      if w.1 then
        let x := ext2WriteInode w.2 i.1 (newDirInode fs mode b.1)
        if x.1 then
          (some (i.1, b.1), x.2)
        else
          (none, giveBack x.2 i.1 b.1)
      else
        (none, giveBack w.2 i.1 b.1)

/-- The inode in memory of a new directory. -/
def newDirVfs (bs no : Nat) : VfsInode where
  iNo := no
  iSize := bs
  iType := .dir
  iMode := 0
  ops := some .dir
  privateData := some no
  iRdev := 0

/-- `ext2_mkdir`: whether it succeeds, and the state. -/
def ext2Mkdir (st : Ext2State) (parent : VfsInode) (name : List (BitVec 8))
    (mode : Nat) : Option (Bool × Ext2State) :=
  match parent.privateData with
  | none => some (false, st)
  | some dirNo =>
    match makeDir st.fs dirNo mode with
    | (none, fs) => some (false, { st with fs := fs })
    | (some (no, phys), fs) =>
      if st.vfsFree = 0 ∨ 64 ≤ st.dataNext then
        some (false, { st with fs := giveBack fs no phys })
      else
        match ext2AddEntry ⟨fs, st.dataNext + 1, st.vfsFree - 1⟩ parent name
            (newDirVfs fs.blockSize no) with
        | none => none
        | some (false, _, _, st) =>
          some (false, { st with fs := giveBack st.fs no phys, vfsFree := st.vfsFree + 1 })
        | some (true, _, _, st) =>
          some (true, { st with fs := adjustLinks st.fs dirNo Ext2Inode.addLink })

/--
What `ext2_rmdir` asks of the child: a directory with at most two links, and a
record behind the one of `.` that has no inode or ends where the one of `..` must end.
-/
def emptyDir (fs : Ext2Fs) (childNo : Nat) : Bool × Ext2Fs :=
  match ext2ReadInode fs childNo with
  | (none, fs) => (false, fs)
  | (some raw, fs) =>
    if raw.mode / 0x1000 % 16 ≠ 0x4 ∨ 2 < raw.links then
      (false, fs)
    else
      let b := ext2InodeBmap fs raw 0
      if b.1 = 0 then
        (true, b.2)
      else
        let r := b.2.readBuf b.1
        if r.1 then
          (decide (¬ (12 < (direntAt r.2.buf 12).recLen ∧ (direntAt r.2.buf 12).inode ≠ 0)), r.2)
        else
          (false, r.2)

/-- `ext2_rmdir`: whether it succeeds, and the file system. -/
def ext2Rmdir (fs : Ext2Fs) (parent : VfsInode) (name : List (BitVec 8)) : Option (Bool × Ext2Fs) :=
  match parent.privateData with
  | none => some (false, fs)
  | some dirNo =>
    match ext2ReadInode fs dirNo with
    | (none, fs) => some (false, fs)
    | (some raw, fs) =>
      match findEntry fs raw name with
      | none => none
      | some (none, fs) => some (false, fs)
      | some (some childNo, fs) =>
        let c := emptyDir fs childNo
        if c.1 then
          match ext2RemoveEntry c.2 parent name with
          | none => none
          | some (false, fs) => some (false, fs)
          | some (true, fs) =>
            match ext2ReadInode fs childNo with
            | (none, fs) => some (false, fs)
            | (some childRaw, fs) =>
              let r := freeBlocks (fs.blocksFor childRaw.size) 0 childRaw fs
              some (true, adjustLinks (ext2FreeInode r.2 childNo) dirNo Ext2Inode.dropLink)
        else
          some (false, c.2)

/-- The inode of a device node; the device is in the first pointer. -/
def newNode (mode dev : Nat) : Ext2Inode :=
  ((Ext2Inode.zero.setMode mode).setLinks 1).setBlock 0 dev

/-- The type that a node may have. -/
def nodeType (mode : Nat) : Option InodeType :=
  if mode / 0x1000 % 16 = 0x2 then some .chr
  else if mode / 0x1000 % 16 = 0x6 then some .blk
  else none

/-- The inode in memory of a new device node. -/
def newNodeVfs (no mode dev : Nat) (type : InodeType) : VfsInode where
  iNo := no
  iSize := 0
  iType := type
  iMode := mode
  ops := some .file
  privateData := some no
  iRdev := dev

/-- `ext2_mknod`: whether it succeeds, and the state. -/
def ext2Mknod (st : Ext2State) (parent : VfsInode) (name : List (BitVec 8))
    (mode dev : Nat) : Option (Bool × Ext2State) :=
  match parent.privateData with
  | none => some (false, st)
  | some _ =>
    let i := ext2AllocInode st.fs
    if i.1 = 0 then
      some (false, { st with fs := i.2 })
    else
      let w := ext2WriteInode i.2 i.1 (newNode mode dev)
      if w.1 then
        if st.vfsFree = 0 ∨ 64 ≤ st.dataNext then
          some (false, { st with fs := ext2FreeInode w.2 i.1 })
        else
          match nodeType mode with
          | none => some (false, ⟨ext2FreeInode w.2 i.1, st.dataNext + 1, st.vfsFree⟩)
          | some type =>
            (ext2AddEntry ⟨w.2, st.dataNext + 1, st.vfsFree - 1⟩ parent name
              (newNodeVfs i.1 mode dev type)).map (fun r => (r.1, r.2.2.2))
      else
        some (false, { st with fs := ext2FreeInode w.2 i.1 })

/-- The target of a short symbolic link is in the place of the pointers. -/
def Ext2Inode.setTarget (raw : Ext2Inode) (target : List (BitVec 8))
    (hlen : target.length ≤ 60) : Ext2Inode where
  bytes := copy raw.bytes 40 (fun k => target.getD k 0#8) target.length
  tail := by
    intro q hq
    rw [copy_outside (by omega), raw.tail q hq]

/-- The inode of a new symbolic link, without its target. -/
def newLinkInode (target : List (BitVec 8)) : Ext2Inode :=
  ((Ext2Inode.zero.setMode 0xA1FF).setLinks 1).setSize target.length

/-- The inode of the link with its target, in the inode or in a block that is written. -/
def placeTarget (fs : Ext2Fs) (target : List (BitVec 8)) : Option Ext2Inode × Ext2Fs :=
  if h : target.length ≤ 60 then
    (some ((newLinkInode target).setTarget target h), fs)
  else
    let b := ext2AllocBlock fs
    if b.1 = 0 then
      (none, b.2)
    else
      let zeroed := fun q => if q < fs.blockSize then 0#8 else b.2.buf q
      let w := (b.2.withBuf (copy zeroed 0 (fun k => target.getD k 0#8) target.length)).writeBuf b.1
      if w.1 then
        (some (((newLinkInode target).setBlock 0 b.1).setBlocks (fs.blockSize / 512)), w.2)
      else
        (none, ext2FreeBlock w.2 b.1)

/-- The inode and the block of a link are given back. -/
def dropTarget (fs : Ext2Fs) (no : Nat) (raw : Ext2Inode) (target : List (BitVec 8)) : Ext2Fs :=
  if raw.block 0 ≠ 0 ∧ 60 < target.length then
    ext2FreeInode (ext2FreeBlock fs (raw.block 0)) no
  else
    ext2FreeInode fs no

/-- The inode in memory of a new symbolic link. -/
def newLinkVfs (no : Nat) (target : List (BitVec 8)) : VfsInode where
  iNo := no
  iSize := target.length
  iType := .symlink
  iMode := 0
  ops := some .symlink
  privateData := some no
  iRdev := 0

/-- `ext2_symlink`: whether it succeeds, and the state. -/
def ext2Symlink (st : Ext2State) (parent : VfsInode)
    (name target : List (BitVec 8)) : Option (Bool × Ext2State) :=
  match parent.privateData with
  | none => some (false, st)
  | some _ =>
    let i := ext2AllocInode st.fs
    if i.1 = 0 then
      some (false, { st with fs := i.2 })
    else
      match placeTarget i.2 target with
      | (none, fs) => some (false, { st with fs := ext2FreeInode fs i.1 })
      | (some raw, fs) =>
        let w := ext2WriteInode fs i.1 raw
        if w.1 then
          if st.vfsFree = 0 ∨ 64 ≤ st.dataNext then
            some (false, { st with fs := dropTarget w.2 i.1 raw target })
          else
            (ext2AddEntry ⟨w.2, st.dataNext + 1, st.vfsFree - 1⟩ parent name
              (newLinkVfs i.1 target)).map (fun r => (r.1, r.2.2.2))
        else
          some (false, { st with fs := dropTarget w.2 i.1 raw target })

/-- `ext2_link`: whether it succeeds, and the state. -/
def ext2Link (st : Ext2State) (parent : VfsInode) (name : List (BitVec 8))
    (existing : VfsInode) : Option (Bool × Ext2State) :=
  match existing.privateData with
  | none => some (false, st)
  | some no =>
    match ext2ReadInode st.fs no with
    | (none, fs) => some (false, { st with fs := fs })
    | (some raw, fs) =>
      let w := ext2WriteInode fs no raw.addLink
      if w.1 then
        match ext2AddEntry { st with fs := w.2 } parent name existing with
        | none => none
        | some (true, _, _, st) => some (true, st)
        | some (false, _, _, st) =>
          some (false, { st with fs := (ext2WriteInode st.fs no raw.addLink.dropLink).2 })
      else
        some (false, { st with fs := w.2 })

end Ext2
end Homunculos
