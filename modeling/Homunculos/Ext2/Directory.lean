import Homunculos.Ext2.Dirent
import Homunculos.Ext2.FileWrite

/-!
# Directories

`ext2_lookup`, `ext2_add_entry` and `ext2_remove_entry`.  Each of them goes over
the blocks of a directory and over the records of each block, and stops at the
first record that it wants; the loops are one `scanDir` with different visitors.
A scan that comes to a record of length 0 leaves the block and, if it is not behind
the size yet, reads the same record again and again, so a scan may not return.
-/

namespace Homunculos
namespace Ext2

open Bytes Block Tiling

universe u

/-- How the scan of a directory ends. -/
inductive ScanEnd (γ : Type u) where
  | done
  | failed
  | found (phys o : Nat) (x : γ)

/-- The inner loop: the records of the block in `ext2_buf`. -/
def scanBlock {γ : Type u} (fs : Ext2Fs) (visit : Dirent → Option γ)
    (blockOff : Nat) : Option (Option (Nat × γ)) :=
  scan (direntAt fs.buf) Dirent.recLen visit fs.blockSize (fs.blockSize + 1) blockOff

/-- The offset in the block at which the inner loop ends. -/
def blockStop {γ : Type u} (fs : Ext2Fs) (visit : Dirent → Option γ) (blockOff : Nat) : Nat :=
  stopAt (direntAt fs.buf) Dirent.recLen visit fs.blockSize (fs.blockSize + 1) blockOff

/-- The outer loop, from an offset of the directory on; `none` if `n` rounds are too few. -/
def scanDir {γ : Type u} (visit : Dirent → Option γ) :
    Nat → Ext2Fs → Ext2Inode → Nat → Option (ScanEnd γ × Ext2Fs)
  | 0, _, _, _ => none
  | n + 1, fs, raw, offset =>
    if raw.size ≤ offset then
      some (.done, fs)
    else
      let b := ext2InodeBmap fs raw (offset / fs.blockSize)
      if b.1 = 0 then
        scanDir visit n b.2 raw
          ((offset + (fs.blockSize - offset % fs.blockSize)) % 2 ^ 32)
      else
        let r := b.2.readBuf b.1
        if r.1 then
          match scanBlock r.2 visit (offset % fs.blockSize) with
          | none =>
            scanDir visit n r.2 raw
              ((offset / fs.blockSize * fs.blockSize +
                blockStop r.2 visit (offset % fs.blockSize)) % 2 ^ 32)
          | some none =>
            scanDir visit n r.2 raw ((offset / fs.blockSize + 1) * fs.blockSize % 2 ^ 32)
          | some (some (o, x)) => some (.found b.1 o x, r.2)
        else
          some (.failed, r.2)

/-- A live record with this name; gives its inode. -/
def nameIs (name : List (BitVec 8)) (d : Dirent) : Option Nat :=
  if d.inode = 0 then
    none
  else if d.name = name then
    some d.inode
  else
    none

/-- The file system with `ext2_data_pool_next` and the free slots of `vfs_inodes`. -/
structure Ext2State where
  fs : Ext2Fs
  dataNext : Nat
  vfsFree : Nat

/-- `i_type` that `ext2_lookup` derives from the mode. -/
def typeOf (mode : Nat) : InodeType :=
  if mode / 0x1000 % 16 = 0x4 then .dir
  else if mode / 0x1000 % 16 = 0xA then .symlink
  else if mode / 0x1000 % 16 = 0x2 then .chr
  else if mode / 0x1000 % 16 = 0x6 then .blk
  else .file

/-- The operations that go with a type. -/
def opsOf : InodeType → InodeOps
  | .dir => .dir
  | .symlink => .symlink
  | .file => .file
  | .chr => .file
  | .blk => .file

/-- The inode in memory that `ext2_lookup` sets up. -/
def childInode (inodeNo : Nat) (raw : Ext2Inode) : VfsInode where
  iNo := inodeNo
  iSize := raw.size
  iType := typeOf raw.mode
  iMode := raw.mode
  ops := some (opsOf (typeOf raw.mode))
  privateData := some inodeNo
  iRdev := if typeOf raw.mode = .chr ∨ typeOf raw.mode = .blk then raw.block 0 else 0

/-- The scan of `ext2_lookup`: the inode number for a name. -/
def findEntry (fs : Ext2Fs) (raw : Ext2Inode)
    (name : List (BitVec 8)) : Option (Option Nat × Ext2Fs) :=
  match scanDir (nameIs name) (raw.size + 1) fs raw 0 with
  | none => none
  | some (.found _ _ inodeNo, fs) => some (some inodeNo, fs)
  | some (.done, fs) => some (none, fs)
  | some (.failed, fs) => some (none, fs)

def ext2Lookup (st : Ext2State) (dir : VfsInode)
    (name : List (BitVec 8)) : Option (Option VfsInode × Ext2State) :=
  match dir.privateData with
  | none => some (none, st)
  | some dirNo =>
    match ext2ReadInode st.fs dirNo with
    | (none, fs) => some (none, { st with fs := fs })
    | (some raw, fs) =>
      match findEntry fs raw name with
      | none => none
      | some (none, fs) => some (none, { st with fs := fs })
      | some (some inodeNo, fs) =>
        match ext2ReadInode fs inodeNo with
        | (none, fs) => some (none, { st with fs := fs })
        | (some rawChild, fs) =>
          if 64 ≤ st.dataNext then
            some (none, { st with fs := fs })
          else if st.vfsFree = 0 then
            some (none, { st with fs := fs, dataNext := st.dataNext + 1 })
          else
            some (some (childInode inodeNo rawChild),
              { fs := fs, dataNext := st.dataNext + 1, vfsFree := st.vfsFree - 1 })

/-- The inode that `ext2_add_entry` makes for a new file. -/
def newInode (mode : Nat) : Ext2Inode :=
  (Ext2Inode.zero.setMode mode).setLinks 1

/-- An entry without an inode on the device gets one; `none` is a failure. -/
def backEntry (st : Ext2State) (entry : VfsInode) : Option Nat × VfsInode × Ext2State :=
  match entry.privateData with
  | some inodeNo => (some inodeNo, entry, st)
  | none =>
    let a := ext2AllocInode st.fs
    if a.1 = 0 then
      (none, entry, { st with fs := a.2 })
    else
      let w := ext2WriteInode a.2 a.1 (newInode entry.iMode)
      if w.1 then
        if 64 ≤ st.dataNext then
          (none, entry, { st with fs := ext2FreeInode w.2 a.1 })
        else
          (some a.1, { entry with privateData := some a.1, iNo := a.1, ops := some .file },
            { st with fs := w.2, dataNext := st.dataNext + 1 })
      else
        (none, entry, { st with fs := ext2FreeInode w.2 a.1 })

/-- The inode of the directory with a new size. -/
def resized (fs : Ext2Fs) (raw : Ext2Inode) (size : Nat) : Ext2Inode :=
  let raw := raw.setSize size
  raw.setBlocks (fs.blocksFor raw.size * (fs.blockSize / 512))

/-- A new block with the new record only. -/
def appendBlock (fs : Ext2Fs) (dirNo : Nat) (raw : Ext2Inode) (inodeNo : Nat)
    (name : List (BitVec 8)) : Bool × Option Nat × Ext2Fs :=
  let a := ext2AllocBlock fs
  if a.1 = 0 then
    (false, none, a.2)
  else
    let s := ext2SetBmap a.2 raw (raw.size / fs.blockSize) a.1
    if s.1 then
      let zeroed := fun q => if q < fs.blockSize then 0#8 else s.2.2.buf q
      let w := (s.2.2.withBuf (putDirent zeroed 0 inodeNo fs.blockSize name)).writeBuf a.1
      if w.1 then
        let raw := resized fs s.2.1 (raw.size + fs.blockSize)
        (true, some raw.size, (ext2WriteInode w.2 dirNo raw).2)
      else
        (false, none, w.2)
    else
      (false, none, ext2FreeBlock s.2.2 a.1)

/-- The new record is written where room was found. -/
def useRoom (fs : Ext2Fs) (dirNo : Nat) (raw : Ext2Inode) (inodeNo : Nat) (name : List (BitVec 8))
    (phys o : Nat) (room : Room) : Bool × Option Nat × Ext2Fs :=
  let raw := resized fs raw (raw.size + needRecLen name)
  let w := (fs.withBuf (fillRoom fs.buf o inodeNo name room)).writeBuf phys
  if w.1 then
    let i := ext2WriteInode w.2 dirNo raw
    (i.1, some raw.size, i.2)
  else
    -- for a dead record the size in memory is set before the write
    match room with
    | .dead _ _ => (false, some raw.size, w.2)
    | .live _ _ => (false, none, w.2)

/--
The second half of `ext2_add_entry`: whether it succeeds, the new `i_size` of the
directory if it is set, and the file system.
-/
def insertEntry (fs : Ext2Fs) (dirNo : Nat) (raw : Ext2Inode) (inodeNo : Nat)
    (name : List (BitVec 8)) : Option (Bool × Option Nat × Ext2Fs) :=
  match scanDir (roomIn (needRecLen name)) (raw.size + 1) fs raw 0 with
  | none => none
  | some (.failed, fs) => some (false, none, fs)
  | some (.found phys o room, fs) => some (useRoom fs dirNo raw inodeNo name phys o room)
  | some (.done, fs) => some (appendBlock fs dirNo raw inodeNo name)

/-- `ext2_add_entry`: whether it succeeds, the directory, the entry and the state. -/
def ext2AddEntry (st : Ext2State) (dir : VfsInode) (name : List (BitVec 8))
    (entry : VfsInode) : Option (Bool × VfsInode × VfsInode × Ext2State) :=
  match dir.privateData with
  | none => some (false, dir, entry, st)
  | some dirNo =>
    match ext2ReadInode st.fs dirNo with
    | (none, fs) => some (false, dir, entry, { st with fs := fs })
    | (some raw, fs) =>
      match backEntry { st with fs := fs } entry with
      | (none, entry, st) => some (false, dir, entry, st)
      | (some inodeNo, entry, st) =>
        match insertEntry st.fs dirNo raw inodeNo name with
        | none => none
        | some (ok, size, fs) =>
          some (ok, { dir with iSize := size.getD dir.iSize }, entry, { st with fs := fs })

/-- `ext2_remove_entry`: whether it succeeds. -/
def ext2RemoveEntry (fs : Ext2Fs) (dir : VfsInode)
    (name : List (BitVec 8)) : Option (Bool × Ext2Fs) :=
  match dir.privateData with
  | none => some (false, fs)
  | some dirNo =>
    match ext2ReadInode fs dirNo with
    | (none, fs) => some (false, fs)
    | (some raw, fs) =>
      match scanDir (nameIs name) (raw.size + 1) fs raw 0 with
      | none => none
      | some (.found phys o _, fs) => some ((fs.withBuf (putU32 fs.buf o 0)).writeBuf phys)
      | some (.done, fs) => some (false, fs)
      | some (.failed, fs) => some (false, fs)

/-- An inode in use that is a directory. -/
def Ext2Fs.Dir (fs : Ext2Fs) (d : Nat) : Prop :=
  d ∈ usedNumbers .inode fs ∧ (fs.inodeOf d).mode / 0x1000 % 16 = 0x4

/-- The names of a directory with their inodes, over its twelve direct blocks. -/
def dirBindings (ents : Nat → List Dirent) : List (List (BitVec 8) × Nat) :=
  (List.range 12).flatMap (fun i => bindings (ents i))

/--
A directory with its records: at most twelve blocks, each mapped block tiled by
records, and no name twice.
-/
structure DirTiled (v : View) (raw : Ext2Inode) (ents : Nat → List Dirent) : Prop where
  size_le : raw.size ≤ 12 * v.blockSize
  records : ∀ i, i < 12 → raw.block i ≠ 0 →
    Records (v.data (raw.block i)) 0 v.blockSize (ents i)
  holes : ∀ i, i < 12 → raw.block i = 0 → ents i = []
  names : ((dirBindings ents).map Prod.fst).Nodup

/-- The mapped blocks are also different data blocks in use, all of them inside the size. -/
structure DirOk (v : View) (raw : Ext2Inode)
    (ents : Nat → List Dirent) : Prop extends DirTiled v raw ents where
  within : ∀ i, i < 12 → raw.block i ≠ 0 → (i + 1) * v.blockSize ≤ raw.size
  owns : OwnsDirect v raw

/-- A directory with its records, in which a name may be there more than once. -/
structure DirLaid (v : View) (raw : Ext2Inode) (ents : Nat → List Dirent) : Prop where
  size_le : raw.size ≤ 12 * v.blockSize
  records : ∀ i, i < 12 → raw.block i ≠ 0 →
    Records (v.data (raw.block i)) 0 v.blockSize (ents i)
  holes : ∀ i, i < 12 → raw.block i = 0 → ents i = []
  within : ∀ i, i < 12 → raw.block i ≠ 0 → (i + 1) * v.blockSize ≤ raw.size
  owns : OwnsDirect v raw

theorem DirOk.laid {v : View} {raw : Ext2Inode} {ents : Nat → List Dirent} (h : DirOk v raw ents) :
    DirLaid v raw ents :=
  ⟨h.size_le, h.records, h.holes, h.within, h.owns⟩

theorem DirLaid.ok {v : View} {raw : Ext2Inode} {ents : Nat → List Dirent} (h : DirLaid v raw ents)
    (hnames : ((dirBindings ents).map Prod.fst).Nodup) :
    DirOk v raw ents :=
  ⟨⟨h.size_le, h.records, h.holes, hnames⟩, h.within, h.owns⟩

/-- The first record of a directory that the visitor wants. -/
def dirHit {γ : Type u} (visit : Dirent → Option γ)
    (ents : Nat → List Dirent) : List Nat → Option (Nat × Nat × γ)
  | [] => none
  | i :: is =>
    match firstHit Dirent.recLen visit 0 (ents i) with
    | some (o, x) => some (i, o, x)
    | none => dirHit visit ents is

section Hits

variable {γ : Type u} {visit : Dirent → Option γ} {ents : Nat → List Dirent}

theorem dirHit_eq_none {is : List Nat} :
    dirHit visit ents is = none ↔ ∀ i ∈ is, ∀ d ∈ ents i, visit d = none := by
  induction is with
  | nil => simp [dirHit]
  | cons i is ih =>
    cases hi : firstHit Dirent.recLen visit 0 (ents i) with
    | some ox =>
      have hne : ¬ ∀ d ∈ ents i, visit d = none := by
        intro hall
        have hnone : firstHit Dirent.recLen visit 0 (ents i) = none := firstHit_eq_none.mpr hall
        rw [hi] at hnone
        cases hnone
      simp [dirHit, hi, hne]
    | none =>
      have hall := firstHit_eq_none.mp hi
      simp only [dirHit, hi, ih, List.forall_mem_cons]
      exact ⟨fun h => ⟨hall, h⟩, fun h => h.2⟩

theorem dirHit_eq_some
    {is : List Nat} {i o : Nat} {x : γ} (h : dirHit visit ents is = some (i, o, x)) :
    firstHit Dirent.recLen visit 0 (ents i) = some (o, x) ∧
      ∃ before behind, is = before ++ i :: behind ∧
        ∀ j ∈ before, ∀ d ∈ ents j, visit d = none := by
  induction is with
  | nil => cases h
  | cons j is ih =>
    rw [dirHit] at h
    cases hj : firstHit Dirent.recLen visit 0 (ents j) with
    | some oy =>
      rw [hj] at h
      obtain ⟨rfl, rfl, rfl⟩ := h
      exact ⟨hj, [], is, rfl, by simp⟩
    | none =>
      rw [hj] at h
      obtain ⟨hhit, before, behind, his, hskipped⟩ := ih h
      refine ⟨hhit, j :: before, behind, ?_, ?_⟩
      · rw [his, List.cons_append]
      · exact List.forall_mem_cons.mpr ⟨firstHit_eq_none.mp hj, hskipped⟩

end Hits

section Scan

variable {γ : Type u} {fs : Ext2Fs} {v : View} {raw : Ext2Inode} {ents : Nat → List Dirent}

/-- The outcome of a scan that has found what `dirHit` says. -/
def endOf (raw : Ext2Inode) : Option (Nat × Nat × γ) → ScanEnd γ
  | none => .done
  | some (i, o, x) => .found (raw.block i) o x

theorem DirLaid.scanBlock_eq
    (h : DirLaid v raw ents) (hbs : fs.blockSize = v.blockSize) (visit : Dirent → Option γ)
    {i : Nat} (hi : i < 12) (hne : raw.block i ≠ 0) {buf : Nat → BitVec 8}
    (hbuf : ∀ q, q < v.blockSize → buf q = v.data (raw.block i) q) :
    scanBlock (fs.withBuf buf) visit 0 =
      some (firstHit Dirent.recLen visit 0 (ents i)) := by
  have hrecords := (h.records i hi hne).congr (fun q _ hq => hbuf q hq)
  have hlength := hrecords.tiled.length_le
  change scan (direntAt buf) Dirent.recLen visit fs.blockSize (fs.blockSize + 1) 0 = _
  rw [hbs]
  exact hrecords.tiled.scan_eq (by omega)

/--
The scan of a directory comes to its end, with the first hit, and the block of the
hit is then in `ext2_buf`.
-/
theorem DirLaid.scanDir_eq
    (h : DirLaid v raw ents) (hshows : Shows fs v) (visit : Dirent → Option γ) {n i k : Nat}
    (hik : i + k = 12) (hn : raw.size < n + i * v.blockSize) (hn0 : 0 < n) (buf : Nat → BitVec 8) :
    ∃ buf', scanDir visit n (fs.withBuf buf) raw (i * v.blockSize) =
        some (endOf raw (dirHit visit ents (List.range' i k)), fs.withBuf buf') ∧
      ∀ j o x, dirHit visit ents (List.range' i k) = some (j, o, x) →
        ∀ q, q < v.blockSize → buf' q = v.data (raw.block j) q := by
  have hi := hshows.volume.inOrder
  have hbs : fs.blockSize = v.blockSize := hshows.blockSize.symm
  have hbpos : 0 < v.blockSize := hbs ▸ hi.layout.blockSize.pos
  have hble : v.blockSize ≤ 4096 := hbs ▸ hi.layout.blockSize_le
  induction k generalizing n i buf with
  | zero =>
    -- all twelve blocks have been looked at
    obtain ⟨m, rfl⟩ : ∃ m, n = m + 1 := ⟨n - 1, by omega⟩
    have hi12 : i = 12 := by omega
    subst hi12
    refine ⟨buf, ?_, ?_⟩
    · rw [scanDir, if_pos h.size_le]
      rfl
    · intro j o x hhit
      cases hhit
  | succ k ih =>
    obtain ⟨m, rfl⟩ : ∃ m, n = m + 1 := ⟨n - 1, by omega⟩
    have hi12 : i < 12 := by omega
    have hmul : (i + 1) * v.blockSize = i * v.blockSize + v.blockSize := Nat.succ_mul _ _
    have hsmall : (i + 1) * v.blockSize ≤ 12 * 4096 := Nat.mul_le_mul (by omega) hble
    rw [scanDir]
    by_cases hend : raw.size ≤ i * v.blockSize
    · -- the blocks behind the size are not mapped
      have hnone : dirHit visit ents (List.range' i (k + 1)) = none := by
        rw [dirHit_eq_none]
        intro j hj d hd
        obtain ⟨hij, hjk⟩ := List.mem_range'_1.mp hj
        have hzero : raw.block j = 0 := by
          by_contra hne
          have hwithin := h.within j (by omega) hne
          have hmono : (i + 1) * v.blockSize ≤ (j + 1) * v.blockSize :=
            Nat.mul_le_mul_right _ (by omega)
          omega
        rw [h.holes j (by omega) hzero] at hd
        exact absurd hd List.not_mem_nil
      rw [hnone, if_pos hend]
      exact ⟨buf, rfl, fun j o x hhit => by cases hhit⟩
    · rw [if_neg hend]
      have hdiv : i * v.blockSize / v.blockSize = i := Nat.mul_div_cancel i hbpos
      have hmod : i * v.blockSize % v.blockSize = 0 := Nat.mul_mod_left i v.blockSize
      obtain ⟨buf1, hbmap⟩ : ∃ buf1, ext2InodeBmap (fs.withBuf buf) raw i =
          (bmapOf (fs.withBuf buf) raw i, fs.withBuf buf1) :=
        bmap_spec (show BlockSizeOk (fs.withBuf buf) from hi.layout.blockSize) hi.healthy raw i
      rw [bmapOf_direct hi12] at hbmap
      have hbs' : (fs.withBuf buf).blockSize = v.blockSize := hbs
      rw [hbs', hdiv, hmod, hbmap, List.range'_succ]
      by_cases hzero : raw.block i = 0
      · rw [if_pos hzero, Nat.sub_zero, show (i * v.blockSize + v.blockSize) % 2 ^ 32 =
          (i + 1) * v.blockSize by omega]
        have hskip : dirHit visit ents (i :: List.range' (i + 1) k) =
            dirHit visit ents (List.range' (i + 1) k) := by
          rw [dirHit, h.holes i hi12 hzero]
          rfl
        rw [hskip]
        exact ih (by omega) (by omega) (by omega) buf1
      · have hread := readBuf_healthy (fs.withBuf buf1) hi.healthy (raw.block i)
        have hdata : fs.DataBlock (raw.block i) :=
          (hshows.dataBlocks _).mp (h.owns.data i hi12 hzero)
        obtain ⟨buf2, hbuf2⟩ :
            ∃ b, ((fs.withBuf buf1).readBuf (raw.block i)).2.buf = b := ⟨_, rfl⟩
        have hfs2 : ((fs.withBuf buf1).readBuf (raw.block i)).2 = fs.withBuf buf2 := by
          rw [← hbuf2]
          rfl
        have hbytes : ∀ q, q < v.blockSize → buf2 q = v.data (raw.block i) q := by
          intro q hq
          rw [← hbs] at hq
          rw [← hbuf2, hshows.data _ q hdata hq]
          exact readBuf_done (fs.withBuf buf1) hi.layout.blockSize hread hq
        rw [if_neg hzero, if_pos hread, hfs2, h.scanBlock_eq hbs visit hi12 hzero hbytes]
        cases hhit : firstHit Dirent.recLen visit 0 (ents i) with
        | some ox =>
          obtain ⟨o, x⟩ := ox
          have hdirHit : dirHit visit ents (i :: List.range' (i + 1) k) = some (i, o, x) := by
            rw [dirHit, hhit]
          rw [hdirHit]
          refine ⟨buf2, rfl, ?_⟩
          intro j o' x' heq
          obtain ⟨rfl, -, -⟩ := heq
          exact hbytes
        | none =>
          have hskip : dirHit visit ents (i :: List.range' (i + 1) k) =
              dirHit visit ents (List.range' (i + 1) k) := by
            rw [dirHit, hhit]
          rw [hskip]
          rw [show (i + 1) * v.blockSize % 2 ^ 32 = (i + 1) * v.blockSize by omega]
          exact ih (by omega) (by omega) (by omega) buf2

end Scan

end Ext2
end Homunculos
