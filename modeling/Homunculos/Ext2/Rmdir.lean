import Homunculos.Ext2.FailedCalls

/-!
# Which directories `ext2_rmdir` removes

`ext2_rmdir` does not go over the records of the directory.  It looks at the link count
and at one record, the second one of the first block, and takes a length of more than 12
for a sign of further entries.  In a directory that `ext2_mkdir` has made this record
reaches to the end of the block; it is cut to 12 bytes when the first entry is added.
-/

namespace Homunculos
namespace Ext2

open Bytes Block Tiling

/-- A volume whose inodes can be read: its tables are laid out and the device has no errors. -/
structure Legible (fs : Ext2Fs) : Prop where
  layout : Layout fs
  geometry : Geometry .inode fs
  healthy : fs.dev.Healthy
  inodes : ∀ n, fs.IsInode n → fs.inodePos n + 128 ≤ fs.blockSize

/-- A name of a directory. -/
abbrev Name := List (BitVec 8)

/-- The records of a block. -/
def recordsIn (m : Nat → BitVec 8) (bs : Nat) : List Dirent :=
  tilesFrom (direntAt m) Dirent.recLen bs (bs + 1) 0

namespace Ext2Fs

/-- The live entries of a directory, block after block up to its size. -/
def liveEntries (fs : Ext2Fs) (d : Nat) : List (Name × Nat) :=
  (List.range (fs.blocksFor (fs.inodeOf d).size)).flatMap (fun i =>
    if bmapOf fs (fs.inodeOf d) i = 0 then []
    else bindings (recordsIn (fs.diskByte (bmapOf fs (fs.inodeOf d) i)) fs.blockSize))

/-- A number of an inode that is a directory. -/
def IsDirNo (fs : Ext2Fs) (e : Nat) : Prop :=
  fs.IsInode e ∧ (fs.inodeOf e).mode / 0x1000 % 16 = 0x4

/-- Every live entry, in whatever block, is `.` or `..`. -/
def OnlyDots (fs : Ext2Fs) (e : Nat) : Prop :=
  ∀ b ∈ fs.liveEntries e, b.1 = dot ∨ b.1 = dotdot

/-- The record behind the one of `.` in the first block. -/
def secondRecord (fs : Ext2Fs) (e : Nat) : Dirent :=
  direntAt (fs.diskByte ((fs.inodeOf e).block 0)) 12

/-- What `ext2_rmdir` takes for an empty directory. -/
def LooksEmpty (fs : Ext2Fs) (e : Nat) : Prop :=
  (fs.inodeOf e).links ≤ 2 ∧
    ((fs.inodeOf e).block 0 = 0 ∨ (fs.secondRecord e).recLen ≤ 12 ∨ (fs.secondRecord e).inode = 0)

end Ext2Fs

/--
The call returns, it succeeds exactly if the name stands for a directory without entries
of its own, and if it fails the file system is as it was.
-/
def RmdirRight (fs : Ext2Fs) (parent : VfsInode) (name : Name) (child : Option Nat) : Prop :=
  ∃ ok fs', ext2Rmdir fs parent name = some (ok, fs') ∧
    (ok = true ↔ ∃ e, child = some e ∧ fs.IsDirNo e ∧ fs.OnlyDots e) ∧
    (ok = false → Near fs fs')

section Reading

variable {fs f : Ext2Fs} {e n : Nat}

theorem Legible.readInode (h : Legible fs) (hnear : Near fs f) (hn : fs.IsInode n) :
    ∃ f', ext2ReadInode f n = (some (fs.inodeOf n), f') ∧ Near fs f' := by
  obtain ⟨hfirst, hnear'⟩ := hnear.readInode n
  obtain ⟨buf, hread⟩ := readInode_spec h.layout.blockSize h.healthy hn (h.inodes n hn)
  rw [hread] at hfirst
  exact ⟨(ext2ReadInode f n).2, Prod.ext hfirst rfl, hnear'⟩

theorem readInode_outside (hnear : Near fs f) (hn : ¬ fs.IsInode n) :
    ext2ReadInode f n = (none, f) := by
  apply readInode_of_not_isInode
  rw [hnear.same]
  exact hn

theorem bmap_direct (fs : Ext2Fs) (raw : Ext2Inode) {i : Nat} (hi : i < 12) :
    ext2InodeBmap fs raw i = (raw.block i, fs) := by
  unfold ext2InodeBmap
  rw [route_direct hi]
  rfl

theorem direntAt_head_congr {m m' : Nat → BitVec 8} {o : Nat} (h : ∀ q, q < o + 6 → m q = m' q) :
    (direntAt m o).inode = (direntAt m' o).inode ∧
      (direntAt m o).recLen = (direntAt m' o).recLen := by
  have hat : ∀ k, k < 6 → m (o + k) = m' (o + k) := fun k hk => h _ (by omega)
  refine ⟨?_, ?_⟩
  · exact u32_congr (fun k hk => hat k (by omega))
  · exact u16_congr (fun k hk => by rw [Nat.add_assoc]; exact hat _ (by omega))

/-- The test of `ext2_rmdir`, as the disk decides it. -/
theorem Legible.emptyDir (h : Legible fs) (hnear : Near fs f) (e : Nat) :
    ∃ ok f', Ext2.emptyDir f e = (ok, f') ∧ Near fs f' ∧
      (ok = true ↔ fs.IsDirNo e ∧ fs.LooksEmpty e) := by
  unfold Ext2.emptyDir
  by_cases he : fs.IsInode e
  · obtain ⟨f1, hread, hnear1⟩ := h.readInode hnear he
    rw [hread]
    dsimp only
    by_cases hbad : (fs.inodeOf e).mode / 0x1000 % 16 ≠ 0x4 ∨ 2 < (fs.inodeOf e).links
    · rw [if_pos hbad]
      refine ⟨_, _, rfl, hnear1, iff_of_false Bool.false_ne_true ?_⟩
      rintro ⟨⟨-, hmode⟩, hlinks, -⟩
      rcases hbad with hne | hlt
      · exact hne hmode
      · omega
    rw [if_neg hbad, bmap_direct _ _ (by decide)]
    push Not at hbad
    have hdir : fs.IsDirNo e := ⟨he, hbad.1⟩
    by_cases hzero : (fs.inodeOf e).block 0 = 0
    · rw [if_pos hzero]
      exact ⟨_, _, rfl, hnear1, iff_of_true rfl ⟨hdir, hbad.2, Or.inl hzero⟩⟩
    rw [if_neg hzero]
    have hok := readBuf_healthy fs h.healthy ((fs.inodeOf e).block 0)
    obtain ⟨hok1, hnear2, hsame⟩ := hnear1.readBuf ((fs.inodeOf e).block 0)
    rw [if_pos (hok1.trans hok)]
    refine ⟨_, _, rfl, hnear2, ?_⟩
    have hbytes : ∀ q, q < 12 + 6 → (f1.readBuf ((fs.inodeOf e).block 0)).2.buf q =
        fs.diskByte ((fs.inodeOf e).block 0) q := by
      intro q hq
      have hge : 1024 ≤ fs.blockSize := by
        rcases h.layout.blockSize with hbs | hbs | hbs
        · omega
        · omega
        · omega
      rw [hsame hok]
      exact readBuf_done fs h.layout.blockSize hok (by omega)
    obtain ⟨hinode, hlen⟩ := direntAt_head_congr hbytes
    rw [decide_eq_true_iff, hinode, hlen]
    constructor
    · intro hshort
      refine ⟨hdir, hbad.2, Or.inr ?_⟩
      by_contra hlong
      push Not at hlong
      exact hshort hlong
    · rintro ⟨-, -, hfirst | hshort⟩ ⟨hlong, hlive⟩
      · exact hzero hfirst
      · rcases hshort with hle | hdead
        · exact absurd hlong (Nat.not_lt.mpr hle)
        · exact hlive hdead
  · rw [readInode_outside hnear he]
    refine ⟨_, _, rfl, hnear, iff_of_false Bool.false_ne_true ?_⟩
    rintro ⟨⟨hin, -⟩, -⟩
    exact he hin

end Reading

section Removing

variable {fs f : Ext2Fs} {parent : VfsInode} {name : Name} {d e : Nat}

theorem removeEntry_of_scan
    (hhealthy : fs.dev.Healthy) (hnear : Near fs f) (hparent : parent.privateData = some d)
    (hscan : lookupScan fs d name = some (some e)) :
    ∃ fs', ext2RemoveEntry f parent name = some (true, fs') ∧ fs'.dev.Healthy ∧ fs'.sb = fs.sb := by
  obtain ⟨hraw, hnear1⟩ := hnear.readInode d
  obtain ⟨-, hnear0⟩ := (Near.refl fs).readInode d
  unfold lookupScan at hscan
  unfold ext2RemoveEntry
  rw [hparent]
  dsimp only
  generalize ext2ReadInode f d = r at hraw hnear1 ⊢
  generalize ext2ReadInode fs d = r0 at hraw hnear0 hscan
  obtain ⟨raw, f1⟩ := r
  obtain ⟨_, f0⟩ := r0
  cases hraw
  cases raw with
  | none => cases hscan
  | some raw =>
    dsimp only at hscan ⊢
    -- the scan is the one of the lookup, whatever is in the buffer
    obtain ⟨hsame, hnear2⟩ : (scanDir (nameIs name) (raw.size + 1) f1 raw 0).map Prod.fst =
        (scanDir (nameIs name) (raw.size + 1) f0 raw 0).map Prod.fst ∧ _ :=
      scanDir_static (nameIs name) (raw.size + 1) hnear1 hnear0
    unfold findEntry at hscan
    generalize scanDir (nameIs name) (raw.size + 1) f1 raw 0 = s1 at hsame hnear2 ⊢
    generalize scanDir (nameIs name) (raw.size + 1) f0 raw 0 = s0 at hsame hscan
    cases s0 with
    | none => cases hscan
    | some s0 =>
      cases s1 with
      | none => cases hsame
      | some s1 =>
        obtain ⟨scanEnd, f2⟩ := s1
        obtain ⟨_, f3⟩ := s0
        cases hsame
        have hf2 : f2.dev = fs.dev ∧ f2.sb = fs.sb := by
          have hback := (hnear2 _ rfl).same
          have hback' : f2 = fs.withBuf f2.buf := hback
          rw [hback']
          exact ⟨rfl, rfl⟩
        cases scanEnd with
        | done => cases hscan
        | failed => cases hscan
        | found phys o no =>
          have hdev : (f2.withBuf (putU32 f2.buf o 0)).dev.Healthy := by
            change f2.dev.Healthy
            rw [hf2.1]
            exact hhealthy
          obtain ⟨hok, hhealthy'⟩ := writeBuf_healthy _ hdev phys
          exact ⟨_, congrArg some (Prod.ext hok rfl), hhealthy', hf2.2⟩

/-- The scan of `ext2_rmdir` in its parent. -/
theorem findEntry_of_scan
    (fs : Ext2Fs) {child : Option Nat} (hscan : lookupScan fs d name = some child) :
    (∃ f, ext2ReadInode fs d = (none, f) ∧ Near fs f ∧ child = none) ∨
      ∃ raw f f', ext2ReadInode fs d = (some raw, f) ∧ findEntry f raw name = some (child, f') ∧
        Near fs f' := by
  obtain ⟨-, hnear⟩ := (Near.refl fs).readInode d
  unfold lookupScan at hscan
  generalize ext2ReadInode fs d = r at hnear hscan
  obtain ⟨raw, f⟩ := r
  cases raw with
  | none =>
    cases hscan
    exact Or.inl ⟨f, rfl, hnear, rfl⟩
  | some raw =>
    right
    obtain ⟨⟨_, f'⟩, hfind, hchild⟩ := Option.map_eq_some_iff.mp hscan
    cases hchild
    exact ⟨raw, f, f', rfl, hfind, (findEntry_static raw name hnear hnear).2 _ hfind⟩

/-- `ext2_rmdir` succeeds exactly for the directories that look empty. -/
theorem Legible.rmdir (h : Legible fs) (hparent : parent.privateData = some d) {child : Option Nat}
    (hscan : lookupScan fs d name = some child) :
    ∃ ok fs', ext2Rmdir fs parent name = some (ok, fs') ∧
      (ok = true ↔ ∃ e, child = some e ∧ fs.IsDirNo e ∧ fs.LooksEmpty e) ∧
      (ok = false → Near fs fs') := by
  unfold ext2Rmdir
  rw [hparent]
  dsimp only
  rcases findEntry_of_scan fs hscan with
    ⟨f, hread, hnear, rfl⟩ | ⟨raw, f, f', hread, hfind, hnear⟩
  · rw [hread]
    exact ⟨_, _, rfl, iff_of_false Bool.false_ne_true (by rintro ⟨e, he, -⟩; cases he),
      fun _ => hnear⟩
  rw [hread]
  dsimp only
  rw [hfind]
  cases child with
  | none =>
    exact ⟨_, _, rfl, iff_of_false Bool.false_ne_true (by rintro ⟨e, he, -⟩; cases he),
      fun _ => hnear⟩
  | some e =>
    obtain ⟨ok, f1, hempty, hnear1, hok⟩ := h.emptyDir hnear e
    have hiff : (∃ e', some e = some e' ∧ fs.IsDirNo e' ∧ fs.LooksEmpty e') ↔
        fs.IsDirNo e ∧ fs.LooksEmpty e := by
      constructor
      · rintro ⟨_, ⟨⟩, hdir⟩
        exact hdir
      · intro hdir
        exact ⟨e, rfl, hdir⟩
    rw [hiff]
    dsimp only
    rw [hempty]
    cases ok with
    | false => exact ⟨_, _, rfl, hok, fun _ => hnear1⟩
    | true =>
      obtain ⟨⟨he, -⟩, -⟩ := hok.mp rfl
      obtain ⟨f2, hremove, hhealthy, hsb⟩ := removeEntry_of_scan h.healthy hnear1 hparent hscan
      have he2 : ¬ (e = 0 ∨ f2.sb.inodesCount < e) := by
        rw [hsb]
        exact not_isInode he
      obtain ⟨childRaw, f3, hchild⟩ := readInode_healthy hhealthy he2
      rw [hremove]
      dsimp only
      rw [hchild]
      exact ⟨_, _, rfl, hok, fun hfalse => absurd hfalse.symm Bool.false_ne_true⟩

end Removing

/--
On a volume without device errors, for any directory and any name: `ext2_rmdir` succeeds
exactly for directories without entries of their own, and leaves everything alone when
it fails, if and only if the name does not stand for a directory or this directory looks
empty exactly when it is.
-/
theorem rmdir_right_iff
    (fs : Ext2Fs) (h : Legible fs) (parent : VfsInode) (d : Nat)
    (hparent : parent.privateData = some d) (name : Name) (child : Option Nat)
    (hscan : lookupScan fs d name = some child) :
    RmdirRight fs parent name child ↔
      ∀ e, child = some e → fs.IsDirNo e → (fs.LooksEmpty e ↔ fs.OnlyDots e) := by
  obtain ⟨ok, fs', hout, hok, hnear⟩ := h.rmdir hparent hscan
  constructor
  · rintro ⟨ok', fs'', hout', hok', -⟩ e rfl hdir
    rw [hout] at hout'
    cases hout'
    constructor
    · intro hlooks
      obtain ⟨_, ⟨⟩, -, hdots⟩ := hok'.mp (hok.mpr ⟨e, rfl, hdir, hlooks⟩)
      exact hdots
    · intro hdots
      obtain ⟨_, ⟨⟩, -, hlooks⟩ := hok.mp (hok'.mpr ⟨e, rfl, hdir, hdots⟩)
      exact hlooks
  · intro hagree
    refine ⟨ok, fs', hout, hok.trans ?_, hnear⟩
    constructor
    · rintro ⟨e, he, hdir, hlooks⟩
      exact ⟨e, he, hdir, (hagree e he hdir).mp hlooks⟩
    · rintro ⟨e, he, hdir, hdots⟩
      exact ⟨e, he, hdir, (hagree e he hdir).mpr hdots⟩

/-- The block of inode 12 as `ext2_mkdir` leaves it in the root directory. -/
def freshBlock : Nat → BitVec 8 :=
  putDirent (putDirent (fun _ => 0#8) 0 12 12 dot) 12 2 1012 dotdot

/-- The block of inode 12, with the file `f` if there is one; a removed record stays. -/
def usedBlock (file : Nat) : Nat → BitVec 8 :=
  putDirent (putDirent (putDirent (fun _ => 0#8) 0 12 12 dot) 12 2 12 dotdot) 24 file 1000 [0x66#8]

def rootBlock : Nat → BitVec 8 :=
  putDirent (putDirent (putDirent (fun _ => 0#8) 0 2 12 dot) 12 2 12 dotdot) 24 12 1000 [0x64#8]

/-- A directory of one block. -/
def dirRaw (links b : Nat) : Ext2Inode :=
  (((Ext2Inode.zero.setMode 0x41ED).setLinks links).setSize 1024).setBlock 0 b

/-- The small image with the directory `d`, inode 12, which has a fresh block or one with `f`. -/
def childFs (block : Nat → BitVec 8) : Ext2Fs where
  dev :=
    { data := fun s j =>
        if s = 2 then smallSb j
        else if s = 4 then smallDesc j
        else if s = 10 ∧ 128 ≤ j ∧ j < 256 then (dirRaw 3 7).bytes (j - 128)
        else if s = 12 ∧ 384 ≤ j ∧ j < 512 then (dirRaw 2 8).bytes (j - 384)
        else if s = 14 then rootBlock j
        else if s = 15 then rootBlock (512 + j)
        else if s = 16 then block j
        else if s = 17 then block (512 + j)
        else 0xFF#8
      readOk := fun _ => true
      writeOk := fun _ => true }
  buf := fun _ => 0#8
  sb := ⟨smallSb⟩
  blockSize := 1024
  bgdescBlock := 2
  bgdescCount := 1

theorem childFs_legible (block : Nat → BitVec 8)
    (hinj : ∀ a ∈ smallAreas, ∀ b ∈ smallAreas,
      (childFs block).blockLba (a.blockNo (childFs block)) =
        (childFs block).blockLba (b.blockNo (childFs block)) → a = b) :
    Legible (childFs block) := by
  have hgeometry : Geometry .inode (childFs block) := by
    have hsb : (childFs block).sb = ⟨smallSb⟩ := rfl
    refine ⟨?_, ?_, ?_, ?_⟩
    all_goals rw [hsb]
    · decide
    · change 16 ≤ 8 * 1024
      decide
    · change (1 - 1) * 16 ≤ 16
      decide
    · change 16 ≤ 1 * 16
      decide
  refine ⟨layout_of_one_group rfl (Or.inl rfl) hinj, hgeometry, ⟨fun _ => rfl, fun _ => rfl⟩, ?_⟩
  have hpos : ∀ n, n < 17 → (childFs fun _ => 0#8).inodePos n + 128 ≤ 1024 := by decide +kernel
  have hcount : (childFs block).sb.inodesCount = 16 := by
    change Kind.inode.count ⟨smallSb⟩ = 16
    decide +kernel
  intro n hn
  have hle := hn.2
  exact hpos n (by omega)

/-- The directory has had the file `f`, which is removed, and is removed now. -/
theorem rmdir_right_iff_used :
    RmdirRight (childFs (usedBlock 0)) (fullDir 1024) [0x64#8] (some 12) := by
  have hscan : lookupScan (childFs (usedBlock 0)) 2 [0x64#8] = some (some 12) := by decide +kernel
  have hlegible := childFs_legible (usedBlock 0) (by decide +kernel)
  refine (rmdir_right_iff _ hlegible (fullDir 1024) 2 rfl [0x64#8] (some 12) hscan).mpr ?_
  rintro e ⟨⟩ -
  have hlinks : ((childFs (usedBlock 0)).inodeOf 12).links ≤ 2 ∧
      ((childFs (usedBlock 0)).secondRecord 12).recLen ≤ 12 := by
    decide +kernel
  have hdots : ∀ b ∈ (childFs (usedBlock 0)).liveEntries 12, b.1 = dot ∨ b.1 = dotdot := by
    decide +kernel
  exact iff_of_true ⟨hlinks.1, Or.inr (Or.inl hlinks.2)⟩ hdots

/--
A new directory is empty and is not removed; with the file `f` in it, which is its only
entry, it is removed.
-/
theorem rmdir_inverted :
    Legible (childFs freshBlock) ∧
      lookupScan (childFs freshBlock) 2 [0x64#8] = some (some 12) ∧
      (childFs freshBlock).liveEntries 12 = [(dot, 12), (dotdot, 2)] ∧
      ¬ RmdirRight (childFs freshBlock) (fullDir 1024) [0x64#8] (some 12) ∧
      (childFs (usedBlock 13)).liveEntries 12 = [(dot, 12), (dotdot, 2), ([0x66#8], 13)] ∧
      (ext2Rmdir (childFs (usedBlock 13)) (fullDir 1024) [0x64#8]).map Prod.fst = some true := by
  have hentries : (childFs freshBlock).liveEntries 12 = [(dot, 12), (dotdot, 2)] := by
    decide +kernel
  refine ⟨childFs_legible freshBlock (by decide +kernel), by decide +kernel, hentries, ?_,
    by decide +kernel, by decide +kernel⟩
  rintro ⟨ok, fs', hout, hok, -⟩
  have hfails : (ext2Rmdir (childFs freshBlock) (fullDir 1024) [0x64#8]).map Prod.fst =
      some false := by
    decide +kernel
  have hdir : (1 ≤ 12 ∧ 12 ≤ (childFs freshBlock).sb.inodesCount) ∧
      ((childFs freshBlock).inodeOf 12).mode / 0x1000 % 16 = 0x4 := by
    decide +kernel
  have hdots : (childFs freshBlock).OnlyDots 12 := by
    unfold Ext2Fs.OnlyDots
    decide
  have htrue := hok.mpr ⟨12, rfl, hdir, hdots⟩
  rw [hout, htrue] at hfails
  cases hfails

end Ext2
end Homunculos
