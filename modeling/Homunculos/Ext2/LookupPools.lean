import Homunculos.Ext2.DirLaw
import Homunculos.Ext2.Mount
import Homunculos.Ext2.ScanEnds

/-!
# The pools behind `ext2_lookup`

Every `ext2_lookup` that finds its entry takes one of the 64 slots of `ext2_data_pool`
and one of `vfs_inodes`.  Neither is ever given back by a lookup or a path resolution,
so after enough of them no entry is found any more, whatever stands on the disk.
-/

namespace Homunculos
namespace Ext2

open Bytes Block Tiling Loop

section Disk

variable {fs f f1 f2 : Ext2Fs} {raw : Ext2Inode}

theorem Near.readBgdesc (h : Near fs f) (bg : Nat) :
    (ext2ReadBgdesc f bg = ext2ReadBgdesc fs bg ∧ Near fs (ext2ReadBgdesc fs bg).2) ∨
      ((ext2ReadBgdesc f bg).1 = none ∧ (ext2ReadBgdesc fs bg).1 = none ∧
        Near fs (ext2ReadBgdesc f bg).2) := by
  have hblock : f.descBlock bg = fs.descBlock bg := by
    rw [h.same]
    rfl
  have hpos : f.descPos bg = fs.descPos bg := by
    rw [h.same]
    rfl
  obtain ⟨hok, hnear, hsame⟩ := h.readBuf (fs.descBlock bg)
  unfold ext2ReadBgdesc
  rw [hblock, hpos]
  by_cases hread : (fs.readBuf (fs.descBlock bg)).1 = true
  · left
    dsimp only
    rw [hsame hread] at hnear ⊢
    rw [if_pos (hok.trans hread), if_pos hread]
    exact ⟨rfl, hnear⟩
  · right
    rw [if_neg (by rw [hok]; exact hread), if_neg hread]
    exact ⟨rfl, rfl, hnear⟩

theorem Near.readInode (h : Near fs f) (n : Nat) :
    (ext2ReadInode f n).1 = (ext2ReadInode fs n).1 ∧ Near fs (ext2ReadInode f n).2 := by
  have hsb : f.sb = fs.sb := by
    rw [h.same]
    rfl
  have hgroup : f.inodeGroup n = fs.inodeGroup n := by
    rw [h.same]
    rfl
  have hoffset : f.inodeOffset n = fs.inodeOffset n := by
    rw [h.same]
    rfl
  have hblock : ∀ table, f.inodeBlockIn table n = fs.inodeBlockIn table n := by
    rw [h.same]
    exact fun _ => rfl
  unfold ext2ReadInode
  rw [hsb, hgroup, hoffset, h.blockSize]
  by_cases hn : n = 0 ∨ fs.sb.inodesCount < n
  · rw [if_pos hn, if_pos hn]
    exact ⟨rfl, h⟩
  rw [if_neg hn, if_neg hn]
  rcases h.readBgdesc (fs.inodeGroup n) with ⟨hsame, hnear⟩ | ⟨hnone, hnone', hnear⟩
  · rw [hsame]
    generalize ext2ReadBgdesc fs (fs.inodeGroup n) = r at hnear
    obtain ⟨bgd, f'⟩ := r
    cases bgd with
    | none => exact ⟨rfl, hnear⟩
    | some bgd =>
      dsimp only
      rw [hblock]
      obtain ⟨-, hnear', -⟩ := hnear.readBuf (fs.inodeBlockIn bgd.inodeTable n)
      split
      · exact ⟨rfl, hnear'⟩
      · exact ⟨rfl, hnear'⟩
  · generalize ext2ReadBgdesc f (fs.inodeGroup n) = r at hnone hnear
    generalize ext2ReadBgdesc fs (fs.inodeGroup n) = r' at hnone'
    obtain ⟨_, f'⟩ := r
    obtain ⟨_, f''⟩ := r'
    cases hnone
    cases hnone'
    exact ⟨rfl, hnear⟩

theorem scanDir_static
    {γ : Type} (visit : Dirent → Option γ) (n : Nat) {offset : Nat} (h1 : Near fs f1)
    (h2 : Near fs f2) :
    (scanDir visit n f1 raw offset).map Prod.fst = (scanDir visit n f2 raw offset).map Prod.fst ∧
      ∀ r, scanDir visit n f1 raw offset = some r → Near fs r.2 := by
  induction n generalizing f1 f2 offset with
  | zero => exact ⟨rfl, fun _ hr => nomatch hr⟩
  | succ n ih =>
    obtain ⟨hbmap1, hnear1⟩ := h1.bmap raw (offset / fs.blockSize)
    obtain ⟨hbmap2, hnear2⟩ := h2.bmap raw (offset / fs.blockSize)
    rw [scanDir, scanDir, h1.blockSize, h2.blockSize]
    by_cases hsize : raw.size ≤ offset
    · rw [if_pos hsize, if_pos hsize]
      refine ⟨rfl, ?_⟩
      rintro _ ⟨⟩
      exact h1
    rw [if_neg hsize, if_neg hsize]
    dsimp only
    rw [hbmap1, hbmap2]
    by_cases hzero : (ext2InodeBmap fs raw (offset / fs.blockSize)).1 = 0
    · rw [if_pos hzero, if_pos hzero]
      exact ih hnear1 hnear2
    rw [if_neg hzero, if_neg hzero]
    obtain ⟨hok1, hread1, hsame1⟩ :=
      hnear1.readBuf (ext2InodeBmap fs raw (offset / fs.blockSize)).1
    obtain ⟨hok2, hread2, hsame2⟩ :=
      hnear2.readBuf (ext2InodeBmap fs raw (offset / fs.blockSize)).1
    by_cases hok : (fs.readBuf (ext2InodeBmap fs raw (offset / fs.blockSize)).1).1 = true
    · rw [hsame1 hok] at hread1
      rw [if_pos (hok1.trans hok), if_pos (hok2.trans hok), hsame1 hok, hsame2 hok]
      cases scanBlock (fs.readBuf (ext2InodeBmap fs raw (offset / fs.blockSize)).1).2 visit
          (offset % fs.blockSize) with
      | none => exact ih hread1 hread1
      | some found =>
        cases found with
        | none => exact ih hread1 hread1
        | some px =>
          refine ⟨rfl, ?_⟩
          rintro _ ⟨⟩
          exact hread1
    · rw [if_neg (by rw [hok1]; exact hok), if_neg (by rw [hok2]; exact hok)]
      refine ⟨rfl, ?_⟩
      rintro _ ⟨⟩
      exact hread1

theorem findEntry_static
    (raw : Ext2Inode) (name : List (BitVec 8)) (h1 : Near fs f1) (h2 : Near fs f2) :
    (findEntry f1 raw name).map Prod.fst = (findEntry f2 raw name).map Prod.fst ∧
      ∀ r, findEntry f1 raw name = some r → Near fs r.2 := by
  obtain ⟨hsame, hnear⟩ : (scanDir (nameIs name) (raw.size + 1) f1 raw 0).map Prod.fst =
      (scanDir (nameIs name) (raw.size + 1) f2 raw 0).map Prod.fst ∧ _ :=
    scanDir_static (nameIs name) (raw.size + 1) h1 h2
  unfold findEntry
  generalize scanDir (nameIs name) (raw.size + 1) f1 raw 0 = r1 at hsame hnear ⊢
  generalize scanDir (nameIs name) (raw.size + 1) f2 raw 0 = r2 at hsame ⊢
  cases r1 with
  | none =>
    cases r2 with
    | none => exact ⟨rfl, fun _ hr => nomatch hr⟩
    | some r2 => cases hsame
  | some r1 =>
    cases r2 with
    | none => cases hsame
    | some r2 =>
      obtain ⟨scanEnd, f1'⟩ := r1
      obtain ⟨_, f2'⟩ := r2
      cases hsame
      have hf := hnear _ rfl
      cases scanEnd with
      | done =>
        refine ⟨rfl, ?_⟩
        rintro _ ⟨⟩
        exact hf
      | failed =>
        refine ⟨rfl, ?_⟩
        rintro _ ⟨⟩
        exact hf
      | found phys o no =>
        refine ⟨rfl, ?_⟩
        rintro _ ⟨⟩
        exact hf

end Disk

section Lookups

variable {fs : Ext2Fs} {st st' : Ext2State} {dir : VfsInode} {name : List (BitVec 8)}

/-- What the disk has for a lookup: the number of an inode that can be read, nothing, or
a scan that does not end. -/
def onDisk (fs : Ext2Fs) (dir : VfsInode) (name : List (BitVec 8)) : Option (Option Nat) :=
  match dir.privateData with
  | none => some none
  | some dirNo =>
    match lookupScan fs dirNo name with
    | none => none
    | some none => some none
    | some (some no) => if (ext2ReadInode fs no).1.isSome = true then some (some no) else some none

/-- Lookups one after the other; `none` if one of them does not return. -/
def runLookups (st : Ext2State) : List (VfsInode × List (BitVec 8)) → Option Ext2State
  | [] => some st
  | e :: es => (ext2Lookup st e.1 e.2).bind fun r => runLookups r.2 es

/-- The lookups among them whose entry is there. -/
def draws (fs : Ext2Fs) (es : List (VfsInode × List (BitVec 8))) : Nat :=
  es.countP (fun e => (onDisk fs e.1 e.2).join.isSome)

theorem draws_found
    {e : VfsInode × List (BitVec 8)} {no : Nat} (h : onDisk fs e.1 e.2 = some (some no))
    (es : List (VfsInode × List (BitVec 8))) :
    draws fs (e :: es) = draws fs es + 1 := by
  simp [draws, h]

theorem draws_absent {e : VfsInode × List (BitVec 8)} (h : onDisk fs e.1 e.2 = some none)
    (es : List (VfsInode × List (BitVec 8))) :
    draws fs (e :: es) = draws fs es := by
  simp [draws, h]

/-- What a lookup whose entry is there takes from the pools, and what it returns. -/
def taken (st : Ext2State) (f : Ext2Fs) (child : VfsInode) : Option VfsInode × Ext2State :=
  if 64 ≤ st.dataNext then
    (none, { st with fs := f })
  else if st.vfsFree = 0 then
    (none, { st with fs := f, dataNext := st.dataNext + 1 })
  else
    (some child, { fs := f, dataNext := st.dataNext + 1, vfsFree := st.vfsFree - 1 })

theorem taken_fs (st : Ext2State) (f : Ext2Fs) (child : VfsInode) :
    (taken st f child).2.fs = f := by
  unfold taken
  split
  · rfl
  · split
    · rfl
    · rfl

theorem ext2Lookup_cases (h : Near fs st.fs) (dir : VfsInode) (name : List (BitVec 8)) :
    (onDisk fs dir name = none ∧ ext2Lookup st dir name = none) ∨
      (onDisk fs dir name = some none ∧ ∃ f, Near fs f ∧
        ext2Lookup st dir name = some (none, { st with fs := f })) ∨
      ∃ no, onDisk fs dir name = some (some no) ∧ ∃ f child, Near fs f ∧
        ext2Lookup st dir name = some (taken st f child) := by
  unfold onDisk ext2Lookup
  cases dir.privateData with
  | none => exact Or.inr (Or.inl ⟨rfl, st.fs, h, rfl⟩)
  | some dirNo =>
    dsimp only
    obtain ⟨hraw, hnear⟩ := h.readInode dirNo
    obtain ⟨-, hnear0⟩ := (Near.refl fs).readInode dirNo
    unfold lookupScan
    generalize ext2ReadInode st.fs dirNo = r at hraw hnear ⊢
    generalize ext2ReadInode fs dirNo = r0 at hraw hnear0 ⊢
    obtain ⟨raw, f⟩ := r
    obtain ⟨_, f0⟩ := r0
    cases hraw
    cases raw with
    | none => exact Or.inr (Or.inl ⟨rfl, f, hnear, rfl⟩)
    | some raw =>
      dsimp only
      obtain ⟨hscan, hnear'⟩ := findEntry_static raw name hnear hnear0
      rw [← hscan]
      cases hfind : findEntry f raw name with
      | none => exact Or.inl ⟨rfl, rfl⟩
      | some r =>
        obtain ⟨no, f'⟩ := r
        have hf' : Near fs f' := hnear' _ hfind
        cases no with
        | none => exact Or.inr (Or.inl ⟨rfl, f', hf', rfl⟩)
        | some no =>
          obtain ⟨hchild, hf''⟩ := hf'.readInode no
          right
          dsimp only [Option.map_some]
          rw [← hchild]
          generalize ext2ReadInode f' no = c at hf'' ⊢
          obtain ⟨child, f''⟩ := c
          cases child with
          | none => exact Or.inl ⟨rfl, f'', hf'', rfl⟩
          | some child =>
            refine Or.inr ⟨no, rfl, f'', childInode no child, hf'', ?_⟩
            dsimp only
            unfold taken
            split
            · rfl
            · split
              · rfl
              · rfl

theorem runLookups_pools {es : List (VfsInode × List (BitVec 8))} (h : Near fs st.fs)
    (hrun : runLookups st es = some st') :
    Near fs st'.fs ∧ (st'.dataNext < 64 ↔ st.dataNext + draws fs es < 64) ∧
      (st.dataNext + draws fs es < 64 → st'.vfsFree = st.vfsFree - draws fs es) := by
  induction es generalizing st with
  | nil =>
    cases hrun
    exact ⟨h, Iff.rfl, fun _ => rfl⟩
  | cons e es ih =>
    rw [runLookups] at hrun
    rcases ext2Lookup_cases h e.1 e.2 with
      ⟨-, hlookup⟩ | ⟨hdisk, f, hf, hlookup⟩ | ⟨no, hdisk, f, child, hf, hlookup⟩
    · rw [hlookup] at hrun
      cases hrun
    · rw [hlookup] at hrun
      rw [draws_absent hdisk]
      exact @ih { st with fs := f } hf hrun
    · rw [hlookup] at hrun
      rw [draws_found hdisk]
      have hfs : Near fs (taken st f child).2.fs := by
        rw [taken_fs]
        exact hf
      obtain ⟨hnear, hdata, hfree⟩ := ih hfs hrun
      refine ⟨hnear, ?_, ?_⟩
      · rw [hdata]
        unfold taken
        split
        · dsimp only
          omega
        · split
          · dsimp only
            omega
          · dsimp only
            omega
      · intro hlt
        unfold taken at hfree
        rw [if_neg (by omega)] at hfree
        split at hfree
        next hzero =>
          rw [hfree (by dsimp only; omega)]
          dsimp only
          omega
        next hzero =>
          rw [hfree (by dsimp only; omega)]
          dsimp only
          omega

theorem ext2Lookup_found (h : Near fs st.fs) {no : Nat}
    (hdisk : onDisk fs dir name = some (some no)) :
    ∃ f child, Near fs f ∧ ext2Lookup st dir name = some (taken st f child) := by
  rcases ext2Lookup_cases h dir name with ⟨hnone, -⟩ | ⟨hnone, -⟩ | ⟨-, -, hfound⟩
  · cases hdisk.symm.trans hnone
  · cases hdisk.symm.trans hnone
  · exact hfound

theorem onDisk_of_scan
    {dirNo no : Nat} (hhealthy : fs.dev.Healthy) (hdir : dir.privateData = some dirNo)
    (hscan : lookupScan fs dirNo name = some (some no)) (hno : 1 ≤ no ∧ no ≤ fs.sb.inodesCount) :
    onDisk fs dir name = some (some no) := by
  obtain ⟨raw, f, hread⟩ := readInode_healthy hhealthy (n := no) (by omega)
  unfold onDisk
  rw [hdir]
  dsimp only
  rw [hscan]
  dsimp only
  rw [hread]
  rfl

/--
After any lookups, the lookup of a name that the directory has returns an inode exactly
if the lookups before it whose entry was there have left a slot in both pools.
-/
theorem lookup_returns_iff
    (st st' : Ext2State) (es : List (VfsInode × List (BitVec 8)))
    (hrun : runLookups st es = some st') (dir : VfsInode) (name : List (BitVec 8)) (dirNo no : Nat)
    (hhealthy : st.fs.dev.Healthy) (hdir : dir.privateData = some dirNo)
    (hscan : lookupScan st.fs dirNo name = some (some no))
    (hno : 1 ≤ no ∧ no ≤ st.fs.sb.inodesCount) :
    (∃ inode after, ext2Lookup st' dir name = some (some inode, after)) ↔
      st.dataNext + draws st.fs es < 64 ∧ draws st.fs es < st.vfsFree := by
  obtain ⟨hnear, hdata, hfree⟩ := runLookups_pools (Near.refl st.fs) hrun
  obtain ⟨f, child, -, hlookup⟩ := ext2Lookup_found hnear (onDisk_of_scan hhealthy hdir hscan hno)
  rw [hlookup]
  unfold taken
  by_cases hfull : 64 ≤ st'.dataNext
  · rw [if_pos hfull]
    exact iff_of_false (by simp) (by omega)
  rw [if_neg hfull]
  by_cases hzero : st'.vfsFree = 0
  · rw [if_pos hzero]
    exact iff_of_false (by simp) (by omega)
  · rw [if_neg hzero]
    exact iff_of_true ⟨child, _, rfl⟩ (by omega)

/-- The full directory of 1025 bytes has the entry `b`, and its device has no errors. -/
theorem fullDir_entry :
    (fullDirFs 1025).dev.Healthy ∧ lookupScan (fullDirFs 1025) 2 [0x62#8] = some (some 12) ∧
      onDisk (fullDirFs 1025) (fullDir 1025) [0x62#8] = some (some 12) := by
  refine ⟨⟨fun _ => rfl, fun _ => rfl⟩, ?_, ?_⟩
  · decide +kernel
  · decide +kernel

theorem lookup_returns_iff_first :
    ∃ inode after, ext2Lookup ⟨fullDirFs 1025, 0, 256⟩ (fullDir 1025) [0x62#8] =
      some (some inode, after) := by
  obtain ⟨hhealthy, hscan, -⟩ := fullDir_entry
  exact (lookup_returns_iff ⟨fullDirFs 1025, 0, 256⟩ _ [] rfl (fullDir 1025) [0x62#8] 2 12 hhealthy
    rfl hscan (by decide +kernel)).mpr (by decide)

theorem runLookups_replicate
    (h : Near fs st.fs) {no : Nat} (hdisk : onDisk fs dir name = some (some no)) (n : Nat) :
    ∃ st', runLookups st (List.replicate n (dir, name)) = some st' := by
  induction n generalizing st with
  | zero => exact ⟨st, rfl⟩
  | succ n ih =>
    obtain ⟨f, child, hf, hlookup⟩ := ext2Lookup_found h hdisk
    rw [List.replicate_succ, runLookups, hlookup]
    refine ih ?_
    rw [taken_fs]
    exact hf

/-- The 65th lookup of a name that is there finds nothing. -/
theorem lookup_fails_when_pool_is_empty :
    (fullDirFs 1025).dev.Healthy ∧ lookupScan (fullDirFs 1025) 2 [0x62#8] = some (some 12) ∧
      ∃ st', runLookups ⟨fullDirFs 1025, 0, 256⟩
          (List.replicate 64 (fullDir 1025, [0x62#8])) = some st' ∧
        ∃ after, ext2Lookup st' (fullDir 1025) [0x62#8] = some (none, after) := by
  obtain ⟨hhealthy, hscan, hdisk⟩ := fullDir_entry
  have hnear : Near (fullDirFs 1025) (Ext2State.mk (fullDirFs 1025) 0 256).fs := Near.refl _
  obtain ⟨st', hrun⟩ := runLookups_replicate hnear hdisk 64
  refine ⟨hhealthy, hscan, st', hrun, ?_⟩
  obtain ⟨hnear', hdata, -⟩ := runLookups_pools hnear hrun
  have hdraws : draws (fullDirFs 1025) (List.replicate 64 (fullDir 1025, [0x62#8])) = 64 := by
    unfold draws
    rw [List.countP_replicate, hdisk]
    rfl
  have hfull : 64 ≤ st'.dataNext := by omega
  obtain ⟨f, child, -, hlookup⟩ := ext2Lookup_found hnear' hdisk
  rw [hlookup, taken, if_pos hfull]
  exact ⟨_, rfl⟩

end Lookups

end Ext2
end Homunculos
