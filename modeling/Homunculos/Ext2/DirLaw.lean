import Homunculos.Ext2.DirEntry

/-!
# The law of directories

On a volume, with a directory in use that is well formed: `ext2_add_entry` of a
new name keeps it well formed, the name is found then and every other name as
before, as long as the directory stays in its direct blocks;
`ext2_remove_entry` succeeds exactly for the names that are there.

The tiling of the blocks is not enough.  A block that is mapped but not wholly
inside the size is overwritten by the block that `ext2_add_entry` appends.
-/

namespace Homunculos
namespace Ext2

open Bytes Block Tiling

/-- What the scan of `ext2_lookup` finds for a name in a directory. -/
def lookupScan (fs : Ext2Fs) (d : Nat) (name : List (BitVec 8)) : Option (Option Nat) :=
  match ext2ReadInode fs d with
  | (none, _) => some none
  | (some raw, fs) => (findEntry fs raw name).map Prod.fst

/-- A directory in use on a volume, well formed. -/
structure DirWf (fs : Ext2Fs) (d : Nat) : Prop where
  volume : Volume fs
  isInode : fs.IsInode d
  used : d ∈ usedNumbers .inode fs
  records : ∃ ents, DirOk fs.view (fs.inodeOf d) ents

section Views

variable {fs fs' : Ext2Fs} {v v' : View} {d : Nat} {ents ents' : Nat → List Dirent}
variable {name : List (BitVec 8)}

theorem DirTiled.onVolume
    (h : DirTiled v (v.inode d) ents) (howns : OwnsDirect v (v.inode d)) (hshows : Shows fs v)
    (hd : fs.IsInode d) :
    DirTiled fs.view (fs.inodeOf d) ents := by
  have hbs : fs.view.blockSize = v.blockSize := hshows.blockSize.symm
  rw [← hshows.inode d hd]
  refine ⟨?_, ?_, h.holes, h.names⟩
  · rw [hbs]
    exact h.size_le
  · intro i hi hne
    rw [hbs]
    apply (h.records i hi hne).congr
    intro q _ hq
    rw [hshows.blockSize] at hq
    exact (hshows.data _ q ((hshows.dataBlocks _).mp (howns.data i hi hne)) hq).symm

theorem OwnsDirect.onVolume
    (h : OwnsDirect v (v.inode d)) (hshows : Shows fs v) (hd : fs.IsInode d) :
    OwnsDirect fs.view (fs.inodeOf d) := by
  rw [← hshows.inode d hd]
  refine ⟨?_, ?_, h.distinct⟩
  · intro i hi hne
    have hused := h.used i hi hne
    rwa [hshows.used] at hused
  · intro i hi hne
    exact (hshows.dataBlocks _).mp (h.data i hi hne)

variable (h : DirOk v (v.inode d) ents) (hshows : Shows fs v) (hd : fs.IsInode d)
include h hshows hd

theorem DirOk.onVolume :
    DirOk fs.view (fs.inodeOf d) ents := by
  refine ⟨h.toDirTiled.onVolume h.owns hshows hd, ?_, h.owns.onVolume hshows hd⟩
  rw [← hshows.inode d hd]
  intro i hi hne
  have hbs : fs.view.blockSize = v.blockSize := hshows.blockSize.symm
  rw [hbs]
  exact h.within i hi hne

theorem DirOk.wf (hused : d ∈ v.used .inode) :
    DirWf fs d :=
  ⟨hshows.volume, hd, hshows.used .inode ▸ hused, ents, h.onVolume hshows hd⟩

theorem DirOk.lookupScan_spec (name : List (BitVec 8)) :
    ∃ r, lookupScan fs d name = some r ∧ ∀ e, r = some e ↔ (name, e) ∈ dirBindings ents := by
  obtain ⟨buf0, hread⟩ := hshows.readInode hd
  obtain ⟨r, buf, hfind, hr⟩ := h.findEntry_spec (hshows.withBuf buf0) name
  refine ⟨r, ?_, hr⟩
  simp only [lookupScan, hread, hfind, Option.map_some]

theorem DirOk.lookupScan_some {e : Nat} :
    lookupScan fs d name = some (some e) ↔ (name, e) ∈ dirBindings ents := by
  obtain ⟨r, hlookup, hr⟩ := h.lookupScan_spec hshows hd name
  rw [hlookup, Option.some.injEq]
  exact hr e

theorem DirOk.lookupScan_none :
    lookupScan fs d name = some none ↔ ∀ e, (name, e) ∉ dirBindings ents := by
  obtain ⟨r, hlookup, hr⟩ := h.lookupScan_spec hshows hd name
  rw [hlookup, Option.some.injEq]
  cases r with
  | none =>
    simp only [true_iff]
    intro e he
    cases (hr e).mpr he
  | some e =>
    simp only [reduceCtorEq, false_iff, not_forall, not_not]
    exact ⟨e, (hr e).mp rfl⟩

theorem DirOk.lookupScan_congr
    (h' : DirOk v' (v'.inode d) ents') (hshows' : Shows fs' v') (hd' : fs'.IsInode d)
    (hsame : ∀ e, (name, e) ∈ dirBindings ents' ↔ (name, e) ∈ dirBindings ents) :
    lookupScan fs' d name = lookupScan fs d name := by
  obtain ⟨r, hlookup, hr⟩ := h.lookupScan_spec hshows hd name
  obtain ⟨r', hlookup', hr'⟩ := h'.lookupScan_spec hshows' hd' name
  rw [hlookup, hlookup']
  congr 1
  apply Option.ext
  intro e
  rw [hr, hr', hsame]

end Views

/-- What a successful `ext2_add_entry` has to do. -/
structure AddLaw (fs fs' : Ext2Fs) (d : Nat) (name : List (BitVec 8)) (e : Nat) : Prop where
  wf : DirWf fs' d
  found : lookupScan fs' d name = some (some e)
  others : ∀ other, other ≠ name → lookupScan fs' d other = lookupScan fs d other

/-- What a successful `ext2_remove_entry` has to do. -/
structure RemoveLaw (fs fs' : Ext2Fs) (d : Nat) (name : List (BitVec 8)) : Prop where
  wf : DirWf fs' d
  gone : lookupScan fs' d name = some none
  others : ∀ other, other ≠ name → lookupScan fs' d other = lookupScan fs d other

section Law

variable {fs : Ext2Fs} {d : Nat} {dir : VfsInode} {name : List (BitVec 8)}

theorem need_le_block {v : View} (h : Shows fs v) (hname : name.length ≤ 63) :
    needRecLen name ≤ v.blockSize := by
  have hneed := needRecLen_bounds name
  rw [h.blockSize]
  rcases h.volume.inOrder.layout.blockSize with hs | hs | hs
  · omega
  · omega
  · omega

/-- Insertion and removal of a name of 1 to 63 bytes in a well-formed directory. The entry of an
insertion has an inode number or gets a new one. -/
theorem dir_entry_law
    {st : Ext2State} (hwf : DirWf st.fs d) (hdir : dir.privateData = some d)
    (hname : 1 ≤ name.length ∧ name.length ≤ 63) :
    (∀ entry : VfsInode, (∀ e, entry.privateData = some e → e ≠ 0 ∧ e < 2 ^ 32) →
      lookupScan st.fs d name = some none →
      ∃ ok dir' entry' st', ext2AddEntry st dir name entry = some (ok, dir', entry', st') ∧
        (ok = true → dir'.iSize ≤ 12 * st.fs.blockSize →
          ∃ e, entry'.privateData = some e ∧ AddLaw st.fs st'.fs d name e)) ∧
    (∃ ok fs', ext2RemoveEntry st.fs dir name = some (ok, fs') ∧
      (ok = true ↔ ∃ e, lookupScan st.fs d name = some (some e)) ∧
      (ok = true → RemoveLaw st.fs fs' d name)) := by
  obtain ⟨hvolume, hd, hused, ents, hok⟩ := hwf
  have hshows := hvolume.shows
  have hbs : st.fs.view.blockSize = st.fs.blockSize := rfl
  have hok' : DirOk st.fs.view (st.fs.view.inode d) ents := hok
  refine ⟨?_, ?_⟩
  · intro entry hentry habsent
    rw [hok'.lookupScan_none hshows hd] at habsent
    obtain ⟨ok, dir', entry', st', hout, hcases⟩ := addEntry_laid hshows hd hused hok'.laid
      hdir (need_le_block hshows hname.2) (by omega) hentry
    refine ⟨ok, dir', entry', st', hout, ?_⟩
    intro hsuccess hsize
    subst hsuccess
    rcases hcases with ⟨hfail, -⟩ | ⟨e, v1, hbacked, hcases⟩
    · cases hfail
    · refine ⟨e, hbacked.private, ?_⟩
      rcases hcases with ⟨hfail, -⟩ | ⟨-, v', ents', -, hentered, hshows'⟩ | ⟨-, hover⟩
      · cases hfail
      · have hins := hentered.inserted hok'.names habsent
        have hinodes : v'.inodes = st.fs.view.inodes := by
          rw [hins.frame.inodes, hbacked.sizes.2]
        have hd' : st'.fs.IsInode d := (hshows'.isInode_iff hshows hinodes).mpr hd
        have hused' : d ∈ v'.used .inode := by
          rw [hins.frame.usedInodes]
          exact hbacked.used_mem hused
        refine ⟨hins.dir.wf hshows' hd' hused', ?_, ?_⟩
        · rw [hins.dir.lookupScan_some hshows' hd', hins.bindings.mem_iff]
          exact List.mem_cons_self
        · intro other hother
          apply hok'.lookupScan_congr hshows hd hins.dir hshows' hd'
          intro x
          rw [hins.bindings.mem_iff]
          simp [hother]
      · have hlt := hover rfl
        omega
  · rcases removeEntry_laid hshows hd hok'.laid hdir name with
      ⟨fs', hout, -, hnone⟩ | ⟨e, v', ents', fs', hout, hrem, hshows'⟩
    · refine ⟨false, fs', hout, ?_, fun hfalse => by cases hfalse⟩
      simp only [Bool.false_eq_true, false_iff, not_exists]
      intro e he
      exact hnone e ((hok'.lookupScan_some hshows hd).mp he)
    · have hd' : fs'.IsInode d := (hshows'.isInode_iff hshows hrem.frame.inodes).mpr hd
      have hdir' := hrem.dir.ok (hrem.taken.nodup hok'.names)
      have hperm := hrem.taken.perm
      have hused' : d ∈ v'.used .inode := by
        rw [hrem.frame.usedInodes]
        exact hused
      refine ⟨true, fs', hout, ?_, ?_⟩
      · simp only [true_iff]
        refine ⟨e, (hok'.lookupScan_some hshows hd).mpr ?_⟩
        rw [hperm.mem_iff]
        exact List.mem_cons_self
      · intro _
        refine ⟨hdir'.wf hshows' hd' hused', ?_, ?_⟩
        · rw [hdir'.lookupScan_none hshows' hd']
          exact hrem.absent hok'.names
        · intro other hother
          apply hok'.lookupScan_congr hshows hd hdir' hshows' hd'
          intro x
          rw [hperm.mem_iff]
          simp [hother]

end Law

/--
A block without room: a record of 12 bytes with the name `b` and the inode `e`, and
dead records whose old names fill them.
-/
def fullBlock (e : BitVec 8) : Nat → BitVec 8 :=
  fun q =>
    if q = 0 then e
    else if q = 4 then 12#8
    else if q = 6 then 1#8
    else if q = 8 then 0x62#8
    else if q = 16 ∨ q = 268 ∨ q = 520 then 252#8
    else if q = 18 ∨ q = 270 ∨ q = 522 then 244#8
    else if q = 773 then 1#8
    else if q = 774 then 248#8
    else 0#8

def fullRecords (e : BitVec 8) : List Dirent :=
  [0, 12, 264, 516, 768].map (direntAt (fullBlock e))

/-- A directory of this size with two full blocks, 10 and 11, and one name. -/
def fullRaw (size : Nat) : Ext2Inode :=
  (((Ext2Inode.zero.setMode 0x41ED).setSize size).setBlock 0 10).setBlock 1 11

def fullEnts : Nat → List Dirent
  | 0 => fullRecords 0
  | 1 => fullRecords 12
  | _ => []

/-- The small image with that directory as inode 2. -/
def fullDirFs (size : Nat) : Ext2Fs :=
  let fs := (ext2AllocBlock (ext2AllocBlock smallFs).2).2
  let fs := (ext2WriteBlock (ext2WriteBlock fs 10 (fullBlock 0)).2 11 (fullBlock 12)).2
  (ext2WriteInode fs 2 (fullRaw size)).2

def fullDir (size : Nat) : VfsInode where
  iNo := 2
  iSize := size
  iType := .dir
  iMode := 0x41ED
  ops := some .dir
  privateData := some 2
  iRdev := 0

/-- An entry for the file with inode 12. -/
def backedEntry : VfsInode where
  iNo := 12
  iSize := 0
  iType := .file
  iMode := 0x81A4
  ops := some .file
  privateData := some 12
  iRdev := 0

/-- What the image shows. -/
def fullView (size : Nat) : View :=
  let v := smallFs.view.withUsed .block (insert 10 (smallFs.view.used .block))
  let v := v.withUsed .block (insert 11 (v.used .block))
  ((v.withData 10 (fullBlock 0)).withData 11 (fullBlock 12)).withInode 2 (fullRaw size)

theorem isInode_two :
    smallFs.IsInode 2 := by
  unfold Ext2Fs.IsInode
  decide +kernel

theorem fullDirFs_shows (size : Nat) :
    Shows (fullDirFs size) (fullView size) ∧ (fullDirFs size).IsInode 2 ∧
      10 ∈ (fullView size).dataBlocks ∧ 11 ∈ (fullView size).dataBlocks := by
  have hshows := smallFs_volume.shows
  rcases hshows.allocBlock with ⟨hzero, -⟩ | ⟨-, -, hdata1, hshows1⟩
  · cases hzero
  · rcases hshows1.allocBlock with ⟨hzero, -⟩ | ⟨-, -, hdata2, hshows2⟩
    · cases hzero
    · have hi2 := hshows2.volume.inOrder
      have hput1 := (writeBlock_put _ hi2.layout.blockSize hi2.healthy 10 (fullBlock 0)).2
      have hshows3 := hshows2.putData hput1 hdata1
      have hi3 := hshows3.volume.inOrder
      have hput2 := (writeBlock_put _ hi3.layout.blockSize hi3.healthy 11 (fullBlock 12)).2
      have hshows4 := hshows3.putData hput2 hdata2
      have hinode := (hshows4.isInode_iff hshows rfl).mpr isInode_two
      have hshows5 := (hshows4.writeInode hinode (fullRaw size)).2
      exact ⟨hshows5, (hshows5.isInode_iff hshows rfl).mpr isInode_two, hdata1, hdata2⟩

theorem fullRaw_block (size i : Nat) :
    (fullRaw size).block i = if i = 1 then 11 else if i = 0 then 10 else 0 := by
  have hzero : (Ext2Inode.zero.setMode 0x41ED).block i = 0 := by
    rw [Ext2Inode.block_setMode]
    rfl
  unfold fullRaw
  rw [Ext2Inode.block_setBlock, Ext2Inode.block_setBlock, Ext2Inode.block_setSize, hzero]
  rfl

theorem fullBlock_records {e : BitVec 8}
    (hlens : ∀ p ∈ [(0, 12), (12, 252), (264, 252), (516, 252), (768, 256)],
      (direntAt (fullBlock e) p.1).recLen = p.2 ∧ (direntAt (fullBlock e) p.1).used = p.2) :
    Records (fullBlock e) 0 1024 (fullRecords e) := by
  have hone : ∀ p ∈ [(0, 12), (12, 252), (264, 252), (516, 252), (768, 256)],
      Records (fullBlock e) p.1 (p.1 + p.2) [direntAt (fullBlock e) p.1] := by
    intro p hp
    obtain ⟨hlen, hused⟩ := hlens p hp
    have haligned : ∀ p ∈ [(0, 12), (12, 252), (264, 252), (516, 252), (768, 256)],
        p.2 % 4 = 0 := by
      decide
    have hsingle := Records.single (m := fullBlock e) (o := p.1) rfl
      ⟨hlen ▸ haligned p hp, by rw [hlen, hused]⟩
    rwa [hlen] at hsingle
  exact (hone (0, 12) (by simp)).append ((hone (12, 252) (by simp)).append
    ((hone (264, 252) (by simp)).append ((hone (516, 252) (by simp)).append
      (hone (768, 256) (by simp)))))

theorem fullView_tiled {size : Nat} (hsize : size ≤ 12 * 1024) :
    DirTiled (fullView size) ((fullView size).inode 2) fullEnts ∧
      OwnsDirect (fullView size) ((fullView size).inode 2) := by
  have hraw : (fullView size).inode 2 = fullRaw size := View.inode_withInode _ _ _
  obtain ⟨-, -, hten, heleven⟩ := fullDirFs_shows size
  have hused : 10 ∈ (fullView size).used .block ∧ 11 ∈ (fullView size).used .block := by
    simp [fullView, View.withData, View.withInode]
  rw [hraw]
  refine ⟨⟨?_, ?_, ?_, ?_⟩, ?_, ?_, ?_⟩
  · unfold fullRaw
    rw [Ext2Inode.size_setBlock, Ext2Inode.size_setBlock, Ext2Inode.size_setSize,
      Nat.mod_eq_of_lt (by omega)]
    exact hsize
  · intro i _ hne
    rw [fullRaw_block] at hne ⊢
    by_cases hone : i = 1
    · subst hone
      exact fullBlock_records (by decide +kernel)
    · rw [if_neg hone] at hne ⊢
      by_cases hzero : i = 0
      · subst hzero
        exact fullBlock_records (by decide +kernel)
      · rw [if_neg hzero] at hne
        exact absurd rfl hne
  · intro i _ hzero
    rcases i with _ | _ | i
    · cases hzero
    · cases hzero
    · rfl
  · decide +kernel
  · intro i _ hne
    rw [fullRaw_block] at hne ⊢
    split
    · exact hused.2
    · split
      · exact hused.1
      · rename_i hone hzero
        rw [if_neg hone, if_neg hzero] at hne
        exact absurd rfl hne
  · intro i _ hne
    rw [fullRaw_block] at hne ⊢
    split
    · exact heleven
    · split
      · exact hten
      · rename_i hone hzero
        rw [if_neg hone, if_neg hzero] at hne
        exact absurd rfl hne
  · intro i j _ _ hne heq
    rw [fullRaw_block] at hne heq
    rw [fullRaw_block] at heq
    split_ifs at hne heq <;> omega

theorem fullDirFs_wf :
    DirWf (fullDirFs 2048) 2 := by
  obtain ⟨hshows, hinode, -⟩ := fullDirFs_shows 2048
  have hparts : DirTiled (fullView 2048) ((fullView 2048).inode 2) fullEnts ∧
      OwnsDirect (fullView 2048) ((fullView 2048).inode 2) := fullView_tiled (by decide)
  have hraw : (fullView 2048).inode 2 = fullRaw 2048 := View.inode_withInode _ _ _
  have hok : DirOk (fullView 2048) ((fullView 2048).inode 2) fullEnts := by
    refine ⟨hparts.1, ?_, hparts.2⟩
    rw [hraw]
    have hbs : (fullView 2048).blockSize = 1024 := by decide +kernel
    have hsize : (fullRaw 2048).size = 2048 := by decide
    intro i _ hne
    rw [fullRaw_block] at hne
    rw [hbs]
    split at hne
    · omega
    · split at hne
      · omega
      · exact absurd rfl hne
  have hused : 2 ∈ usedNumbers .inode smallFs :=
    ⟨0, 1, by decide +kernel, by decide +kernel, by decide +kernel, by decide +kernel⟩
  exact hok.wf hshows hinode hused

/-- The law at work in the directory of 2048 bytes. -/
theorem dir_entry_law_full :
    (∃ ok dir' entry' st', ext2AddEntry ⟨fullDirFs 2048, 0, 256⟩ (fullDir 2048) [0x61#8]
        backedEntry = some (ok, dir', entry', st') ∧
      (ok = true → dir'.iSize ≤ 12 * (fullDirFs 2048).blockSize →
        ∃ e, entry'.privateData = some e ∧ AddLaw (fullDirFs 2048) st'.fs 2 [0x61#8] e)) ∧
    ∃ ok fs', ext2RemoveEntry (fullDirFs 2048) (fullDir 2048) [0x61#8] = some (ok, fs') ∧
      (ok = true ↔ ∃ e, lookupScan (fullDirFs 2048) 2 [0x61#8] = some (some e)) ∧
      (ok = true → RemoveLaw (fullDirFs 2048) fs' 2 [0x61#8]) := by
  have hwf : DirWf (Ext2State.mk (fullDirFs 2048) 0 256).fs 2 := fullDirFs_wf
  have hdir : (fullDir 2048).privateData = some 2 := rfl
  have hname : 1 ≤ [0x61#8].length ∧ [0x61#8].length ≤ 63 := by decide
  refine ⟨(dir_entry_law hwf hdir hname).1 backedEntry ?_ ?_, (dir_entry_law hwf hdir hname).2⟩
  · intro e he
    cases he
    decide
  · decide +kernel

/-- A directory of 1025 bytes with two mapped blocks, both tiled and full. The new block goes to
index 1, over the second block, and the name there is lost. -/
theorem append_loses_name :
    Volume (fullDirFs 1025) ∧
      (DirTiled (fullDirFs 1025).view ((fullDirFs 1025).inodeOf 2) fullEnts ∧
        OwnsDirect (fullDirFs 1025).view ((fullDirFs 1025).inodeOf 2)) ∧
      lookupScan (fullDirFs 1025) 2 [0x61#8] = some none ∧
      lookupScan (fullDirFs 1025) 2 [0x62#8] = some (some 12) ∧
      (ext2AddEntry ⟨fullDirFs 1025, 0, 256⟩ (fullDir 1025) [0x61#8] backedEntry).map
        (fun r => (r.1, r.2.1.iSize, lookupScan r.2.2.2.fs 2 [0x62#8])) =
        some (true, 2049, some none) := by
  obtain ⟨hshows, hinode, -⟩ := fullDirFs_shows 1025
  obtain ⟨htiled, howns⟩ : DirTiled (fullView 1025) ((fullView 1025).inode 2) fullEnts ∧
      OwnsDirect (fullView 1025) ((fullView 1025).inode 2) := fullView_tiled (by decide)
  refine ⟨hshows.volume, ⟨htiled.onVolume howns hshows hinode, howns.onVolume hshows hinode⟩,
    ?_, ?_, ?_⟩
  · decide +kernel
  · decide +kernel
  · decide +kernel

end Ext2
end Homunculos
