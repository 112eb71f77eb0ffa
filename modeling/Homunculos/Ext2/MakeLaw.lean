import Homunculos.Ext2.UnlinkLaw

/-!
# New directories and links

`ext2_mkdir` takes an inode and a block that nobody uses, writes `.` and `..` into the
block, and puts the name into the parent.  What was in use before keeps its contents, so
the parent is still the directory it was when the name comes in.  `ext2_symlink` does the
same with a target.  `ext2_readlink_op` looks where the target is only after it has cut
the length to the size of the buffer, and so looks in the wrong place for a long target
and a short buffer.
-/

namespace Homunculos
namespace Ext2

open Bytes Block

/-- The inode `n` and the blocks `B` have come into use, the rest is as it was. -/
structure Fresh (v : View) (n : Nat) (B : Set Nat) (w : View) : Prop where
  blockSize : w.blockSize = v.blockSize
  inodes : w.inodes = v.inodes
  dataBlocks : w.dataBlocks = v.dataBlocks
  usedInodes : w.used .inode = insert n (v.used .inode)
  usedBlocks : w.used .block = B ∪ v.used .block
  inode : ∀ k, k ≠ n → w.inode k = v.inode k
  data : ∀ b, b ∈ v.used .block → w.data b = v.data b

section Taking

variable {v w : View} {n b : Nat} {B : Set Nat} {raw : Ext2Inode} {ents : Nat → List Dirent}

theorem Fresh.start (v : View) (n : Nat) :
    Fresh v n ∅ (v.withUsed .inode (insert n (v.used .inode))) :=
  ⟨rfl, rfl, rfl, View.used_withUsed _ _ _,
    (View.used_withUsed_of_ne _ (by decide) _).trans (Set.empty_union _).symm,
    fun _ _ => rfl, fun _ _ => rfl⟩

theorem Fresh.take (h : Fresh v n B w) (b : Nat) :
    Fresh v n (insert b B) (w.withUsed .block (insert b (w.used .block))) := by
  refine ⟨h.blockSize, h.inodes, h.dataBlocks, ?_, ?_, h.inode, h.data⟩
  · exact h.usedInodes
  · rw [View.used_withUsed, h.usedBlocks, Set.insert_union]

theorem Fresh.putData (h : Fresh v n B w) (hb : b ∉ v.used .block) (m : Nat → BitVec 8) :
    Fresh v n B (w.withData b m) := by
  refine ⟨h.blockSize, h.inodes, h.dataBlocks, h.usedInodes, h.usedBlocks, h.inode, ?_⟩
  intro c hc
  have hne : c ≠ b := by
    rintro rfl
    exact hb hc
  rw [View.data_withData_of_ne _ hne]
  exact h.data c hc

theorem Fresh.putInode (h : Fresh v n B w) (raw : Ext2Inode) :
    Fresh v n B (w.withInode n raw) := by
  refine ⟨h.blockSize, h.inodes, h.dataBlocks, h.usedInodes, h.usedBlocks, ?_, h.data⟩
  intro k hk
  rw [View.inode_withInode_of_ne _ hk]
  exact h.inode k hk

theorem Fresh.laid (h : Fresh v n B w) (hdir : DirLaid v raw ents) :
    DirLaid w raw ents := by
  refine ⟨h.blockSize ▸ hdir.size_le, ?_, hdir.holes, h.blockSize ▸ hdir.within, ?_, ?_,
    hdir.owns.distinct⟩
  · intro i hi hne
    rw [h.blockSize, h.data _ (hdir.owns.used i hi hne)]
    exact hdir.records i hi hne
  · intro i hi hne
    rw [h.usedBlocks]
    exact Or.inr (hdir.owns.used i hi hne)
  · intro i hi hne
    rw [h.dataBlocks]
    exact hdir.owns.data i hi hne

theorem DirLaid.rewrite
    {raw' : Ext2Inode} (h : DirLaid v raw ents) (hblock : ∀ i, raw'.block i = raw.block i)
    (hsize : raw'.size = raw.size) (d : Nat) :
    DirLaid (v.withInode d raw') raw' ents := by
  refine ⟨?_, ?_, ?_, ?_, ?_, ?_, ?_⟩
  · rw [hsize]
    exact h.size_le
  · intro i
    rw [hblock]
    exact h.records i
  · intro i
    rw [hblock]
    exact h.holes i
  · intro i
    rw [hblock, hsize]
    exact h.within i
  · intro i
    rw [hblock]
    exact h.owns.used i
  · intro i
    rw [hblock]
    exact h.owns.data i
  · intro i j
    rw [hblock, hblock]
    exact h.owns.distinct i j

theorem Fresh.addEntry {st st' : Ext2State} {fs : Ext2Fs} {d : Nat} {name : List (BitVec 8)}
    {parent dir' entry entry' : VfsInode} (h : Fresh fs.view n B w) (hshows : Shows st.fs w)
    (hv : Volume fs) (hd : d ∈ usedNumbers .inode fs) (hdir : DirLaid fs.view (fs.inodeOf d) ents)
    (hn : fs.IsInode n) (hnew : n ∉ usedNumbers .inode fs) (hparent : parent.privateData = some d)
    (hname : name.length ≤ 63) (hsize : (fs.inodeOf d).size ≤ 11 * fs.blockSize)
    (hentry : entry.privateData = some n)
    (hout : ext2AddEntry st parent name entry = some (true, dir', entry', st')) :
    ∃ v' ents', Entered w d ents name n v' ents' ∧ Shows st'.fs v' := by
  have hwd : w.inode d = fs.inodeOf d := h.inode d (fun heq => hnew (heq ▸ hd))
  have hd1 : st.fs.IsInode d :=
    (hshows.isInode_iff hv.shows h.inodes).mpr (hv.shows.isInode_of_used hd)
  have hused : d ∈ w.used .inode := by
    rw [h.usedInodes]
    exact Set.mem_insert_of_mem n hd
  have hnumber : ∀ e, entry.privateData = some e → e ≠ 0 ∧ e < 2 ^ 32 := by
    intro e he
    obtain rfl : n = e := Option.some.inj (hentry.symm.trans he)
    have hcount : fs.sb.inodesCount < 2 ^ 32 := u32_lt _ _
    obtain ⟨hpos, hle⟩ := hn
    omega
  obtain ⟨ok, dir1, entry1, st1, hadd, hcases⟩ := addEntry_laid hshows hd1 hused
    (hwd.symm ▸ h.laid hdir) hparent (need_le_block hshows hname) (by omega) hnumber
  rw [hout] at hadd
  cases hadd
  rcases hcases with ⟨hfail, -⟩ | ⟨e, v1, hbacked, hcases⟩
  · cases hfail
  cases hbacked with
  | new hnone =>
    rw [hentry] at hnone
    cases hnone
  | own hown =>
    obtain rfl : n = e := Option.some.inj (hentry.symm.trans hown)
    rcases hcases with ⟨hfail, -⟩ | ⟨-, v', ents', -, hentered, hshows'⟩ | ⟨hover, -⟩
    · cases hfail
    · exact ⟨v', ents', hentered, hshows'⟩
    · have hbs : w.blockSize = fs.blockSize := h.blockSize
      rw [hwd] at hover
      omega

end Taking

section Dots

variable {m : Nat → BitVec 8} {name : List (BitVec 8)} {o inode recLen : Nat}

theorem putDirRecord_outside {k : Nat} (h : k < o ∨ o + 8 + name.length ≤ k) :
    putDirRecord m o inode recLen name k = m k := by
  unfold putDirRecord
  rw [putU8_of_ne (by omega), putDirent_outside h]

theorem direntAt_putDirRecord
    (hname : name.length < 256) (hinode : inode < 2 ^ 32) (hlen : recLen < 65536) :
    direntAt (putDirRecord m o inode recLen name) o = ⟨inode, recLen, name⟩ := by
  have hother : ∀ q, q ≠ o + 7 →
      putDirRecord m o inode recLen name q = putDirent m o inode recLen name q :=
    fun q hq => putU8_of_ne hq
  rw [← direntAt_putDirent (m := m) (o := o) hname hinode hlen]
  unfold direntAt
  rw [u32_congr (fun j hj => hother (o + j) (by omega)),
    u16_congr (fun j hj => hother (o + 4 + j) (by omega)), hother (o + 6) (by omega)]
  congr 1
  apply List.map_congr_left
  intro k _
  exact hother _ (by omega)

/-- The block of a new directory is tiled by the records of `.` and `..`. -/
theorem dotsBlock_records
    {bs n d : Nat} (buf : Nat → BitVec 8) (hbs : bs % 4 = 0) (hge : 1024 ≤ bs) (hle : bs ≤ 4096)
    (hn : n < 2 ^ 32) (hd : d < 2 ^ 32) :
    Records (dotsBlock buf bs n d) 0 bs [⟨n, 12, dot⟩, ⟨d, bs - 12, dotdot⟩] := by
  have hfirst : direntAt (dotsBlock buf bs n d) 0 = ⟨n, 12, dot⟩ := by
    have hfront : direntAt (putDirRecord (fun q => if q < bs then 0#8 else buf q) 0 n 12 dot) 0 =
        ⟨n, 12, dot⟩ := direntAt_putDirRecord (by decide) hn (by omega)
    rw [← hfront]
    apply direntAt_congr
    intro q _ hq
    have hlt : q < 0 + 8 + 1 := hq
    exact putDirRecord_outside (by omega)
  have hsecond : direntAt (dotsBlock buf bs n d) 12 = ⟨d, bs - 12, dotdot⟩ :=
    direntAt_putDirRecord (by decide) hd (by omega)
  have hok : Dirent.Ok ⟨n, 12, dot⟩ := by
    refine ⟨show 12 % 4 = 0 from rfl, ?_⟩
    change round4 (8 + 1) ≤ 12
    decide
  have hok' : Dirent.Ok ⟨d, bs - 12, dotdot⟩ := by
    refine ⟨show (bs - 12) % 4 = 0 by omega, ?_⟩
    have hround : round4 (8 + 2) = 12 := by decide
    change round4 (8 + 2) ≤ bs - 12
    omega
  have hrecords := (Records.single hfirst hok).append (Records.single hsecond hok')
  change Records _ 0 (12 + (bs - 12)) _ at hrecords
  rwa [show 12 + (bs - 12) = bs by omega] at hrecords

end Dots

/-- What a successful `ext2_mkdir` has to do. -/
structure MkdirLaw (fs fs' : Ext2Fs) (d : Nat) (name : List (BitVec 8))
    (mode no b : Nat) : Prop where
  found : lookupScan fs' d name = some (some no)
  mode : (fs'.inodeOf no).mode = 0x4000 + mode % 0x1000
  links : (fs'.inodeOf no).links = 2
  size : (fs'.inodeOf no).size = fs.blockSize
  block : ∀ i, (fs'.inodeOf no).block i = if i = 0 then b else 0
  records : Records (fs'.diskByte b) 0 fs.blockSize
    [⟨no, 12, dot⟩, ⟨d, fs.blockSize - 12, dotdot⟩]
  parent : (fs'.inodeOf d).links = (fs.inodeOf d).links + 1
  others : ∀ other, other ≠ name → lookupScan fs' d other = lookupScan fs d other
  newInode : no ∉ usedNumbers .inode fs
  newBlock : b ∉ usedNumbers .block fs
  inodes : usedNumbers .inode fs' = insert no (usedNumbers .inode fs)
  blocks : usedNumbers .block fs' = insert b (usedNumbers .block fs) ∨
    ∃ c, c ∉ usedNumbers .block fs ∧ c ≠ b ∧
      usedNumbers .block fs' = insert c (insert b (usedNumbers .block fs))

section Mkdir

variable {st st' : Ext2State} {fs fs' : Ext2Fs} {v : View} {d n b mode : Nat}
variable {name : List (BitVec 8)} {parent : VfsInode}

/-- The first half of `ext2_mkdir`. -/
theorem makeDir_spec (h : Shows fs v) (hout : makeDir fs d mode = (some (n, b), fs')) :
    ∃ w buf, Shows fs' w ∧ Fresh v n {b} w ∧ fs.IsInode n ∧ n ∉ v.used .inode ∧
      b ∉ v.used .block ∧ b ∈ v.dataBlocks ∧ w.inode n = newDirInode fs mode b ∧
      w.data b = dotsBlock buf fs.blockSize n d := by
  unfold makeDir at hout
  rcases h.allocInode with ⟨hzero, -⟩ | ⟨hinode, hnew, hshows⟩
  · rw [if_pos hzero] at hout
    cases hout
  rw [if_neg (by have hpos := hinode.1; omega)] at hout
  have hfresh := Fresh.start v (ext2AllocInode fs).1
  generalize (ext2AllocInode fs).1 = i at hinode hnew hshows hfresh hout
  generalize (ext2AllocInode fs).2 = fs1 at hshows hout
  rcases hshows.allocBlock with ⟨hfull, -⟩ | ⟨hne, hnew', hdata, hshows'⟩
  · rw [if_pos hfull] at hout
    cases hout
  rw [if_neg hne] at hout
  replace hfresh := hfresh.take (ext2AllocBlock fs1).1
  generalize (ext2AllocBlock fs1).1 = c at hne hnew' hdata hshows' hfresh hout
  generalize (ext2AllocBlock fs1).2 = fs2 at hshows' hout
  obtain ⟨hwrite, hshows3⟩ := hshows'.writeBuf hdata (dotsBlock fs2.buf fs.blockSize i d)
  rw [if_pos hwrite] at hout
  obtain ⟨hwrite', hshows4⟩ := hshows3.writeInode ((hshows3.isInode_iff h rfl).mpr hinode)
    (newDirInode fs mode c)
  rw [if_pos hwrite'] at hout
  cases hout
  refine ⟨_, fs2.buf, hshows4, ?_, hinode, hnew, hnew', hdata, View.inode_withInode _ _ _, ?_⟩
  · rw [LawfulSingleton.insert_empty_eq] at hfresh
    exact (hfresh.putData hnew' _).putInode _
  · exact View.data_withData _ _ _

theorem newDirInode_fields
    (fs : Ext2Fs) (mode : Nat) (hbs : fs.blockSize < 2 ^ 32) (hb : b < 2 ^ 32) :
    (newDirInode fs mode b).mode = 0x4000 + mode % 0x1000 ∧ (newDirInode fs mode b).links = 2 ∧
      (newDirInode fs mode b).size = fs.blockSize ∧
      ∀ i, (newDirInode fs mode b).block i = if i = 0 then b else 0 := by
  refine ⟨?_, ?_, ?_, ?_⟩
  · simp only [newDirInode, Ext2Inode.mode_setBlocks, Ext2Inode.mode_setBlock,
      Ext2Inode.mode_setSize, Ext2Inode.mode_setLinks, Ext2Inode.mode_setMode]
    omega
  · simp [newDirInode]
  · simp only [newDirInode, Ext2Inode.size_setBlocks, Ext2Inode.size_setBlock,
      Ext2Inode.size_setSize, Nat.mod_eq_of_lt hbs]
  · intro i
    simp only [newDirInode, Ext2Inode.block_setBlocks, Ext2Inode.block_setBlock,
      Ext2Inode.block_setSize, Ext2Inode.block_setLinks, Ext2Inode.block_setMode,
      Nat.mod_eq_of_lt hb]
    rfl

theorem Inserted.mkdirLaw
    {w v2 : View} {fs2 : Ext2Fs} {ents ents2 : Nat → List Dirent} {buf : Nat → BitVec 8}
    (h : Inserted w d ents name n v2 ents2) (hshows : Shows fs fs.view) (hd : fs.IsInode d)
    (hused : d ∈ usedNumbers .inode fs) (hdir : DirOk fs.view (fs.view.inode d) ents)
    (hfresh : Fresh fs.view n {b} w) (hn : fs.IsInode n)
    (hnew : n ∉ usedNumbers .inode fs) (hbnew : b ∉ usedNumbers .block fs) (hb : fs.DataBlock b)
    (hraw : w.inode n = newDirInode fs mode b) (hblock : w.data b = dotsBlock buf fs.blockSize n d)
    (hshows2 : Shows fs2 v2) (hlinks : (fs.inodeOf d).links < 65535) :
    MkdirLaw fs (adjustLinks fs2 d Ext2Inode.addLink) d name mode n b := by
  have hframe := h.frame
  have hnd : n ≠ d := fun heq => hnew (heq ▸ hused)
  have hlayout := hshows.volume.inOrder.layout
  have hble : fs.blockSize ≤ 4096 := hlayout.blockSize_le
  have hwd : w.inode d = fs.inodeOf d := hfresh.inode d (Ne.symm hnd)
  -- the volume at the end
  have hinodes2 : v2.inodes = fs.view.inodes := hframe.inodes.trans hfresh.inodes
  have hd2 : fs2.IsInode d := (hshows2.isInode_iff hshows hinodes2).mpr hd
  obtain ⟨buf2, hread⟩ := hshows2.readInode hd2
  obtain ⟨fs3, hfs3⟩ : ∃ fs3, adjustLinks fs2 d Ext2Inode.addLink = fs3 := ⟨_, rfl⟩
  have hshows3 : Shows fs3 (v2.withInode d (v2.inode d).addLink) := by
    rw [← hfs3]
    simp only [adjustLinks, hread]
    exact ((hshows2.withBuf buf2).writeInode hd2 _).2
  have his : ∀ k, fs.IsInode k → fs3.IsInode k :=
    fun k => (hshows3.isInode_iff hshows hinodes2).mpr
  have hdir3 : DirOk (v2.withInode d (v2.inode d).addLink)
      ((v2.withInode d (v2.inode d).addLink).inode d) ents2 := by
    rw [View.inode_withInode]
    exact (h.dir.laid.rewrite (fun i => Ext2Inode.block_setLinks _ i _)
      (Ext2Inode.size_setLinks _ _) d).ok h.dir.names
  have hself : fs3.inodeOf n = newDirInode fs mode b := by
    rw [← hshows3.inode n (his n hn), View.inode_withInode_of_ne _ hnd, hframe.inode n hnd, hraw]
  have hbytes : v2.data b = dotsBlock buf fs.blockSize n d := by
    rw [← hblock]
    apply hframe.data b
    · rw [hfresh.usedBlocks]
      exact Or.inl rfl
    · rintro i hi hne rfl
      rw [hwd] at hne hbnew
      exact hbnew (hdir.owns.used i hi hne)
  have hbs : fs3.blockSize = fs.blockSize := by
    rw [← hshows3.blockSize]
    exact hframe.blockSize.trans hfresh.blockSize
  have hdata3 : fs3.DataBlock b := by
    rw [← hshows3.dataBlocks]
    change b ∈ v2.dataBlocks
    rw [hframe.dataBlocks, hfresh.dataBlocks]
    exact hb
  have hblocks : usedNumbers .block fs3 = v2.used .block := (hshows3.used .block).symm
  have hword : w.used .block = insert b (usedNumbers .block fs) := hfresh.usedBlocks
  have hcount : fs.sb.blocksCount < 2 ^ 32 := u32_lt _ _
  have hcount' : fs.sb.inodesCount < 2 ^ 32 := u32_lt _ _
  obtain ⟨hmode, hlinks', hsize, hptrs⟩ := newDirInode_fields fs mode
    (show fs.blockSize < 2 ^ 32 by omega) (show b < 2 ^ 32 from hb.1.trans hcount)
  rw [hfs3]
  refine ⟨?_, ?_, ?_, ?_, ?_, ?_, ?_, ?_, hnew, hbnew, ?_, ?_⟩
  · rw [hdir3.lookupScan_some hshows3 (his d hd), h.bindings.mem_iff]
    exact List.mem_cons_self
  · rw [hself, hmode]
  · rw [hself, hlinks']
  · rw [hself, hsize]
  · rw [hself]
    exact hptrs
  · have hmod : fs.blockSize % 4 = 0 ∧ 1024 ≤ fs.blockSize := by
      rcases hlayout.blockSize with hs | hs | hs
      · omega
      · omega
      · omega
    refine (dotsBlock_records buf hmod.1 hmod.2 hble (hn.2.trans_lt hcount')
      (hd.2.trans_lt hcount')).congr ?_
    intro q _ hq
    rw [← hshows3.data b q hdata3 (hbs ▸ hq), ← hbytes]
    rfl
  · rw [← hshows3.inode d (his d hd), View.inode_withInode]
    unfold Ext2Inode.addLink
    rw [Ext2Inode.links_setLinks, hframe.links, hwd, Nat.mod_eq_of_lt (by omega)]
  · intro other hother
    apply hdir.lookupScan_congr hshows hd hdir3 hshows3 (his d hd)
    intro x
    rw [h.bindings.mem_iff]
    simp [hother]
  · rw [← hshows3.used]
    exact hframe.usedInodes.trans hfresh.usedInodes
  · rw [hblocks, ← hword]
    rcases hframe.grown with hsame | ⟨c, hc, hins⟩
    · exact Or.inl hsame
    · rw [hword] at hc
      exact Or.inr ⟨c, fun hx => hc (Or.inr hx), fun hx => hc (Or.inl hx), hins⟩

/--
`ext2_mkdir` of a name that a well-formed directory of at most 11 blocks does not have.
When it succeeds, the name leads to a new directory with `.` and `..`, the parent has one
link more, its other names lead where they led, and one inode and one block are taken,
and at most one more block for the parent.
-/
theorem mkdir_law
    (hwf : DirWf st.fs d) (hparent : parent.privateData = some d)
    (hname : 1 ≤ name.length ∧ name.length ≤ 63)
    (hsize : (st.fs.inodeOf d).size ≤ 11 * st.fs.blockSize)
    (hlinks : (st.fs.inodeOf d).links < 65535) (habsent : lookupScan st.fs d name = some none)
    (hout : ext2Mkdir st parent name mode = some (true, st')) :
    ∃ no b, MkdirLaw st.fs st'.fs d name mode no b := by
  obtain ⟨hvolume, hd, hused, ents, hdir⟩ := hwf
  have hshows := hvolume.shows
  have hdir' : DirOk st.fs.view (st.fs.view.inode d) ents := hdir
  rw [hdir'.lookupScan_none hshows hd] at habsent
  unfold ext2Mkdir at hout
  rw [hparent] at hout
  dsimp only at hout
  rcases hmake : makeDir st.fs d mode with ⟨_ | ⟨n, b⟩, fs1⟩
  · rw [hmake] at hout
    cases hout
  rw [hmake] at hout
  dsimp only at hout
  split at hout
  · cases hout
  obtain ⟨w, buf, hshows1, hfresh, hinode, hnew, hbnew, hbdata, hraw, hblock⟩ :=
    makeDir_spec hshows hmake
  -- the parent is as it was, and the name comes in
  rcases hadd : ext2AddEntry ⟨fs1, st.dataNext + 1, st.vfsFree - 1⟩ parent name
      (newDirVfs fs1.blockSize n) with _ | ⟨_ | _, dir', entry', st2⟩
  · rw [hadd] at hout
    cases hout
  · rw [hadd] at hout
    cases hout
  · rw [hadd] at hout
    cases hout
    obtain ⟨v2, ents2, hentered, hshows2⟩ := hfresh.addEntry hshows1 hvolume hused hdir.laid hinode
      hnew hparent hname.2 hsize rfl hadd
    exact ⟨n, b, (hentered.inserted hdir.names habsent).mkdirLaw hshows hd hused hdir' hfresh hinode
      hnew hbnew hbdata hraw hblock hshows2 hlinks⟩

end Mkdir

/-- The directory `a` is made in the root directory. -/
theorem mkdir_law_root :
    ∃ st' no b, ext2Mkdir ⟨namedFs emptyRaw, 0, 256⟩ (fullDir 1024) [0x61#8] 0x1ED =
        some (true, st') ∧
      MkdirLaw (namedFs emptyRaw) st'.fs 2 [0x61#8] 0x1ED no b := by
  have hok : (ext2Mkdir ⟨namedFs emptyRaw, 0, 256⟩ (fullDir 1024) [0x61#8] 0x1ED).map Prod.fst =
      some true := by
    decide +kernel
  have hsize : ((namedFs emptyRaw).inodeOf 2).size ≤ 11 * (namedFs emptyRaw).blockSize ∧
      ((namedFs emptyRaw).inodeOf 2).links < 65535 := by
    decide +kernel
  obtain ⟨⟨ok, st'⟩, hout, rfl⟩ := Option.map_eq_some_iff.mp hok
  obtain ⟨no, b, hlaw⟩ := mkdir_law
    (show DirWf (Ext2State.mk (namedFs emptyRaw) 0 256).fs 2 from (namedFs_dir emptyRaw).1) rfl
    (by decide) hsize.1 hsize.2 (by decide +kernel) hout
  exact ⟨st', no, b, hout, hlaw⟩

/-- The root directory has as many links as it can count. -/
def crowdedFs : Ext2Fs :=
  (ext2WriteInode (namedFs emptyRaw) 2 (dirRaw 65535 7)).2

theorem crowdedFs_dir :
    DirWf crowdedFs 2 := by
  obtain ⟨hvolume, hd, hused, ents, hdir⟩ := (namedFs_dir emptyRaw).1
  have hshows := (hvolume.shows.writeInode hd (dirRaw 65535 7)).2
  have hraw : (namedFs emptyRaw).inodeOf 2 = dirRaw 2 7 := by
    rw [← (namedFs_shows emptyRaw).inode 2 hd]
    unfold namedView
    rw [View.inode_withInode_of_ne _ (by decide), View.inode_withInode]
  rw [hraw] at hdir
  have hsame : (dirRaw 65535 7).block = (dirRaw 2 7).block ∧
      (dirRaw 65535 7).size = (dirRaw 2 7).size := by
    refine ⟨funext fun k => ?_, by decide⟩
    unfold dirRaw
    simp only [Ext2Inode.block_setBlock, Ext2Inode.block_setSize, Ext2Inode.block_setLinks]
  refine DirOk.wf (show DirOk _ _ ents from ?_) hshows
    ((hshows.isInode_iff hvolume.shows rfl).mpr hd) hused
  rw [View.inode_withInode]
  refine ⟨⟨?_, ?_, ?_, hdir.names⟩, ?_, hdir.owns.congr rfl rfl (fun k => congrFun hsame.1 k)⟩
  · rw [hsame.2]
    exact hdir.size_le
  · rw [hsame.1]
    exact hdir.records
  · rw [hsame.1]
    exact hdir.holes
  · rw [hsame.1, hsame.2]
    exact hdir.within

/-- `ext2_mkdir` returns 0, and the parent has no links. -/
theorem mkdir_wraps_links :
    DirWf crowdedFs 2 ∧ lookupScan crowdedFs 2 [0x61#8] = some none ∧
      (crowdedFs.inodeOf 2).links = 65535 ∧
      (ext2Mkdir ⟨crowdedFs, 0, 256⟩ (fullDir 1024) [0x61#8] 0x1ED).map
        (fun r => (r.1, (r.2.fs.inodeOf 2).links)) = some (true, 0) := by
  refine ⟨crowdedFs_dir, ?_, ?_, ?_⟩
  · decide +kernel
  · decide +kernel
  · decide +kernel

/-- `ext2_readlink_op`: the length that it returns, the buffer, the file system. -/
def ext2ReadlinkOp (fs : Ext2Fs) (inode : VfsInode) (buf : Nat → BitVec 8)
    (size : Nat) : Option Nat × (Nat → BitVec 8) × Ext2Fs :=
  match inode.privateData with
  | none => (none, buf, fs)
  | some no =>
    match ext2ReadInode fs no with
    | (none, fs) => (none, buf, fs)
    | (some raw, fs) =>
      let targetLen := min raw.size ((size + 2 ^ 32 - 1) % 2 ^ 32)
      if targetLen ≤ 60 then
        (some targetLen, putU8 (copy buf 0 (fun k => raw.bytes (40 + k)) targetLen) targetLen 0, fs)
      else if raw.block 0 = 0 then
        (none, buf, fs)
      else
        let r := fs.readBuf (raw.block 0)
        if r.1 then
          (some targetLen, putU8 (copy buf 0 r.2.buf targetLen) targetLen 0, r.2)
        else
          (none, buf, r.2)

/-- The buffer of `s` bytes gets as much of the target as fits, and a zero byte. -/
def ReadlinkRight (fs : Ext2Fs) (inode : VfsInode) (target : List (BitVec 8)) (s : Nat) : Prop :=
  ∀ buf, ∃ buf' fs', ext2ReadlinkOp fs inode buf s = (some (min target.length (s - 1)), buf', fs') ∧
    (∀ k, k < min target.length (s - 1) → buf' k = target.getD k 0#8) ∧
    buf' (min target.length (s - 1)) = 0#8

/-- The target of a link in the inode or in its first block. -/
structure HoldsTarget (raw : Ext2Inode) (block : Nat → BitVec 8)
    (target : List (BitVec 8)) : Prop where
  size : raw.size = target.length
  short : target.length ≤ 60 → ∀ k, k < target.length → raw.bytes (40 + k) = target.getD k 0#8
  long : 60 < target.length → raw.block 0 ≠ 0 ∧
    ∀ k, k < target.length → block k = target.getD k 0#8

section Symlink

variable {st st' : Ext2State} {fs fs' : Ext2Fs} {v w : View} {d n no s : Nat} {raw : Ext2Inode}
variable {name target : List (BitVec 8)} {parent inode : VfsInode}

variable (h : HoldsTarget (fs.inodeOf no) (fs.diskByte ((fs.inodeOf no).block 0)) target)
variable (hv : Volume fs) (hno : fs.IsInode no) (hlen : target.length ≤ fs.blockSize)
variable (hdata : inode.privateData = some no) (hs : 1 ≤ s) (hs' : s < 2 ^ 32)
include h hv hno hlen hdata hs hs'

theorem HoldsTarget.readlink_eq :
    ∃ src fs', (∀ buf, ext2ReadlinkOp fs inode buf s = (some (min target.length (s - 1)),
        putU8 (copy buf 0 src (min target.length (s - 1))) (min target.length (s - 1)) 0, fs')) ∧
      ∀ k, k < min target.length (s - 1) → src k =
        if min target.length (s - 1) ≤ 60 then (fs.inodeOf no).bytes (40 + k)
        else target.getD k 0#8 := by
  obtain ⟨buf0, hread⟩ : ∃ buf0, ext2ReadInode fs no = (some (fs.inodeOf no), fs.withBuf buf0) :=
    hv.shows.readInode hno
  have hi := hv.inOrder
  have hcut : min (fs.inodeOf no).size ((s + 2 ^ 32 - 1) % 2 ^ 32) =
      min target.length (s - 1) := by
    rw [h.size, show (s + 2 ^ 32 - 1) % 2 ^ 32 = s - 1 by omega]
  simp only [ext2ReadlinkOp, hdata, hread, hcut]
  by_cases hfast : min target.length (s - 1) ≤ 60
  · simp only [if_pos hfast]
    exact ⟨_, _, fun _ => rfl, fun _ _ => rfl⟩
  · obtain ⟨hne, hblock⟩ := h.long (by omega)
    have hok := readBuf_healthy (fs.withBuf buf0) hi.healthy ((fs.inodeOf no).block 0)
    simp only [if_neg hfast, if_neg hne, if_pos hok]
    refine ⟨_, _, fun _ => rfl, ?_⟩
    intro k hk
    rw [readBuf_done (fs.withBuf buf0) hi.layout.blockSize hok (show k < fs.blockSize by omega)]
    exact hblock k (by omega)

theorem HoldsTarget.readlink_iff :
    ReadlinkRight fs inode target s ↔ target.length ≤ 60 ∨ 61 < s ∨
      ∀ k, k < s - 1 → (fs.inodeOf no).bytes (40 + k) = target.getD k 0#8 := by
  obtain ⟨src, fs', hout, hsrc⟩ := h.readlink_eq hv hno hlen hdata hs hs'
  have hcopied : ∀ (buf : Nat → BitVec 8) len k, k < len →
      putU8 (copy buf 0 src len) len 0 k = src k := by
    intro buf len k hk
    rw [putU8_of_ne (by omega), copy_inside (Nat.zero_le k) (by omega), Nat.sub_zero]
  have hright : ReadlinkRight fs inode target s ↔
      ∀ k, k < min target.length (s - 1) → src k = target.getD k 0#8 := by
    constructor
    · intro hright k hk
      obtain ⟨buf', fs'', hout', hfirst, -⟩ := hright (fun _ => 0#8)
      rw [hout] at hout'
      rw [← hfirst k hk, ← (Prod.mk.inj (Prod.mk.inj hout').2).1]
      exact (hcopied _ _ k hk).symm
    · intro hsame buf
      refine ⟨_, _, hout buf, ?_, if_pos rfl⟩
      intro k hk
      rw [hcopied _ _ k hk, hsame k hk]
  rw [hright]
  by_cases hshort : target.length ≤ 60
  · refine iff_of_true ?_ (Or.inl hshort)
    intro k hk
    rw [hsrc k hk, if_pos (by omega)]
    exact h.short hshort k (by omega)
  by_cases hlong : 61 < s
  · refine iff_of_true ?_ (Or.inr (Or.inl hlong))
    intro k hk
    rw [hsrc k hk, if_neg (by omega)]
  · -- a long target and a short buffer: the pointers of the inode are read
    have hmin : min target.length (s - 1) = s - 1 := by omega
    rw [hmin] at hsrc ⊢
    constructor
    · intro hsame
      refine Or.inr (Or.inr ?_)
      intro k hk
      rw [← hsame k hk, hsrc k hk, if_pos (by omega)]
    · intro hcond k hk
      rw [hsrc k hk, if_pos (by omega)]
      exact (hcond.resolve_left hshort).resolve_left hlong k hk

omit h hv hno hlen hdata hs hs'

theorem Ext2Inode.bytes_setTarget (raw : Ext2Inode) (h : target.length ≤ 60) :
    (raw.setTarget target h).bytes =
      copy raw.bytes 40 (fun k => target.getD k 0#8) target.length :=
  rfl

theorem placeTarget_spec
    (h : Shows fs w) (hfresh : Fresh v n ∅ w) (hlen : target.length ≤ fs.blockSize)
    (hout : placeTarget fs target = (some raw, fs')) :
    ∃ B u, Shows fs' u ∧ Fresh v n B u ∧ HoldsTarget raw (u.data (raw.block 0)) target ∧
      (60 < target.length → raw.block 0 ∈ B ∧ raw.block 0 ∉ v.used .block ∧
        raw.block 0 ∈ v.dataBlocks) := by
  have hble := h.volume.inOrder.layout.blockSize_le
  have hsize : (newLinkInode target).size = target.length := by
    rw [newLinkInode, Ext2Inode.size_setSize, Nat.mod_eq_of_lt (by omega)]
  unfold placeTarget at hout
  by_cases hshort : target.length ≤ 60
  · rw [dif_pos hshort] at hout
    cases hout
    refine ⟨∅, w, h, hfresh, ⟨?_, ?_, fun hlong => by omega⟩, fun hlong => by omega⟩
    · refine (u32_congr (fun j hj => ?_)).trans hsize
      rw [Ext2Inode.bytes_setTarget, copy_outside (by omega)]
    · intro _ k hk
      rw [Ext2Inode.bytes_setTarget, copy_inside (by omega) (by omega), Nat.add_sub_cancel_left]
  · rw [dif_neg hshort] at hout
    dsimp only at hout
    rcases h.allocBlock with ⟨hzero, -⟩ | ⟨hne, hnew, hdata, hshows⟩
    · rw [if_pos hzero] at hout
      cases hout
    rw [if_neg hne] at hout
    have hold : w.used .block = v.used .block :=
      hfresh.usedBlocks.trans (Set.empty_union _)
    have hdata' := hfresh.dataBlocks ▸ hdata
    replace hfresh := hfresh.take (ext2AllocBlock fs).1
    rw [hold] at hnew
    generalize (ext2AllocBlock fs).1 = b at hne hnew hdata hdata' hshows hfresh hout
    generalize (ext2AllocBlock fs).2 = fs1 at hshows hout
    obtain ⟨m, hm⟩ : ∃ m, copy (fun q => if q < fs.blockSize then 0#8 else fs1.buf q) 0
        (fun k => target.getD k 0#8) target.length = m := ⟨_, rfl⟩
    rw [hm] at hout
    obtain ⟨hwrite, hshows'⟩ := hshows.writeBuf hdata m
    rw [if_pos hwrite] at hout
    cases hout
    have hcount : fs.sb.blocksCount < 2 ^ 32 := u32_lt _ _
    have hb : b < fs.sb.blocksCount := ((h.dataBlocks b).mp hdata).1
    have hblock : (((newLinkInode target).setBlock 0 b).setBlocks (fs.blockSize / 512)).block 0 =
        b := by
      rw [Ext2Inode.block_setBlocks, Ext2Inode.block_setBlock]
      exact Nat.mod_eq_of_lt (by omega)
    rw [hblock]
    refine ⟨_, _, hshows', hfresh.putData hnew m, ⟨?_, fun hle => absurd hle hshort, ?_⟩, ?_⟩
    · rw [Ext2Inode.size_setBlocks, Ext2Inode.size_setBlock, hsize]
    · intro _
      refine ⟨by rw [hblock]; exact hne, ?_⟩
      intro k hk
      rw [View.data_withData, ← hm, copy_inside (Nat.zero_le k) (by omega), Nat.sub_zero]
    · exact fun _ => ⟨Set.mem_insert _ _, hnew, hdata'⟩

/--
A link that `ext2_symlink` has made in a well-formed directory of at most 11 blocks is
read right for a buffer of `s` bytes exactly if the target is short, or the buffer has
room for more than 60 bytes of it, or the bytes of the block number happen to be those
of the target.
-/
theorem readlink_right_iff
    (hwf : DirWf st.fs d) (hparent : parent.privateData = some d) (hname : name.length ≤ 63)
    (hsize : (st.fs.inodeOf d).size ≤ 11 * st.fs.blockSize)
    (hlen : 1 ≤ target.length ∧ target.length ≤ st.fs.blockSize)
    (hout : ext2Symlink st parent name target = some (true, st')) :
    ∃ no, no ∉ usedNumbers .inode st.fs ∧ no ∈ usedNumbers .inode st'.fs ∧
      (st'.fs.inodeOf no).size = target.length ∧
      ∀ (inode : VfsInode) s, inode.privateData = some no → 1 ≤ s → s < 2 ^ 32 →
        (ReadlinkRight st'.fs inode target s ↔ target.length ≤ 60 ∨ 61 < s ∨
          ∀ k, k < s - 1 → (st'.fs.inodeOf no).bytes (40 + k) = target.getD k 0#8) := by
  obtain ⟨hvolume, hd, hused, ents, hdir⟩ := hwf
  have hshows := hvolume.shows
  unfold ext2Symlink at hout
  rw [hparent] at hout
  rcases hshows.allocInode with ⟨hzero, -⟩ | ⟨hinode, hnew, hshows1⟩
  · rw [if_pos hzero] at hout
    cases hout
  rw [if_neg (by have hpos := hinode.1; omega)] at hout
  have hfresh := Fresh.start st.fs.view (ext2AllocInode st.fs).1
  generalize (ext2AllocInode st.fs).1 = n at hinode hnew hshows1 hfresh hout
  generalize (ext2AllocInode st.fs).2 = fs1 at hshows1 hout
  rcases hplace : placeTarget fs1 target with ⟨_ | raw, fs2⟩
  · rw [hplace] at hout
    cases hout
  obtain ⟨B, u, hshows2, hfresh2, hholds, hblock⟩ := placeTarget_spec hshows1 hfresh
    (by rw [← hshows1.blockSize]; exact hlen.2) hplace
  obtain ⟨hwrite, hshows3⟩ := hshows2.writeInode
    ((hshows2.isInode_iff hshows hfresh2.inodes).mpr hinode) raw
  replace hfresh2 := hfresh2.putInode raw
  rw [hplace] at hout
  dsimp only at hout
  rw [if_pos hwrite] at hout
  split at hout
  · cases hout
  rcases hadd : ext2AddEntry ⟨(ext2WriteInode fs2 n raw).2, st.dataNext + 1, st.vfsFree - 1⟩ parent
      name (newLinkVfs n target) with _ | ⟨ok, dir', entry', st2⟩
  · rw [hadd] at hout
    cases hout
  rw [hadd] at hout
  cases hout
  obtain ⟨v2, ents2, hentered, hshows4⟩ := hfresh2.addEntry hshows3 hvolume hused hdir.laid hinode
    hnew hparent hname hsize rfl hadd
  have hframe := hentered.frame
  have hnd : n ≠ d := fun heq => hnew (heq ▸ hused)
  -- the directory has not touched the link
  have hno : st2.fs.IsInode n :=
    (hshows4.isInode_iff hshows (hframe.inodes.trans hfresh2.inodes)).mpr hinode
  have hraw : st2.fs.inodeOf n = raw := by
    rw [← hshows4.inode n hno, hframe.inode n hnd, View.inode_withInode]
  have hbs : st2.fs.blockSize = st.fs.blockSize := by
    rw [← hshows4.blockSize]
    exact hframe.blockSize.trans hfresh2.blockSize
  have hholds' : HoldsTarget (st2.fs.inodeOf n) (st2.fs.diskByte ((st2.fs.inodeOf n).block 0))
      target := by
    rw [hraw]
    refine ⟨hholds.size, hholds.short, ?_⟩
    intro hlong
    obtain ⟨hne, hbytes⟩ := hholds.long hlong
    obtain ⟨hB, hfree, hdata⟩ := hblock hlong
    refine ⟨hne, ?_⟩
    intro k hk
    have hdata' : st2.fs.DataBlock (raw.block 0) := by
      rw [← hshows4.dataBlocks, hframe.dataBlocks, hfresh2.dataBlocks]
      exact hdata
    rw [← hbytes k hk, ← hshows4.data _ k hdata' (by omega), hframe.data]
    · rfl
    · rw [hfresh2.usedBlocks]
      exact Or.inl hB
    · rintro i hi hne' heq
      rw [hfresh2.inode d (Ne.symm hnd)] at hne' heq
      exact hfree (heq ▸ hdir.owns.used i hi hne')
  refine ⟨n, hnew, ?_, by rw [hraw, hholds.size], ?_⟩
  · rw [← hshows4.used, hframe.usedInodes, hfresh2.usedInodes]
    exact Set.mem_insert _ _
  · intro inode s hdata hs hs'
    exact hholds'.readlink_iff hshows4.volume hno (by omega) hdata hs hs'

end Symlink

/-- A link to `x` in the root directory is read whole in a buffer of 11 bytes. -/
theorem readlink_right_iff_root :
    ∃ st' no, ext2Symlink ⟨namedFs emptyRaw, 0, 256⟩ (fullDir 1024) [0x61#8] [0x78#8] =
        some (true, st') ∧
      ReadlinkRight st'.fs { fullDir 1 with privateData := some no } [0x78#8] 11 := by
  have hok : (ext2Symlink ⟨namedFs emptyRaw, 0, 256⟩ (fullDir 1024) [0x61#8] [0x78#8]).map
      Prod.fst = some true := by
    decide +kernel
  have hsize : ((namedFs emptyRaw).inodeOf 2).size ≤ 11 * (namedFs emptyRaw).blockSize := by
    decide +kernel
  obtain ⟨⟨ok, st'⟩, hout, rfl⟩ := Option.map_eq_some_iff.mp hok
  obtain ⟨no, -, -, -, hread⟩ := readlink_right_iff
    (show DirWf (Ext2State.mk (namedFs emptyRaw) 0 256).fs 2 from (namedFs_dir emptyRaw).1) rfl
    (by decide) hsize ⟨by decide, by decide +kernel⟩ hout
  exact ⟨st', no, hout, (hread _ 11 rfl (by decide) (by decide)).mpr (Or.inl (by decide))⟩

/-- Of a target of 61 bytes a buffer of 11 bytes gets the block number and zeros. -/
theorem readlink_gives_pointers :
    ∃ st', ext2Symlink ⟨namedFs emptyRaw, 0, 256⟩ (fullDir 1024) [0x61#8]
        (List.replicate 61 0x78#8) = some (true, st') ∧
      lookupScan st'.fs 2 [0x61#8] = some (some 13) ∧
      ¬ ReadlinkRight st'.fs { fullDir 61 with privateData := some 13 }
        (List.replicate 61 0x78#8) 11 := by
  have hrun : (ext2Symlink ⟨namedFs emptyRaw, 0, 256⟩ (fullDir 1024) [0x61#8]
      (List.replicate 61 0x78#8)).map (fun r => (r.1, lookupScan r.2.fs 2 [0x61#8],
        (ext2ReadlinkOp r.2.fs { fullDir 61 with privateData := some 13 }
          (fun _ => 0#8) 11).2.1 5)) = some (true, some (some 13), 0#8) := by
    decide +kernel
  obtain ⟨⟨ok, st'⟩, hout, hrun⟩ := Option.map_eq_some_iff.mp hrun
  simp only [Prod.mk.injEq] at hrun
  obtain ⟨rfl, hfound, hzero⟩ := hrun
  refine ⟨st', hout, hfound, ?_⟩
  intro hright
  obtain ⟨buf', fs', hread, hfirst, -⟩ := hright (fun _ => 0#8)
  rw [hread] at hzero
  exact absurd ((hfirst 5 (by decide)).symm.trans hzero) (by decide)

end Ext2
end Homunculos
