import Homunculos.Ext2.UnlinkLaw
import Homunculos.Vfs.Ext2Calls

/-!
# One write or two

`vfs_file_write` of two strings, one after the other, and of their concatenation.  In the
direct blocks a call puts the bytes one by one as far as there are blocks, each new block
the least free one, and so two calls do what one does.  The exception is a call with no
bytes at position 0, which empties the file.
-/

namespace Homunculos
namespace Vfs

open Ext2 Bytes Block Paged

/-- `vfs_file_write` of a string. -/
def writeText (fs : Ext2Fs) (inode : VfsInode) (pos : Nat)
    (xs : List (BitVec 8)) : Option Nat × Nat × VfsInode × Ext2Fs :=
  vfsFileWrite fs inode pos (fun k => xs.getD k 0#8) xs.length

/-- The inode `no` has the same size and reads the same. -/
def SameContents (fs fs' : Ext2Fs) (inode : VfsInode) (no : Nat) : Prop :=
  (fs'.inodeOf no).size = (fs.inodeOf no).size ∧
    ∀ o len, o + len < 2 ^ 32 →
      (ext2InodeRead fs' inode o len).1 = (ext2InodeRead fs inode o len).1

/-- Two writes do what one write does, and a write of no bytes does nothing. -/
def WriteAdds (fs : Ext2Fs) (inode : VfsInode) (no pos : Nat) (a b : List (BitVec 8)) : Prop :=
  let w := writeText fs inode pos a
  let w₂ := writeText w.2.2.2 w.2.2.1 w.2.1 b
  let w₁ := writeText fs inode pos (a ++ b)
  SameContents w₁.2.2.2 w₂.2.2.2 inode no ∧ w₂.2.1 = w₁.2.1 ∧
    (a = [] → SameContents fs w.2.2.2 inode no ∧ w.2.1 = pos)

/-- The call is not taken for a request to empty the file, or the file is empty. -/
def NoCut (fs : Ext2Fs) (no pos : Nat) (xs : List (BitVec 8)) : Prop :=
  xs ≠ [] ∨ pos ≠ 0 ∨ (fs.inodeOf no).size = 0

/-- An inode in memory of the regular file `no`. -/
structure FileInode (inode : VfsInode) (no : Nat) : Prop where
  ops : inode.ops = some .file
  type : inode.iType = .file
  data : inode.privateData = some no

/-- A call has put `n` bytes of `xs` into the file. -/
structure Adds (v : View) (no pos : Nat) (xs : List (BitVec 8)) (n : Nat) (u : View) : Prop where
  blockSize : u.blockSize = v.blockSize
  inodes : u.inodes = v.inodes
  dataBlocks : u.dataBlocks = v.dataBlocks
  owns : OwnsDirect u (u.inode no)
  le : n ≤ xs.length
  puts : (v.store (v.inode no)).puts v.blockSize v.dataBlocks pos xs = (n, u.store (u.inode no))
  size : (u.inode no).size = if 0 < n then max (v.inode no).size (pos + n) else (v.inode no).size
  kept : ∀ b, b ∈ v.used .block →
    (∀ i, i < 12 → (v.inode no).block i ≠ 0 → (v.inode no).block i ≠ b) → u.data b = v.data b
  slots : ∀ i, 12 ≤ i → (u.inode no).block i = (v.inode no).block i

section Calls

variable {fs fs' : Ext2Fs} {v u : View} {inode : VfsInode} {no pos n : Nat}
variable {xs a b : List (BitVec 8)}

theorem range_map_getD (xs : List (BitVec 8)) :
    (List.range xs.length).map (fun k => xs.getD k 0#8) = xs := by
  apply List.ext_getElem
  · simp
  · intro k hk hk'
    simp [hk']

theorem store_withInode
    (v : View) (no : Nat) {raw final : Ext2Inode} (hblock : ∀ i, final.block i = raw.block i) :
    (v.withInode no final).store final = v.store raw := by
  unfold View.store
  rw [funext hblock]
  rfl

theorem Adds.nothing {final : Ext2Inode} (howns : OwnsDirect v (v.inode no)) (pos : Nat)
    (hblock : ∀ i, final.block i = (v.inode no).block i) (hsize : final.size = (v.inode no).size) :
    Adds v no pos [] 0 (v.withInode no final) := by
  refine ⟨rfl, rfl, rfl, ?_, le_rfl, ?_, ?_, fun _ _ _ => rfl, ?_⟩
  · rw [View.inode_withInode]
    exact howns.congr rfl rfl hblock
  · rw [View.inode_withInode, store_withInode v no hblock]
    rfl
  · rw [View.inode_withInode, if_neg (Nat.lt_irrefl 0), hsize]
  · intro i _
    rw [View.inode_withInode, hblock]

theorem Adds.idle (howns : OwnsDirect v (v.inode no)) (pos : Nat) :
    Adds v no pos [] 0 v := by
  have h := Adds.nothing howns pos (fun _ => rfl) (rfl : (v.inode no).size = _)
  rwa [View.withInode_self] at h

theorem writeText_eq (hops : inode.ops = some .file) :
    writeText fs inode pos xs =
      let r := ext2InodeWrite fs inode pos (fun k => xs.getD k 0#8) xs.length
      (r.1, (pos + r.1.getD 0) % 2 ^ 32, r.2.1, r.2.2) := by
  simp only [writeText, vfsFileWrite, hops]

theorem emptyFile_of_empty
    {raw : Ext2Inode} {buf : Nat → BitVec 8} (hbs : BlockSizeOk fs) (hsize : raw.size = 0) :
    emptyFile (fs.withBuf buf) no raw =
      (ext2WriteInode (fs.withBuf buf) no ((raw.setSize 0).setBlocks 0)).2 := by
  have hpos := hbs.pos
  have hcount : (fs.withBuf buf).blocksFor raw.size = 0 := by
    unfold Ext2Fs.blocksFor
    rw [hsize, Nat.zero_add]
    exact Nat.div_eq_of_lt ((Nat.mod_le _ _).trans_lt (Nat.sub_lt hpos Nat.one_pos))
  unfold emptyFile
  rw [hcount]
  rfl

/-- `vfs_file_write` in the direct blocks. -/
theorem writeText_adds (h : Shows fs v) (hinode : FileInode inode no) (hno : fs.IsInode no)
    (howns : OwnsDirect v (v.inode no)) (hfits : pos + xs.length ≤ 12 * v.blockSize)
    (hcut : NoCut fs no pos xs) :
    ∃ n u inode' fs', writeText fs inode pos xs = (some n, pos + n, inode', fs') ∧
      FileInode inode' no ∧ Adds v no pos xs n u ∧ Shows fs' u := by
  have hble : v.blockSize ≤ 4096 := by
    rw [h.blockSize]
    exact h.volume.inOrder.layout.blockSize_le
  have hraw : v.inode no = fs.inodeOf no := h.inode no hno
  have hwrite : ∀ n inode' fs', ext2InodeWrite fs inode pos (fun k => xs.getD k 0#8) xs.length =
      (some n, inode', fs') → n ≤ xs.length →
      writeText fs inode pos xs = (some n, pos + n, inode', fs') ∧ FileInode inode' no := by
    intro n inode' fs' hout hn
    obtain ⟨size, hsize⟩ := inodeWrite_inode fs inode pos xs.length (fun k => xs.getD k 0#8)
    rw [hout] at hsize
    obtain rfl : inode' = _ := hsize
    refine ⟨?_, hinode.ops, hinode.type, hinode.data⟩
    rw [writeText_eq hinode.ops, hout]
    dsimp only [Option.getD_some]
    rw [Nat.mod_eq_of_lt (by omega)]
  by_cases hnil : xs = []
  · subst hnil
    obtain ⟨inode', buf', hout⟩ := inodeWrite_nothing h.volume hno hinode.type hinode.data pos
      (by omega) (fun k => ([] : List (BitVec 8)).getD k 0#8)
    by_cases hpos : pos = 0
    · -- the file is empty, and its inode is written again
      have hzero : (fs.inodeOf no).size = 0 := by
        rcases hcut with hcut | hcut | hcut
        · exact absurd rfl hcut
        · exact absurd hpos hcut
        · exact hcut
      rw [if_pos hpos, emptyFile_of_empty h.volume.inOrder.layout.blockSize hzero] at hout
      obtain ⟨-, hshows⟩ := (h.withBuf buf').writeInode hno
        (((fs.inodeOf no).setSize 0).setBlocks 0)
      obtain ⟨hout', hinode'⟩ := hwrite 0 _ _ hout le_rfl
      refine ⟨0, _, _, _, hout', hinode', Adds.nothing howns pos ?_ ?_, hshows⟩
      · intro i
        rw [Ext2Inode.block_setBlocks, Ext2Inode.block_setSize, hraw]
      · rw [Ext2Inode.size_setBlocks, Ext2Inode.size_setSize, hraw, hzero, Nat.zero_mod]
    · rw [if_neg hpos] at hout
      obtain ⟨hout', hinode'⟩ := hwrite 0 _ _ hout le_rfl
      exact ⟨0, v, _, _, hout', hinode', Adds.idle howns pos, h.withBuf buf'⟩
  · obtain ⟨n, v', raw, final, inode', fs', hout, hn, hwritten, hfinal, hshows, -, hputs⟩ :=
      inodeWrite_spec h hinode.type hinode.data hno howns (fun k => xs.getD k 0#8)
        (List.length_pos_iff.mpr hnil) hfits
    rw [range_map_getD] at hputs
    obtain ⟨hout', hinode'⟩ := hwrite n _ fs' hout hn
    refine ⟨n, v'.withInode no final, _, fs', hout', hinode', ?_, hshows⟩
    refine ⟨hwritten.blockSize, hwritten.inodes, hwritten.dataBlocks, ?_, hn, ?_, ?_, ?_, ?_⟩
    · rw [View.inode_withInode]
      exact hwritten.owns.congr rfl rfl hfinal.block
    · rw [View.inode_withInode, hputs, store_withInode v' no hfinal.block]
    · rw [View.inode_withInode]
      exact hfinal.size
    · exact fun b hb hapart => hwritten.keeps hb hapart
    · intro i hi
      rw [View.inode_withInode, hfinal.block]
      exact hwritten.kept i (Or.inr hi)

theorem Adds.byteOf_eq
    (h : Adds v no pos xs n u) (hfs : Shows fs v) (hfile : FileOk fs no) (hfs' : Shows fs' u)
    {s : Store (BitVec 8)}
    (hs : ((v.store (v.inode no)).puts v.blockSize v.dataBlocks pos xs).2 = s) {p : Nat}
    (hp : p / fs.blockSize < 12 ∨ p < (fs.inodeOf no).size) :
    byteOf fs' (fs'.inodeOf no) p =
      if p / fs.blockSize < 12 then
        if s.page (p / fs.blockSize) = 0 then 0#8
        else s.data (s.page (p / fs.blockSize)) (p % fs.blockSize)
      else byteOf fs (fs.inodeOf no) p := by
  have hbs : fs'.blockSize = fs.blockSize := by
    rw [← hfs.blockSize, ← hfs'.blockSize, h.blockSize]
  have hbpos := hfs.volume.inOrder.layout.blockSize
  have hno' : fs'.IsInode no := (hfs'.isInode_iff hfs h.inodes).mpr hfile.isInode
  have hraw := hfs'.inode no hno'
  have hraw0 := hfs.inode no hfile.isInode
  have hblocks : ∀ b, fs.DataBlock b ↔ fs'.DataBlock b := by
    intro b
    rw [← hfs.dataBlocks, ← hfs'.dataBlocks, h.dataBlocks]
  rw [h.puts] at hs
  subst hs
  by_cases hidx : p / fs.blockSize < 12
  · rw [if_pos hidx, byteOf_direct (by rw [hbs]; exact hidx), hbs, ← hraw]
    change _ = if (u.inode no).block _ = 0 then _ else u.data ((u.inode no).block _) _
    by_cases hzero : (u.inode no).block (p / fs.blockSize) = 0
    · rw [if_pos hzero, if_pos hzero]
    · rw [if_neg hzero, if_neg hzero]
      have hblock := (hfs'.dataBlocks _).mp (h.owns.data _ hidx hzero)
      exact (hfs'.data _ _ hblock (by rw [hbs]; exact Nat.mod_lt p hbpos.pos)).symm
  · rw [if_neg hidx]
    refine hfile.byteOf_indirect hbpos hbs ?_ ?_ hidx (hp.resolve_left hidx)
    · intro slot hslot
      rw [← hraw, ← hraw0, h.slots slot hslot]
    · intro b q hused hb hapart hq
      rw [← hraw0] at hapart
      rw [← hfs.data b q hb hq, ← hfs'.data b q ((hblocks b).mp hb) (hbs ▸ hq),
        h.kept b (hfs.used .block ▸ hused) hapart]

theorem Adds.sameContents
    {u' : View} {fs1 : Ext2Fs} (h : Adds v no pos xs n u) (h' : Adds v no pos xs n u')
    (hfs : Shows fs v) (hfile : FileOk fs no) (hfs1 : Shows fs1 u) (hfs' : Shows fs' u')
    (hinode : FileInode inode no) (hfits : pos + xs.length ≤ 12 * v.blockSize) :
    SameContents fs1 fs' inode no := by
  have htype := hinode.type
  have hno1 : fs1.IsInode no := (hfs1.isInode_iff hfs h.inodes).mpr hfile.isInode
  have hno' : fs'.IsInode no := (hfs'.isInode_iff hfs h'.inodes).mpr hfile.isInode
  have hsize : (fs'.inodeOf no).size = (fs1.inodeOf no).size := by
    rw [← hfs1.inode no hno1, ← hfs'.inode no hno', h.size, h'.size]
  refine ⟨hsize, ?_⟩
  intro o len hlen
  rw [inodeRead_spec hfs'.volume.toSkeleton (by simp [htype]) (by simp [htype]) hinode.data
      hno' hlen,
    inodeRead_spec hfs1.volume.toSkeleton (by simp [htype]) (by simp [htype]) hinode.data hno1
      hlen, hsize]
  congr 1
  apply List.map_congr_left
  intro k hk
  have hk' := List.mem_range.mp hk
  have hp : (o + k) / fs.blockSize < 12 ∨ o + k < (fs.inodeOf no).size := by
    have hend : o + k < (fs1.inodeOf no).size := by omega
    have hle := h.le
    rw [← hfs1.inode no hno1, h.size] at hend
    rw [← hfs.inode no hfile.isInode, Nat.div_lt_iff_lt_mul
      hfs.volume.inOrder.layout.blockSize.pos, ← hfs.blockSize]
    split at hend
    · omega
    · exact Or.inr hend
  rw [h.byteOf_eq hfs hfile hfs1 rfl hp, h'.byteOf_eq hfs hfile hfs' rfl hp]

theorem Adds.append {u1 u2 : View} {n1 n2 : Nat} (h1 : Adds v no pos a n1 u1)
    (h2 : Adds u1 no (pos + n1) b n2 u2) (h : Adds v no pos (a ++ b) n u) :
    n = n1 + n2 ∧ Adds v no pos (a ++ b) n u2 := by
  have hputs := h.puts
  have hsecond := h2.puts
  rw [h1.blockSize, h1.dataBlocks] at hsecond
  rw [Store.puts_append, h1.puts] at hputs
  rw [hsecond] at hputs
  dsimp only at hputs
  obtain ⟨hn, hstore⟩ := Prod.mk.inj hputs
  obtain ⟨-, hpage, hbytes⟩ := Store.mk.inj hstore
  refine ⟨hn.symm, h2.blockSize.trans h1.blockSize, h2.inodes.trans h1.inodes,
    h2.dataBlocks.trans h1.dataBlocks, h2.owns, h.le, ?_, ?_, ?_, ?_⟩
  · rw [h.puts, hstore]
  · rw [h2.size, h1.size]
    split_ifs
    all_goals omega
  · intro b hb hapart
    rw [hbytes]
    exact h.kept b hb hapart
  · intro i hi
    rw [hpage]
    exact h.slots i hi

end Calls

section Law

variable {fs fs' : Ext2Fs} {inode : VfsInode} {no pos : Nat} {a b : List (BitVec 8)}

theorem Adds.treeFile
    {v u : View} {xs : List (BitVec 8)} (h : Adds v no pos xs 0 u) (hfs : Shows fs v)
    (hfs' : Shows fs' u) (htree : TreeFile fs no) :
    TreeFile fs' no := by
  obtain ⟨hused, hpage, hbytes⟩ := Store.mk.inj (Store.puts_zero h.puts)
  have hbs : fs'.blockSize = fs.blockSize := by
    rw [← hfs.blockSize, ← hfs'.blockSize, h.blockSize]
  have hno' : fs'.IsInode no := (hfs'.isInode_iff hfs h.inodes).mpr htree.isInode
  have hblock : (fs'.inodeOf no).block = (fs.inodeOf no).block := by
    rw [← hfs.inode no htree.isInode, ← hfs'.inode no hno', hpage]
  have hcount : fs'.fileBlocks (fs'.inodeOf no).size = fs.fileBlocks (fs.inodeOf no).size := by
    unfold Ext2Fs.fileBlocks
    rw [hbs, ← hfs.inode no htree.isInode, ← hfs'.inode no hno', h.size, if_neg (Nat.lt_irrefl 0)]
  have hdata : ∀ b, fs.DataBlock b → fs'.DataBlock b := by
    intro b
    rw [← hfs.dataBlocks, ← hfs'.dataBlocks, h.dataBlocks]
    exact id
  have hboth : ∀ idx, idx < fs.fileBlocks (fs.inodeOf no).size →
      bmapOf fs' (fs'.inodeOf no) idx = bmapOf fs (fs.inodeOf no) idx ∧
        pointerBlocks fs' (fs'.inodeOf no) idx = pointerBlocks fs (fs.inodeOf no) idx := by
    intro idx hidx
    refine bmapOf_congr hfs.volume.inOrder.layout.blockSize hbs
      (fun slot _ _ => congrFun hblock slot) ?_
    intro nr hnr q hq
    have hnr' := htree.tables idx hidx nr hnr
    rw [← hfs.data nr q hnr' hq, ← hfs'.data nr q (hdata nr hnr') (hbs ▸ hq), hbytes]
  have hptrs : fs'.ptrsPerBlock = fs.ptrsPerBlock := by
    unfold Ext2Fs.ptrsPerBlock
    rw [hbs]
  refine ⟨⟨hno', ?_, ?_, ?_, ?_⟩, ?_⟩
  · intro idx hidx b hb
    rw [hcount] at hidx
    rw [(hboth idx hidx).2] at hb
    exact hdata b (htree.tables idx hidx b hb)
  · intro idx hge hidx hmem
    rw [hcount] at hidx
    rw [(hboth idx hidx).2, hblock] at hmem
    rw [hblock]
    exact htree.single idx (hptrs ▸ hge) hidx hmem
  · intro idx hidx hne
    rw [hcount] at hidx
    rw [(hboth idx hidx).1] at hne ⊢
    exact hdata _ (htree.data idx hidx hne)
  · intro i j hi hj hne
    rw [hcount] at hi hj
    rw [(hboth i hi).1] at hne ⊢
    rw [(hboth j hj).2]
    exact htree.apart i j hi hj hne
  · rw [hcount]
    refine ⟨?_, ?_, ?_⟩
    · intro idx hge hidx hne
      rw [(hboth idx (by omega)).1] at hne ⊢
      exact hdata _ (htree.marked.data idx hge hidx hne)
    · intro idx hge hidx hne
      rw [(hboth idx (by omega)).1] at hne ⊢
      rw [← hfs'.used, hused]
      exact hfs.used .block ▸ htree.marked.used idx hge hidx hne
    · intro i j hi hi' hj hj' hne heq
      rw [(hboth i (by omega)).1] at hne heq
      rw [(hboth j (by omega)).1] at heq
      exact htree.marked.distinct i j hi hi' hj hj' hne heq

theorem writeText_empties (htree : TreeFile fs no) (hv : Volume fs) (hinode : FileInode inode no) :
    ((writeText fs inode 0 []).2.2.2.inodeOf no).size = 0 := by
  obtain ⟨fs', hout, -, hsize⟩ := htree.empty hv.toSkeleton hinode.type hinode.data
    (fun k => ([] : List (BitVec 8)).getD k 0#8)
  rw [writeText_eq hinode.ops]
  dsimp only [List.length_nil]
  rw [hout]
  exact hsize

/--
For every file of any size, every position and every two strings that end inside the
direct blocks: two writes leave the contents, the size and the position that one write
leaves, and a write of no bytes changes nothing, exactly if none of the two writes is an
empty one at position 0 of a file that is not empty.
-/
theorem write_adds_iff
    (hv : Volume fs) (hfile : FileOk fs no) (htree : TreeFile fs no) (hinode : FileInode inode no)
    (hfits : pos + (a.length + b.length) ≤ 12 * fs.blockSize) :
    WriteAdds fs inode no pos a b ↔ NoCut fs no pos a ∧
      NoCut (writeText fs inode pos a).2.2.2 no (writeText fs inode pos a).2.1 b := by
  have hshows := hv.shows
  have hlen : (a ++ b).length = a.length + b.length := List.length_append
  by_cases hcut : NoCut fs no pos a
  · obtain ⟨n1, u1, inode1, fs1, hout1, hinode1, hadds1, hshows1⟩ := writeText_adds hshows hinode
      hfile.isInode hfile.ownsDirect (show pos + a.length ≤ 12 * fs.blockSize by omega) hcut
    have hle := hadds1.le
    by_cases hcut2 : NoCut fs1 no (pos + n1) b
    · have hno1 : fs1.IsInode no := (hshows1.isInode_iff hshows hadds1.inodes).mpr hfile.isInode
      have hbs1 : u1.blockSize = fs.blockSize := hadds1.blockSize
      obtain ⟨n2, u2, inode2, fs2, hout2, -, hadds2, hshows2⟩ := writeText_adds hshows1 hinode1
        hno1 hadds1.owns (show pos + n1 + b.length ≤ 12 * u1.blockSize by omega) hcut2
      have hboth : NoCut fs no pos (a ++ b) := by
        rcases hcut with hne | hrest
        · exact Or.inl (List.append_ne_nil_of_left_ne_nil hne b)
        · exact Or.inr hrest
      obtain ⟨n, u, inode', fs', hout, -, hadds, hshows'⟩ := writeText_adds hshows hinode
        hfile.isInode hfile.ownsDirect (show pos + (a ++ b).length ≤ 12 * fs.blockSize by omega)
        hboth
      obtain ⟨hn, hsecond⟩ := hadds1.append hadds2 hadds
      refine iff_of_true ?_ ⟨hcut, by rw [hout1]; exact hcut2⟩
      unfold WriteAdds
      rw [hout1, hout]
      dsimp only
      rw [hout2]
      refine ⟨hadds.sameContents hsecond hshows hfile hshows' hshows2 hinode
        (show pos + (a ++ b).length ≤ 12 * fs.blockSize by omega), by dsimp only; omega, ?_⟩
      rintro rfl
      obtain rfl : n1 = 0 := Nat.le_zero.mp hle
      exact ⟨(Adds.idle hfile.ownsDirect pos).sameContents hadds1 hshows hfile hshows hshows1 hinode
        (show pos + 0 ≤ 12 * fs.blockSize by omega), rfl⟩
    · -- the second call empties the file, which the first has left alone
      have hlost : b = [] ∧ pos + n1 = 0 ∧ (fs1.inodeOf no).size ≠ 0 := by
        unfold NoCut at hcut2
        push Not at hcut2
        exact hcut2
      obtain ⟨rfl, hzero, hsize⟩ := hlost
      refine iff_of_false ?_ (fun hx => hcut2 (by simpa only [hout1] using hx.2))
      intro hadds
      have hsame := hadds.1.1
      obtain ⟨rfl, rfl⟩ : pos = 0 ∧ n1 = 0 := by omega
      rw [List.append_nil, hout1] at hsame
      rw [writeText_empties (hadds1.treeFile hshows hshows1 htree) hshows1.volume hinode1] at hsame
      exact hsize hsame.symm
  · -- the first call empties the file
    have hlost : a = [] ∧ pos = 0 ∧ (fs.inodeOf no).size ≠ 0 := by
      unfold NoCut at hcut
      push Not at hcut
      exact hcut
    obtain ⟨rfl, rfl, hsize⟩ := hlost
    refine iff_of_false ?_ (fun hx => hcut hx.1)
    intro hadds
    have hsame := (hadds.2.2 rfl).1.1
    rw [writeText_empties htree hv hinode] at hsame
    exact hsize hsame.symm

end Law

/-- Two bytes are written to a file of 1024 bytes, from its start on. -/
theorem write_adds_iff_hole :
    WriteAdds holeFs holeInode 12 0 [0x41#8] [0x42#8] := by
  have hsize : (holeFs.inodeOf 12).size ≤ 12 * holeFs.blockSize := by decide +kernel
  have hv := holeFs_shows.volume
  have htree := TreeFile.of_direct holeFs_file.isInode holeFs_file.ownsDirect
    (hv.inOrder.layout.blockSize.fileBlocks_le hsize)
  refine (write_adds_iff hv holeFs_file htree ⟨rfl, rfl, rfl⟩ ?_).mpr
    ⟨Or.inl (by decide), Or.inl (by decide)⟩
  decide +kernel

/-- A write of no bytes at the start of a file of 1024 bytes, and then of one byte. -/
theorem empty_write_cuts :
    (holeFs.inodeOf 12).size = 1024 ∧
      ((writeText holeFs holeInode 0 []).2.2.2.inodeOf 12).size = 0 ∧
      ¬ WriteAdds holeFs holeInode 12 0 [] [0x41#8] := by
  have hbefore : (holeFs.inodeOf 12).size = 1024 := by decide +kernel
  have hafter : ((writeText holeFs holeInode 0 []).2.2.2.inodeOf 12).size = 0 := by decide +kernel
  refine ⟨hbefore, hafter, ?_⟩
  intro hadds
  have hsame := (hadds.2.2 rfl).1.1
  rw [hafter] at hsame
  exact absurd hsame (by decide)

end Vfs
end Homunculos
