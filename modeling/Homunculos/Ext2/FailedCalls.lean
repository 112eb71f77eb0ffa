import Homunculos.Ext2.NameCalls
import Homunculos.Ext2.LookupPools
import Homunculos.Ext2.WriteLaw

/-!
# Calls that fail

`ext2_add_entry`, `ext2_mkdir`, `ext2_symlink`, `ext2_mknod` and `ext2_link` take inodes
and blocks before they know whether the new entry fits into its directory.  A call that
fails should have given back all that it took.

The state of a call is described by what it holds: the numbers that it has taken and not
given back.  Everything that was in use before the call is as it was.
-/

namespace Homunculos
namespace Ext2

open Bytes Block Function

/-- The groups and the numbers of inodes and blocks are the same. -/
structure SameGroups (fs fs' : Ext2Fs) : Prop where
  bgdescCount : fs'.bgdescCount = fs.bgdescCount
  perGroup : ∀ k : Kind, k.perGroup fs'.sb = k.perGroup fs.sb
  count : ∀ k : Kind, k.count fs'.sb = k.count fs.sb

/-- Two inodes with the same contents and of the same type. -/
structure SameFile (raw raw' : Ext2Inode) : Prop where
  mode : raw'.mode = raw.mode
  size : raw'.size = raw.size
  block : ∀ i, raw'.block i = raw.block i

/--
The state `fs` of a call that began in `fs₀` and has taken the numbers in `T`, which were
free.
-/
structure Holding (fs₀ : Ext2Fs) (T : Kind → Set Nat) (fs : Ext2Fs) : Prop where
  origin : Volume fs₀
  volume : Volume fs
  groups : SameGroups fs₀ fs
  blockSize : fs.blockSize = fs₀.blockSize
  dataBlock : ∀ b, fs.DataBlock b ↔ fs₀.DataBlock b
  used : ∀ k, usedNumbers k fs = usedNumbers k fs₀ ∪ T k
  free : ∀ k, ∀ n ∈ T k, n ∉ usedNumbers k fs₀
  inode : ∀ n ∈ usedNumbers .inode fs₀, SameFile (fs₀.inodeOf n) (fs.inodeOf n)
  data : ∀ b ∈ usedNumbers .block fs₀, fs₀.DataBlock b → ∀ q, q < fs₀.blockSize →
    fs.diskByte b q = fs₀.diskByte b q

/-- Every number of this kind is in use. -/
def Ext2Fs.Full (fs : Ext2Fs) (k : Kind) : Prop :=
  ∀ n, k.first ≤ n → n < k.count fs.sb + k.first → n ∈ usedNumbers k fs

/-- One more number is taken. -/
def taking (T : Kind → Set Nat) (k : Kind) (n : Nat) : Kind → Set Nat :=
  update T k (insert n (T k))

/-- A number is given back. -/
def giving (T : Kind → Set Nat) (k : Kind) (n : Nat) : Kind → Set Nat :=
  update T k (T k \ {n})

section Groups

variable {fs fs' : Ext2Fs} {k : Kind}

theorem SameFile.refl (raw : Ext2Inode) :
    SameFile raw raw :=
  ⟨rfl, rfl, fun _ => rfl⟩

theorem SameFile.symm {raw raw' : Ext2Inode} (h : SameFile raw raw') :
    SameFile raw' raw :=
  ⟨h.mode.symm, h.size.symm, fun i => (h.block i).symm⟩

theorem SameFile.trans
    {raw raw' raw'' : Ext2Inode} (h : SameFile raw raw') (h' : SameFile raw' raw'') :
    SameFile raw raw'' :=
  ⟨h'.mode.trans h.mode, h'.size.trans h.size, fun i => (h'.block i).trans (h.block i)⟩

theorem SameFile.setLinks {raw raw' : Ext2Inode} (h : SameFile raw raw') (l : Nat) :
    SameFile raw (raw'.setLinks l) :=
  h.trans ⟨Ext2Inode.mode_setLinks _ _, Ext2Inode.size_setLinks _ _,
    fun _ => Ext2Inode.block_setLinks _ _ _⟩

theorem SameGroups.refl (fs : Ext2Fs) :
    SameGroups fs fs :=
  ⟨rfl, fun _ => rfl, fun _ => rfl⟩

theorem SameGroups.trans {fs'' : Ext2Fs} (h : SameGroups fs fs') (h' : SameGroups fs' fs'') :
    SameGroups fs fs'' :=
  ⟨h'.bgdescCount.trans h.bgdescCount, fun k => (h'.perGroup k).trans (h.perGroup k),
    fun k => (h'.count k).trans (h.count k)⟩

theorem PutBlock.groups {nr : Nat} {content : Nat → BitVec 8} (h : PutBlock nr content fs fs') :
    SameGroups fs fs' :=
  ⟨h.bgdescCount, fun k => by rw [h.sb], fun k => by rw [h.sb]⟩

theorem InOrder.alloc_groups (h : InOrder fs) (k : Kind) :
    SameGroups fs ((Op.alloc k).run fs).2 := by
  rw [run_alloc]
  rcases alloc_ready h.layout (h.geometry k) h.healthy with
    ⟨-, ⟨buf, hout⟩, -⟩ | ⟨g, i, buf, -, -, -, -, hout, hready, -⟩
  · rw [hout]
    exact ⟨rfl, fun _ => rfl, fun _ => rfl⟩
  · rw [hout]
    have hedit := hready.edit.of_withBuf
    exact ⟨hedit.bgdescCount, hedit.perGroup, hedit.count⟩

theorem InOrder.free_groups (h : InOrder fs) {n : Nat} (hn : n ∈ usedNumbers k fs) :
    SameGroups fs ((Op.free k n).run fs).2 := by
  obtain ⟨g, i, hg, hi, rfl, -⟩ := hn
  have hgeo := h.geometry k
  have hfit : i < 8 * fs.blockSize :=
    lt_of_lt_of_le hi ((hgeo.maxBits_le hg).trans hgeo.fits)
  obtain ⟨hdiv, hmod⟩ := hgeo.parts hg hi
  obtain ⟨hedit, -⟩ := freeBit_healthy h.layout h.healthy hg hfit (k := k)
  rw [run_free, hdiv, hmod]
  exact ⟨hedit.bgdescCount, hedit.perGroup, hedit.count⟩

theorem writeInode_healthy (h : fs.dev.Healthy) {n : Nat} (hn : fs.IsInode n) (raw : Ext2Inode) :
    (ext2WriteInode fs n raw).1 = true := by
  unfold ext2WriteInode
  rw [if_neg (not_isInode hn), readBgdesc_healthy h]
  dsimp only
  rw [if_pos (readBuf_healthy (fs.readBuf (fs.descBlock (fs.inodeGroup n))).2 h _)]
  refine (writeBuf_healthy _ ?_ _).1
  exact h

end Groups

section Sets

variable {T : Kind → Set Nat} {k : Kind} {n : Nat}

theorem mem_taking :
    n ∈ taking T k n k := by
  rw [taking, update_self]
  exact Set.mem_insert _ _

theorem taking_of_ne {k' : Kind} (hne : k' ≠ k) :
    taking T k n k' = T k' :=
  update_of_ne hne _ _

theorem giving_taking (hn : n ∉ T k) :
    giving (taking T k n) k n = T := by
  unfold giving taking
  rw [update_self, update_idem, Set.insert_sdiff_self_of_notMem hn, update_eq_self]

end Sets

section Steps

variable {fs₀ fs fs' : Ext2Fs} {T : Kind → Set Nat} {v : View} {k : Kind} {n b : Nat}

theorem Holding.start (h : Volume fs) :
    Holding fs (fun _ => ∅) fs :=
  ⟨h, h, SameGroups.refl fs, rfl, fun _ => Iff.rfl, fun _ => (Set.union_empty _).symm,
    fun _ _ hn => absurd hn (Set.notMem_empty _), fun _ _ => SameFile.refl _,
    fun _ _ _ _ _ => rfl⟩

variable (h : Holding fs₀ T fs)
include h

/-- A step that leaves everything in use alone, but for the numbers it takes or gives back. -/
theorem Holding.step {T' : Kind → Set Nat} (hshows : Shows fs' v)
    (hgroups : SameGroups fs fs') (hblockSize : v.blockSize = fs.blockSize)
    (hdataBlock : ∀ b, b ∈ v.dataBlocks ↔ fs.DataBlock b)
    (hused : ∀ k, v.used k = usedNumbers k fs₀ ∪ T' k)
    (hfree : ∀ k, ∀ n ∈ T' k, n ∉ usedNumbers k fs₀)
    (hinode : ∀ n ∈ usedNumbers .inode fs₀, fs'.IsInode n → SameFile (fs.inodeOf n) (v.inode n))
    (hdata : ∀ b ∈ usedNumbers .block fs₀, fs₀.DataBlock b → ∀ q, q < fs.blockSize →
      v.data b q = fs.diskByte b q) :
    Holding fs₀ T' fs' := by
  have hbs : fs'.blockSize = fs.blockSize := by
    rw [← hshows.blockSize, hblockSize]
  have hblock : ∀ b, fs'.DataBlock b ↔ fs₀.DataBlock b := by
    intro b
    rw [← hshows.dataBlocks, hdataBlock, h.dataBlock]
  refine ⟨h.origin, hshows.volume, h.groups.trans hgroups, hbs.trans h.blockSize, hblock, ?_,
    hfree, ?_, ?_⟩
  · intro k
    rw [← hshows.used, hused]
  · intro n hn
    have hn' : n ∈ v.used .inode := by
      rw [hused]
      exact Or.inl hn
    have his := hshows.isInode_of_used hn'
    have hsame := hinode n hn his
    rw [hshows.inode n his] at hsame
    exact (h.inode n hn).trans hsame
  · intro b hb hd q hq
    have hq' : q < fs.blockSize := by rwa [h.blockSize]
    rw [← hshows.data b q ((hblock b).mpr hd) (by rwa [hbs]), hdata b hb hd q hq',
      h.data b hb hd q hq]

theorem Holding.withBuf (buf : Nat → BitVec 8) :
    Holding fs₀ T (fs.withBuf buf) :=
  h.step (h.volume.shows.withBuf buf) ⟨rfl, fun _ => rfl, fun _ => rfl⟩ rfl (fun _ => Iff.rfl)
    h.used h.free (fun _ _ _ => SameFile.refl _) (fun _ _ _ _ _ => rfl)

theorem Holding.near (hnear : Near fs fs') :
    Holding fs₀ T fs' := by
  rw [hnear.same]
  exact h.withBuf _

theorem Holding.used_of_taken (hn : n ∈ T k) :
    n ∈ usedNumbers k fs := by
  rw [h.used]
  exact Or.inr hn

theorem Holding.isInode (hn : n ∈ T .inode) :
    fs.IsInode n :=
  h.volume.shows.isInode_of_used (h.used_of_taken hn)

theorem Holding.isInode_iff :
    fs.IsInode n ↔ fs₀.IsInode n := by
  unfold Ext2Fs.IsInode
  rw [show fs.sb.inodesCount = fs₀.sb.inodesCount from h.groups.count .inode]

theorem Holding.taken_data (hb : b ∈ T .block) :
    fs.DataBlock b ∧ b ≠ 0 := by
  have hfree := h.free .block b hb
  have hlt : b < fs.sb.blocksCount := h.volume.used_lt (h.used_of_taken hb)
  have hcount : fs.sb.blocksCount = fs₀.sb.blocksCount := h.groups.count .block
  refine ⟨(h.dataBlock b).mpr (h.origin.data_of_unused (by omega) hfree), ?_⟩
  rintro rfl
  exact hfree h.origin.zero_used

theorem Holding.alloc (k : Kind) :
    (∃ fs', (Op.alloc k).run fs = (0, fs') ∧ fs.Full k ∧ Holding fs₀ T fs') ∨
    (∃ n fs', (Op.alloc k).run fs = (n, fs') ∧ n ≠ 0 ∧ ¬ fs.Full k ∧ n ∉ T k ∧
      Holding fs₀ (taking T k n) fs') := by
  have hi := h.volume.inOrder
  have hgroups := hi.alloc_groups k
  rcases h.volume.shows.alloc k with ⟨hzero, hshows, hset⟩ | ⟨hfirst, hnew, hlt, hshows⟩
  · refine Or.inl ⟨_, Prod.ext hzero rfl, fun n hn hn' => hi.all_used hset hn hn', ?_⟩
    exact h.step hshows hgroups rfl (fun _ => Iff.rfl) h.used h.free
      (fun _ _ _ => SameFile.refl _) (fun _ _ _ _ _ => rfl)
  · generalize hout : (Op.alloc k).run fs = out at hfirst hnew hlt hshows hgroups
    obtain ⟨n, fs'⟩ := out
    have hnew' : n ∉ usedNumbers k fs := hnew
    have hne : n ≠ 0 := by
      rintro rfl
      cases k with
      | block => exact hnew' h.volume.zero_used
      | inode => exact absurd hfirst (show ¬ 1 ≤ 0 by decide)
    refine Or.inr ⟨n, fs', rfl, hne, fun hfull => hnew' (hfull n hfirst hlt), ?_, ?_⟩
    · intro hn
      exact hnew' (h.used_of_taken hn)
    · rw [h.used k] at hnew'
      refine h.step hshows hgroups rfl (fun _ => Iff.rfl) ?_ ?_
        (fun _ _ _ => SameFile.refl _) (fun _ _ _ _ _ => rfl)
      · intro k'
        by_cases hk : k' = k
        · subst hk
          rw [View.used_withUsed, taking, update_self, Set.union_insert, ← h.used]
          rfl
        · rw [View.used_withUsed_of_ne _ hk, taking_of_ne hk]
          exact h.used k'
      · intro k' m hm
        by_cases hk : k' = k
        · subst hk
          rw [taking, update_self] at hm
          rcases hm with rfl | hm
          · exact fun hold => hnew' (Or.inl hold)
          · exact h.free k' m hm
        · rw [taking_of_ne hk] at hm
          exact h.free k' m hm

theorem Holding.allocBlock :
    (∃ fs', ext2AllocBlock fs = (0, fs') ∧ fs.Full .block ∧ Holding fs₀ T fs') ∨
    (∃ b fs', ext2AllocBlock fs = (b, fs') ∧ b ≠ 0 ∧ ¬ fs.Full .block ∧ b ∉ T .block ∧
      Holding fs₀ (taking T .block b) fs') :=
  h.alloc .block

theorem Holding.allocInode :
    (∃ fs', ext2AllocInode fs = (0, fs') ∧ fs.Full .inode ∧ Holding fs₀ T fs') ∨
    (∃ n fs', ext2AllocInode fs = (n, fs') ∧ n ≠ 0 ∧ ¬ fs.Full .inode ∧ n ∉ T .inode ∧
      Holding fs₀ (taking T .inode n) fs') :=
  h.alloc .inode

theorem Holding.giveBack (hn : n ∈ T k) :
    Holding fs₀ (giving T k n) ((Op.free k n).run fs).2 := by
  have hused := h.used_of_taken hn
  have hshows := h.volume.shows.free (k := k) (n := n) hused (by
    rintro rfl
    exact h.taken_data hn)
  refine h.step hshows (h.volume.inOrder.free_groups hused) rfl (fun _ => Iff.rfl) ?_ ?_
    (fun _ _ _ => SameFile.refl _) (fun _ _ _ _ _ => rfl)
  · intro k'
    by_cases hk : k' = k
    · subst hk
      have hold := h.free k' n hn
      rw [View.used_withUsed, giving, update_self]
      change usedNumbers k' fs \ {n} = _
      rw [h.used, Set.union_sdiff_distrib, Set.sdiff_singleton_eq_self hold]
    · rw [View.used_withUsed_of_ne _ hk, giving, update_of_ne hk]
      exact h.used k'
  · intro k' m hm
    by_cases hk : k' = k
    · subst hk
      rw [giving, update_self] at hm
      exact h.free k' m hm.1
    · rw [giving, update_of_ne hk] at hm
      exact h.free k' m hm

omit h

theorem Holding.freeBlock (h : Holding fs₀ (taking T .block b) fs) (hb : b ∉ T .block) :
    Holding fs₀ T (ext2FreeBlock fs b) := by
  have hback := h.giveBack mem_taking
  rwa [giving_taking hb] at hback

theorem Holding.freeInode (h : Holding fs₀ (taking T .inode n) fs) (hn : n ∉ T .inode) :
    Holding fs₀ T (ext2FreeInode fs n) := by
  have hback := h.giveBack mem_taking
  rwa [giving_taking hn] at hback

variable (h : Holding fs₀ T fs)
include h

theorem Holding.writeInode (hn : fs.IsInode n) {raw : Ext2Inode}
    (hraw : n ∈ usedNumbers .inode fs₀ → SameFile (fs₀.inodeOf n) raw) :
    (ext2WriteInode fs n raw).1 = true ∧ Holding fs₀ T (ext2WriteInode fs n raw).2 := by
  have hi := h.volume.inOrder
  obtain ⟨-, hput⟩ := writeInode_spec hi.layout.blockSize hi.healthy hn raw
  obtain ⟨hok, hshows⟩ := h.volume.shows.writeInode hn raw
  refine ⟨hok, h.step hshows hput.groups rfl (fun _ => Iff.rfl) h.used h.free ?_
    (fun _ _ _ _ _ => rfl)⟩
  intro m hm _
  by_cases hmn : m = n
  · subst hmn
    rw [View.inode_withInode]
    exact (h.inode m hm).symm.trans (hraw hm)
  · rw [View.inode_withInode_of_ne _ hmn]
    exact SameFile.refl _

theorem Holding.writeTaken (hn : n ∈ T .inode) (raw : Ext2Inode) :
    (ext2WriteInode fs n raw).1 = true ∧ Holding fs₀ T (ext2WriteInode fs n raw).2 :=
  h.writeInode (h.isInode hn) (fun hused => absurd hused (h.free .inode n hn))

theorem Holding.writeBlock (hb : b ∈ T .block) (buf : Nat → BitVec 8) :
    ((fs.withBuf buf).writeBuf b).1 = true ∧ Holding fs₀ T ((fs.withBuf buf).writeBuf b).2 := by
  have hi := h.volume.inOrder
  obtain ⟨hok, hput⟩ : ((fs.withBuf buf).writeBuf b).1 = true ∧
      PutBlock b buf (fs.withBuf buf) ((fs.withBuf buf).writeBuf b).2 :=
    writeBlock_put (fs.withBuf buf) hi.layout.blockSize hi.healthy b buf
  have hshows := (h.volume.shows.withBuf buf).putData hput (h.taken_data hb).1
  refine ⟨hok, h.step hshows ?_ rfl (fun _ => Iff.rfl) h.used h.free
    (fun _ _ _ => SameFile.refl _) ?_⟩
  · have hgroups := hput.groups
    exact ⟨hgroups.bgdescCount, hgroups.perGroup, hgroups.count⟩
  · intro b' hb' _ q _
    have hne : b' ≠ b := by
      rintro rfl
      exact h.free .block b' hb hb'
    rw [View.data_withData_of_ne _ hne]
    rfl

theorem Holding.full_iff (hT : T k = ∅) :
    fs.Full k ↔ fs₀.Full k := by
  unfold Ext2Fs.Full
  rw [h.used, hT, Set.union_empty, h.groups.count]

end Steps

section Entries

variable {fs₀ fs fs' : Ext2Fs} {T : Kind → Set Nat} {raw : Ext2Inode} {dirNo e : Nat}
variable {st st' : Ext2State} {dir dir' entry entry' : VfsInode} {name : List (BitVec 8)}
variable {size : Option Nat}

/-- When `ext2_set_bmap` fails, it has not taken a block for pointers. -/
theorem Holding.setBmap
    (h : Holding fs₀ T fs) (raw : Ext2Inode) (idx : Nat) {phys : Nat} (hphys : phys ≠ 0) :
    (ext2SetBmap fs raw idx phys).2.2.dev.Healthy ∧
      ((ext2SetBmap fs raw idx phys).1 = false →
        Holding fs₀ T (ext2SetBmap fs raw idx phys).2.2) := by
  have hhealthy := h.volume.inOrder.healthy
  -- whichever block the pointers are in, it is read and written without an error
  have hrewrite : ∀ (f : Ext2Fs) (nr : Nat) (edit : (Nat → BitVec 8) → Nat → BitVec 8),
      f.dev.Healthy → (f.readBuf nr).1 = true ∧
        (((f.readBuf nr).2.withBuf (edit (f.readBuf nr).2.buf)).writeBuf nr).1 = true ∧
        (((f.readBuf nr).2.withBuf (edit (f.readBuf nr).2.buf)).writeBuf nr).2.dev.Healthy :=
    fun f nr edit hdev => ⟨readBuf_healthy f hdev nr,
      writeBuf_healthy ((f.readBuf nr).2.withBuf (edit (f.readBuf nr).2.buf)) hdev nr⟩
  unfold ext2SetBmap
  split
  · exact ⟨hhealthy, fun hfail => nomatch hfail⟩
  · split
    · rw [if_neg (fun hboth => hphys hboth.2)]
      by_cases hzero : raw.block 12 = 0
      · simp only [if_pos hzero]
        rcases h.allocBlock with ⟨fs', hout, -, hnext⟩ | ⟨b, fs', hout, hne, -, -, hnext⟩
        · rw [hout]
          exact ⟨hnext.volume.inOrder.healthy, fun _ => hnext⟩
        · obtain ⟨hread, hwrite, hdev⟩ := hrewrite fs' b (fun m => putU32 m (4 * (idx - 12)) phys)
            hnext.volume.inOrder.healthy
          rw [hout, if_neg hne, if_pos hread]
          exact ⟨hdev, fun hfail => by rw [hwrite] at hfail; cases hfail⟩
      · obtain ⟨hread, hwrite, hdev⟩ := hrewrite fs (raw.block 12)
          (fun m => putU32 m (4 * (idx - 12)) phys) hhealthy
        simp only [if_neg hzero]
        rw [if_pos hread]
        exact ⟨hdev, fun hfail => by rw [hwrite] at hfail; cases hfail⟩
    · exact ⟨hhealthy, fun _ => h⟩

/-- A directory that cannot get one more block: the block that was taken is free again. -/
theorem Holding.append_fails
    (h : Holding fs₀ T fs) (hout : appendBlock fs dirNo raw e name = (false, size, fs')) :
    Holding fs₀ T fs' := by
  unfold appendBlock at hout
  rcases h.allocBlock with ⟨fs1, halloc, -, hnext⟩ | ⟨b, fs1, halloc, hne, -, hfree, hnext⟩
  · rw [halloc] at hout
    cases hout
    exact hnext
  · rw [halloc] at hout
    dsimp only at hout
    rw [if_neg hne] at hout
    obtain ⟨hdev, hfails⟩ := hnext.setBmap raw (raw.size / fs.blockSize) hne
    split at hout
    · -- the new block is written, and then the call cannot fail any more
      rw [if_pos (writeBuf_healthy _ (by exact hdev) _).1] at hout
      cases hout
    · rename_i hset
      cases hout
      exact (hfails (Bool.eq_false_iff.mpr hset)).freeBlock hfree

theorem useRoom_ok (h : fs.dev.Healthy) (hd : fs.IsInode dirNo) (raw : Ext2Inode) (e : Nat)
    (name : List (BitVec 8)) (phys o : Nat) (room : Room) :
    (useRoom fs dirNo raw e name phys o room).1 = true := by
  obtain ⟨hwrite, hdev⟩ := writeBuf_healthy (fs.withBuf (fillRoom fs.buf o e name room)) h phys
  unfold useRoom
  rw [if_pos hwrite]
  exact writeInode_healthy hdev hd _

theorem Holding.insert_fails (h : Holding fs₀ T fs) (hd : fs.IsInode dirNo)
    (hout : insertEntry fs dirNo raw e name = some (false, size, fs')) :
    Holding fs₀ T fs' := by
  have hscan : ∀ r, scanDir (roomIn (needRecLen name)) (raw.size + 1) fs raw 0 = some r →
      Near fs r.2 := (scanDir_static _ _ (Near.refl fs) (Near.refl fs)).2
  unfold insertEntry at hout
  cases hr : scanDir (roomIn (needRecLen name)) (raw.size + 1) fs raw 0 with
  | none =>
    rw [hr] at hout
    cases hout
  | some r =>
    obtain ⟨found, fs1⟩ := r
    have hnext := h.near (hscan _ hr)
    rw [hr] at hout
    cases found with
    | failed =>
      cases hout
      exact hnext
    | done => exact hnext.append_fails (Option.some.inj hout)
    | found phys o room =>
      have hok := congrArg Prod.fst (Option.some.inj hout)
      rw [useRoom_ok hnext.volume.inOrder.healthy ?_] at hok
      · cases hok
      · rw [(hscan _ hr).same]
        exact hd

/-- The directory cannot be read, or the entry gets no inode, or its record is not inserted. -/
theorem addEntry_fails (hhealthy : st.fs.dev.Healthy)
    (hout : ext2AddEntry st dir name entry = some (false, dir', entry', st')) :
    ((∀ d, dir.privateData = some d → ¬ st.fs.IsInode d) ∧ ∃ buf, st'.fs = st.fs.withBuf buf) ∨
    ∃ d raw buf, dir.privateData = some d ∧ st.fs.IsInode d ∧
      ((∃ entry'', backEntry { st with fs := st.fs.withBuf buf } entry = (none, entry'', st')) ∨
        ∃ e entry'' st1 size, backEntry { st with fs := st.fs.withBuf buf } entry =
            (some e, entry'', st1) ∧
          insertEntry st1.fs d raw e name = some (false, size, st'.fs)) := by
  unfold ext2AddEntry at hout
  cases hdir : dir.privateData with
  | none =>
    rw [hdir] at hout
    cases hout
    exact Or.inl ⟨fun d hd => (nomatch hd), st.fs.buf, rfl⟩
  | some d =>
    rw [hdir] at hout
    dsimp only at hout
    by_cases hd : st.fs.IsInode d
    · obtain ⟨buf, hbuf⟩ := readInode_static st.fs d
      obtain ⟨raw, fs1, hread⟩ := readInode_healthy hhealthy (not_isInode hd)
      rw [hread] at hout hbuf
      rw [show fs1 = st.fs.withBuf buf from hbuf] at hout
      refine Or.inr ⟨d, raw, buf, rfl, hd, ?_⟩
      dsimp only at hout
      rcases hback : backEntry { st with fs := st.fs.withBuf buf } entry with ⟨found, entry'', st1⟩
      rw [hback] at hout
      cases found with
      | none =>
        cases hout
        exact Or.inl ⟨_, rfl⟩
      | some e =>
        dsimp only at hout
        cases hins : insertEntry st1.fs d raw e name with
        | none =>
          rw [hins] at hout
          cases hout
        | some r =>
          obtain ⟨ok, size, fs2⟩ := r
          rw [hins] at hout
          cases hout
          exact Or.inr ⟨e, _, st1, size, rfl, hins⟩
    · rw [readInode_of_not_isInode hd] at hout
      cases hout
      refine Or.inl ⟨fun d' hd' => ?_, st.fs.buf, rfl⟩
      cases hd'
      exact hd

/-- `ext2_add_entry` for an entry with an inode keeps what the call holds when it fails. -/
theorem Holding.addBacked_fails (h : Holding fs₀ T st.fs) (hentry : entry.privateData = some e)
    (hout : ext2AddEntry st dir name entry = some (false, dir', entry', st')) :
    Holding fs₀ T st'.fs := by
  rcases addEntry_fails h.volume.inOrder.healthy hout with
    ⟨-, buf, hbuf⟩ | ⟨d, raw, buf, -, hd, hrest⟩
  · rw [hbuf]
    exact h.withBuf buf
  · simp only [backEntry, hentry] at hrest
    rcases hrest with ⟨entry'', hnone⟩ | ⟨e', entry'', st1, size, hsome, hins⟩
    · cases hnone
    · cases hsome
      exact (h.withBuf buf).insert_fails hd hins

end Entries

/-- A volume whose directories have their blocks, and the blocks with pointers to them, in use. -/
structure Sound (fs : Ext2Fs) : Prop where
  volume : Volume fs
  owned : ∀ d, fs.Dir d → ∀ idx b, idx * fs.blockSize < (fs.inodeOf d).size →
    BlockAt fs (fs.inodeOf d) idx b → b ∈ usedNumbers .block fs ∧ fs.DataBlock b

/-- The bitmaps, the free counts and the contents of every directory are the same. -/
structure Unchanged (fs fs' : Ext2Fs) : Prop where
  bitmap : ∀ k g i, g < fs.bgdescCount → i < maxBits k fs g → bit k fs' g i = bit k fs g i
  groupFree : ∀ (k : Kind) g, g < fs.bgdescCount →
    k.groupFree (fs'.desc g) = k.groupFree (fs.desc g)
  sbFree : ∀ k : Kind, k.sbFree fs'.sb = k.sbFree fs.sb
  dir : ∀ d, fs.Dir d → (fs'.inodeOf d).size = (fs.inodeOf d).size ∧
    ∀ pos, pos < (fs.inodeOf d).size →
      byteOf fs' (fs'.inodeOf d) pos = byteOf fs (fs.inodeOf d) pos

section Contents

variable {fs₀ fs : Ext2Fs} {T : Kind → Set Nat} {k : Kind} {g i : Nat}

theorem SameGroups.maxBits_eq (h : SameGroups fs₀ fs) :
    maxBits k fs = maxBits k fs₀ := by
  funext g
  unfold maxBits
  rw [h.bgdescCount, h.count k, h.perGroup k]

theorem Holding.bit_iff
    (h : Holding fs₀ T fs) (hg : g < fs₀.bgdescCount) (hi : i < maxBits k fs₀ g) :
    bit k fs g i = true ↔ number k fs₀ g i ∈ usedNumbers k fs := by
  have hg' : g < fs.bgdescCount := by rwa [h.groups.bgdescCount]
  have hi' : i < maxBits k fs g := by rwa [h.groups.maxBits_eq]
  have hnumber : number k fs₀ g i = number k fs g i := by
    rw [(h.origin.inOrder.geometry k).number_eq hg hi,
      (h.volume.inOrder.geometry k).number_eq hg' hi', h.groups.perGroup]
  rw [hnumber, h.volume.inOrder.number_mem_iff hg' hi']

theorem Holding.unchanged (h : Holding fs₀ (fun _ => ∅) fs) (hsound : Sound fs₀) :
    Unchanged fs₀ fs := by
  have hused : ∀ k, usedNumbers k fs = usedNumbers k fs₀ := by
    intro k
    rw [h.used, Set.union_empty]
  have hbit : ∀ k g i, g < fs₀.bgdescCount → i < maxBits k fs₀ g →
      bit k fs g i = bit k fs₀ g i := by
    intro k g i hg hi
    rw [Bool.eq_iff_iff, h.bit_iff hg hi, hused, h.origin.inOrder.number_mem_iff hg hi]
  have hfree : ∀ (k : Kind) g, g < fs₀.bgdescCount →
      k.groupFree (fs.desc g) = k.groupFree (fs₀.desc g) := by
    intro k g hg
    have hnew : k.groupFree (fs.desc g) = _ :=
      (h.volume.inOrder.consistent k).free_eq g (by rwa [h.groups.bgdescCount])
    have hold : k.groupFree (fs₀.desc g) = _ := (h.origin.inOrder.consistent k).free_eq g hg
    rw [hnew, hold, h.groups.maxBits_eq]
    exact Bitmap.zeros_congr (fun j hj => hbit k g j hg hj)
  refine ⟨hbit, hfree, ?_, ?_⟩
  · intro k
    have hnew : k.sbFree fs.sb = _ := (h.volume.inOrder.consistent k).total_eq
    have hold : k.sbFree fs₀.sb = _ := (h.origin.inOrder.consistent k).total_eq
    rw [hnew, hold, h.groups.bgdescCount]
    apply Finset.sum_congr rfl
    intro g hg
    exact hfree k g (Finset.mem_range.mp hg)
  · intro d hd
    have hsame := h.inode d hd.1
    refine ⟨hsame.size, ?_⟩
    intro pos hpos
    refine byteOf_congr h.origin.inOrder.layout.blockSize h.blockSize
      (fun slot _ _ => hsame.block slot) ?_
    intro b hb q hq
    have hin : pos / fs₀.blockSize * fs₀.blockSize < (fs₀.inodeOf d).size :=
      (Nat.div_mul_le_self _ _).trans_lt hpos
    obtain ⟨hblock, hdata⟩ := hsound.owned d hd _ b hin hb
    exact h.data b hblock hdata q hq

theorem Holding.changed (h : Holding fs₀ T fs) {n : Nat} (hn : n ∈ T k) :
    ¬ Unchanged fs₀ fs := by
  intro hsame
  obtain ⟨g, i, hg, hi, rfl, hset⟩ := h.used_of_taken hn
  rw [h.groups.bgdescCount] at hg
  rw [h.groups.maxBits_eq] at hi
  have hold : bit k fs₀ g i = true := (hsame.bitmap k g i hg hi).symm.trans hset
  apply h.free k _ hn
  rw [h.groups.perGroup, ← (h.origin.inOrder.geometry k).number_eq hg hi]
  exact (h.origin.inOrder.number_mem_iff hg hi).mpr hold

end Contents

/-- A call that makes a new name. -/
inductive MakeCall where
  | create (parent : VfsInode) (name : List (BitVec 8)) (entry : VfsInode)
  | mkdir (parent : VfsInode) (name : List (BitVec 8)) (mode : Nat)
  | symlink (parent : VfsInode) (name target : List (BitVec 8))
  | mknod (parent : VfsInode) (name : List (BitVec 8)) (mode dev : Nat)
  | link (parent : VfsInode) (name : List (BitVec 8)) (existing : VfsInode)

/-- Whether the call succeeds, and the state; a file is created by adding an entry without inode. -/
def MakeCall.run (st : Ext2State) : MakeCall → Option (Bool × Ext2State)
  | .create parent name entry =>
    (ext2AddEntry st parent name { entry with privateData := none }).map
      (fun r => (r.1, r.2.2.2))
  | .mkdir parent name mode => ext2Mkdir st parent name mode
  | .symlink parent name target => ext2Symlink st parent name target
  | .mknod parent name mode dev => ext2Mknod st parent name mode dev
  | .link parent name existing => ext2Link st parent name existing

/--
The calls that give back what they took when the entry is not inserted, and the failures
of the others before they come to insert it.
-/
def MakeCall.Clean (st : Ext2State) : MakeCall → Prop
  | .create parent _ _ =>
    (∀ d, parent.privateData = some d → ¬ st.fs.IsInode d) ∨ st.fs.Full .inode ∨
      64 ≤ st.dataNext
  | .mkdir _ _ _ => True
  | .symlink parent _ target =>
    parent.privateData = none ∨ st.fs.Full .inode ∨
      (60 < target.length ∧ st.fs.Full .block) ∨ st.vfsFree = 0 ∨ 64 ≤ st.dataNext
  | .mknod parent _ mode _ =>
    parent.privateData = none ∨ st.fs.Full .inode ∨ st.vfsFree = 0 ∨ 64 ≤ st.dataNext ∨
      nodeType mode = none
  | .link _ _ _ => True

/-- What a failed call comes to: it holds nothing any more, or it has lost an inode. -/
def FailsAs (clean : Prop) (fs₀ fs : Ext2Fs) : Prop :=
  (clean ∧ Holding fs₀ (fun _ => ∅) fs) ∨ (¬ clean ∧ ∃ T n, n ∈ T Kind.inode ∧ Holding fs₀ T fs)

section Calls

variable {st st' : Ext2State} {parent entry existing : VfsInode} {name target : List (BitVec 8)}
variable {fs₀ fs : Ext2Fs} {T : Kind → Set Nat}

theorem create_fails
    (h : Volume st.fs) (hnone : entry.privateData = none) {parent' entry' : VfsInode}
    (hout : ext2AddEntry st parent name entry = some (false, parent', entry', st')) :
    FailsAs ((∀ d, parent.privateData = some d → ¬ st.fs.IsInode d) ∨ st.fs.Full .inode ∨
      64 ≤ st.dataNext) st.fs st'.fs := by
  rcases addEntry_fails h.inOrder.healthy hout with
    ⟨hno, buf, hbuf⟩ | ⟨d, raw, buf, hdir, hd, hrest⟩
  · refine Or.inl ⟨Or.inl hno, ?_⟩
    rw [hbuf]
    exact (Holding.start h).withBuf buf
  · simp only [backEntry, hnone] at hrest
    rcases ((Holding.start h).withBuf buf).allocInode with
      ⟨fs1, halloc, hfull, hnext⟩ | ⟨n, fs1, halloc, hne, hfull, hfree, hnext⟩
    · rw [halloc] at hrest
      rcases hrest with ⟨entry'', hback⟩ | ⟨e, entry'', st1, size, hback, -⟩
      · cases hback
        exact Or.inl ⟨Or.inr (Or.inl hfull), hnext⟩
      · cases hback
    · obtain ⟨hwrite, hnext⟩ := hnext.writeTaken mem_taking (newInode entry.iMode)
      rw [halloc] at hrest
      rw [if_neg hne, if_pos hwrite] at hrest
      by_cases hpool : 64 ≤ st.dataNext
      · rw [if_pos hpool] at hrest
        rcases hrest with ⟨entry'', hback⟩ | ⟨e, entry'', st1, size, hback, -⟩
        · cases hback
          exact Or.inl ⟨Or.inr (Or.inr hpool), hnext.freeInode hfree⟩
        · cases hback
      · rw [if_neg hpool] at hrest
        rcases hrest with ⟨entry'', hback⟩ | ⟨e, entry'', st1, size, hback, hins⟩
        · cases hback
        · cases hback
          have hleft := hnext.insert_fails (hnext.isInode_iff.mpr hd) hins
          refine Or.inr ⟨?_, _, n, mem_taking, hleft⟩
          rintro (hno | hfull' | hpool')
          · exact hno d hdir hd
          · exact hfull hfull'
          · exact hpool hpool'

theorem mknod_fails (h : Volume st.fs) {mode dev : Nat}
    (hout : ext2Mknod st parent name mode dev = some (false, st')) :
    FailsAs (parent.privateData = none ∨ st.fs.Full .inode ∨ st.vfsFree = 0 ∨ 64 ≤ st.dataNext ∨
      nodeType mode = none) st.fs st'.fs := by
  unfold ext2Mknod at hout
  cases hparent : parent.privateData with
  | none =>
    rw [hparent] at hout
    cases hout
    exact Or.inl ⟨Or.inl rfl, Holding.start h⟩
  | some d =>
    rw [hparent] at hout
    rcases (Holding.start h).allocInode with
      ⟨fs1, halloc, hfull, hnext⟩ | ⟨n, fs1, halloc, hne, hfull, hfree, hnext⟩
    · rw [halloc] at hout
      cases hout
      exact Or.inl ⟨Or.inr (Or.inl hfull), hnext⟩
    · obtain ⟨hwrite, hnext⟩ := hnext.writeTaken mem_taking (newNode mode dev)
      rw [halloc] at hout
      rw [if_neg hne, if_pos hwrite] at hout
      by_cases hpool : st.vfsFree = 0 ∨ 64 ≤ st.dataNext
      · rw [if_pos hpool] at hout
        cases hout
        refine Or.inl ⟨?_, hnext.freeInode hfree⟩
        rcases hpool with hvfs | hdata
        · exact Or.inr (Or.inr (Or.inl hvfs))
        · exact Or.inr (Or.inr (Or.inr (Or.inl hdata)))
      · rw [if_neg hpool] at hout
        cases htype : nodeType mode with
        | none =>
          rw [htype] at hout
          cases hout
          exact Or.inl ⟨Or.inr (Or.inr (Or.inr (Or.inr rfl))), hnext.freeInode hfree⟩
        | some type =>
          rw [htype] at hout
          obtain ⟨⟨ok, parent', entry', st1⟩, hadd, heq⟩ := Option.map_eq_some_iff.mp hout
          cases heq
          have hleft := Holding.addBacked_fails (by exact hnext) rfl hadd
          refine Or.inr ⟨?_, _, n, mem_taking, hleft⟩
          rintro (hno | hfull' | hvfs | hdata | hno)
          · cases hno
          · exact hfull hfull'
          · exact hpool (Or.inl hvfs)
          · exact hpool (Or.inr hdata)
          · cases hno

/-- Both that `ext2_mkdir` has taken are given back. -/
theorem Holding.giveBackDir
    {n b : Nat} (h : Holding fs₀ (taking (taking T .inode n) .block b) fs) (hn : n ∉ T .inode)
    (hb : b ∉ T .block) :
    Holding fs₀ T (Ext2.giveBack fs n b) := by
  have hblock : b ∉ taking T .inode n .block := by
    rwa [taking_of_ne (by decide)]
  exact (h.freeBlock hblock).freeInode hn

/-- The first half of `ext2_mkdir` takes an inode and a block, or nothing. -/
theorem Holding.makeDir (h : Holding fs₀ T fs) (d mode : Nat) :
    (∃ fs', Ext2.makeDir fs d mode = (none, fs') ∧ Holding fs₀ T fs') ∨
    (∃ n b fs', Ext2.makeDir fs d mode = (some (n, b), fs') ∧ n ∉ T .inode ∧ b ∉ T .block ∧
      Holding fs₀ (taking (taking T .inode n) .block b) fs') := by
  unfold Ext2.makeDir
  rcases h.allocInode with ⟨fs1, halloc, -, hnext⟩ | ⟨n, fs1, halloc, hne, -, hfree, hnext⟩
  · rw [halloc]
    exact Or.inl ⟨fs1, rfl, hnext⟩
  · rw [halloc]
    rw [if_neg hne]
    rcases hnext.allocBlock with
      ⟨fs2, hblock, -, hnext⟩ | ⟨b, fs2, hblock, hbne, -, hbfree, hnext⟩
    · rw [hblock]
      exact Or.inl ⟨_, rfl, hnext.freeInode hfree⟩
    · rw [hblock]
      rw [if_neg hbne]
      have hinode : n ∈ taking (taking T .inode n) .block b .inode := by
        rw [taking_of_ne (by decide)]
        exact mem_taking
      obtain ⟨hbuf, hnext⟩ := hnext.writeBlock mem_taking (dotsBlock fs2.buf fs.blockSize n d)
      obtain ⟨hwrite, hnext⟩ := hnext.writeTaken hinode (newDirInode fs mode b)
      rw [if_pos hbuf, if_pos hwrite]
      exact Or.inr ⟨n, b, _, rfl, hfree, hbfree, hnext⟩

theorem mkdir_fails
    (h : Volume st.fs) {mode : Nat} (hout : ext2Mkdir st parent name mode = some (false, st')) :
    Holding st.fs (fun _ => ∅) st'.fs := by
  unfold ext2Mkdir at hout
  cases hparent : parent.privateData with
  | none =>
    rw [hparent] at hout
    cases hout
    exact Holding.start h
  | some d =>
    rw [hparent] at hout
    dsimp only at hout
    rcases (Holding.start h).makeDir d mode with
      ⟨fs1, hmake, hnext⟩ | ⟨n, b, fs1, hmake, hn, hb, hnext⟩
    · rw [hmake] at hout
      cases hout
      exact hnext
    · rw [hmake] at hout
      dsimp only at hout
      split at hout
      · cases hout
        exact hnext.giveBackDir hn hb
      · split at hout
        · cases hout
        · rename_i hadd
          cases hout
          have hleft := Holding.addBacked_fails (by exact hnext) rfl hadd
          exact hleft.giveBackDir hn hb
        · cases hout

/--
The target of a symbolic link finds no block, or it is placed, and what is held then can be
given back.
-/
theorem Holding.placeTarget {n : Nat} (h : Holding fs₀ (taking T .inode n) fs) (hn : n ∉ T .inode)
    (target : List (BitVec 8)) :
    (∃ fs', Ext2.placeTarget fs target = (none, fs') ∧ (60 < target.length ∧ fs.Full .block) ∧
      Holding fs₀ (taking T .inode n) fs') ∨
    (∃ raw fs' T', Ext2.placeTarget fs target = (some raw, fs') ∧
      ¬ (60 < target.length ∧ fs.Full .block) ∧ n ∈ T' Kind.inode ∧ Holding fs₀ T' fs' ∧
      ∀ fs'', Holding fs₀ T' fs'' → Holding fs₀ T (dropTarget fs'' n raw target)) := by
  unfold Ext2.placeTarget
  by_cases hlen : target.length ≤ 60
  · rw [dif_pos hlen]
    refine Or.inr ⟨_, fs, _, rfl, by omega, mem_taking, h, ?_⟩
    intro fs'' h''
    rw [dropTarget, if_neg (by omega)]
    exact h''.freeInode hn
  · rw [dif_neg hlen]
    rcases h.allocBlock with
      ⟨fs1, halloc, hfull, hnext⟩ | ⟨b, fs1, halloc, hne, hfull, hfree, hnext⟩
    · rw [halloc]
      exact Or.inl ⟨fs1, rfl, ⟨by omega, hfull⟩, hnext⟩
    · rw [halloc]
      rw [if_neg hne]
      obtain ⟨hbuf, hnext'⟩ := hnext.writeBlock mem_taking
        (copy (fun q => if q < fs.blockSize then 0#8 else fs1.buf q) 0
          (fun k => target.getD k 0#8) target.length)
      rw [if_pos hbuf]
      refine Or.inr ⟨_, _, _, rfl, fun hboth => hfull hboth.2, ?_, hnext', ?_⟩
      · rw [taking_of_ne (by decide)]
        exact mem_taking
      · have hlt : b < fs1.sb.blocksCount := hnext.volume.used_lt (hnext.used_of_taken mem_taking)
        have hcount : fs1.sb.blocksCount < 2 ^ 32 := u32_lt _ _
        intro fs'' h''
        have hraw : (((newLinkInode target).setBlock 0 b).setBlocks (fs.blockSize / 512)).block 0 =
            b := by
          rw [Ext2Inode.block_setBlocks, Ext2Inode.block_setBlock]
          exact Nat.mod_eq_of_lt (by omega)
        rw [dropTarget, hraw, if_pos ⟨hne, by omega⟩]
        exact (h''.freeBlock hfree).freeInode hn

theorem symlink_fails
    (h : Volume st.fs) (hout : ext2Symlink st parent name target = some (false, st')) :
    FailsAs (parent.privateData = none ∨ st.fs.Full .inode ∨
      (60 < target.length ∧ st.fs.Full .block) ∨ st.vfsFree = 0 ∨ 64 ≤ st.dataNext)
      st.fs st'.fs := by
  unfold ext2Symlink at hout
  cases hparent : parent.privateData with
  | none =>
    rw [hparent] at hout
    cases hout
    exact Or.inl ⟨Or.inl rfl, Holding.start h⟩
  | some d =>
    rw [hparent] at hout
    rcases (Holding.start h).allocInode with
      ⟨fs1, halloc, hfull, hnext⟩ | ⟨n, fs1, halloc, hne, hfull, hfree, hnext⟩
    · rw [halloc] at hout
      cases hout
      exact Or.inl ⟨Or.inr (Or.inl hfull), hnext⟩
    · rw [halloc] at hout
      rw [if_neg hne] at hout
      have hblocks : fs1.Full .block ↔ st.fs.Full .block :=
        hnext.full_iff (taking_of_ne (by decide))
      rcases hnext.placeTarget hfree target with
        ⟨fs2, hplace, hnoBlock, hnext⟩ | ⟨raw, fs2, T, hplace, hblock, hinode, hnext, hdrop⟩
      · rw [hplace] at hout
        rw [hblocks] at hnoBlock
        cases hout
        exact Or.inl ⟨Or.inr (Or.inr (Or.inl hnoBlock)), hnext.freeInode hfree⟩
      · obtain ⟨hwrite, hnext⟩ := hnext.writeTaken hinode raw
        rw [hplace] at hout
        dsimp only at hout
        rw [if_pos hwrite] at hout
        by_cases hpool : st.vfsFree = 0 ∨ 64 ≤ st.dataNext
        · rw [if_pos hpool] at hout
          cases hout
          exact Or.inl ⟨Or.inr (Or.inr (Or.inr hpool)), hdrop _ hnext⟩
        · rw [if_neg hpool] at hout
          obtain ⟨⟨ok, parent', entry', st1⟩, hadd, heq⟩ := Option.map_eq_some_iff.mp hout
          cases heq
          have hleft := Holding.addBacked_fails (by exact hnext) rfl hadd
          refine Or.inr ⟨?_, _, n, hinode, hleft⟩
          rintro (hno | hfull' | hnoBlock | hpool')
          · cases hno
          · exact hfull hfull'
          · rw [← hblocks] at hnoBlock
            exact hblock hnoBlock
          · exact hpool hpool'

theorem link_fails
    (h : Volume st.fs) (hout : ext2Link st parent name existing = some (false, st')) :
    Holding st.fs (fun _ => ∅) st'.fs := by
  unfold ext2Link at hout
  cases hexisting : existing.privateData with
  | none =>
    rw [hexisting] at hout
    cases hout
    exact Holding.start h
  | some no =>
    rw [hexisting] at hout
    dsimp only at hout
    by_cases hno : st.fs.IsInode no
    · obtain ⟨buf, hread⟩ : ∃ buf, ext2ReadInode st.fs no =
          (some (st.fs.inodeOf no), st.fs.withBuf buf) := h.shows.readInode hno
      have hlinked : SameFile (st.fs.inodeOf no) (st.fs.inodeOf no).addLink :=
        (SameFile.refl _).setLinks _
      rw [hread] at hout
      dsimp only at hout
      obtain ⟨hwrite, hnext⟩ := ((Holding.start h).withBuf buf).writeInode hno (fun _ => hlinked)
      rw [if_pos hwrite] at hout
      split at hout
      · cases hout
      · cases hout
      · rename_i hadd
        cases hout
        have hleft := Holding.addBacked_fails (by exact hnext) hexisting hadd
        exact (hleft.writeInode (hleft.isInode_iff.mpr hno) (fun _ => hlinked.setLinks _)).2
    · rw [readInode_of_not_isInode hno] at hout
      cases hout
      exact Holding.start h

/-- A call that holds nothing has changed nothing, and one that lost an inode has. -/
theorem FailsAs.unchanged_iff {clean : Prop} (h : FailsAs clean fs₀ fs) (hsound : Sound fs₀) :
    Unchanged fs₀ fs ↔ clean := by
  rcases h with ⟨hclean, hnothing⟩ | ⟨hleaky, T, n, hn, hlost⟩
  · exact iff_of_true (hnothing.unchanged hsound) hclean
  · exact iff_of_false (hlost.changed hn) hleaky

/--
A call that makes a new name and fails, on a device without errors, leaves the bitmaps, the
free counts and the directories as they were, exactly if it is `ext2_mkdir` or `ext2_link` or
fails before it comes to insert the entry.
-/
theorem failed_call_unchanged_iff
    (st : Ext2State) (hsound : Sound st.fs) (c : MakeCall) (st' : Ext2State)
    (hfail : c.run st = some (false, st')) :
    Unchanged st.fs st'.fs ↔ c.Clean st := by
  have hvolume := hsound.volume
  cases c with
  | create parent name entry =>
    obtain ⟨⟨ok, parent', entry', st1⟩, hadd, heq⟩ := Option.map_eq_some_iff.mp hfail
    cases heq
    exact (create_fails hvolume rfl hadd).unchanged_iff hsound
  | mkdir parent name mode =>
    exact iff_of_true ((mkdir_fails hvolume hfail).unchanged hsound) trivial
  | symlink parent name target => exact (symlink_fails hvolume hfail).unchanged_iff hsound
  | mknod parent name mode dev => exact (mknod_fails hvolume hfail).unchanged_iff hsound
  | link parent name existing =>
    exact iff_of_true ((link_fails hvolume hfail).unchanged hsound) trivial

end Calls

/-- A directory of 1024 bytes in block 7. -/
def packedRaw : Ext2Inode :=
  ((Ext2Inode.zero.setMode 0x41ED).setSize 1024).setBlock 0 7

/-- The small image with this directory, which is full, as inode 2, and no free block. -/
def packedImage : BlockDevice where
  data := fun s j =>
    if s = 2 then putU32 smallSb 12 0 j
    else if s = 4 then putU16 smallDesc 12 0 j
    else if s = 8 then if j = 1 then 0x0F#8 else 0xFF#8
    else if s = 10 ∧ 128 ≤ j ∧ j < 256 then packedRaw.bytes (j - 128)
    else if s = 14 then fullBlock 12 j
    else if s = 15 then fullBlock 12 (512 + j)
    else 0xFF#8
  readOk := fun _ => true
  writeOk := fun _ => true

theorem packedImage_mounts :
    (ext2MountSb packedImage (fun _ => 0#8)).isSome = true := by
  decide +kernel

def packedFs : Ext2Fs :=
  (ext2MountSb packedImage (fun _ => 0#8)).get packedImage_mounts

/-- A character device `a` is to be made in the full directory. -/
def packedMknod : MakeCall :=
  .mknod (fullDir 1024) [0x61#8] 0x21B6 0x0103

theorem packedFs_inOrder :
    InOrder packedFs := by
  refine ⟨layout_of_one_group ?_ (Or.inl ?_) ?_, ?_, ⟨fun _ => rfl, fun _ => rfl⟩, ?_⟩
  · decide +kernel
  · decide +kernel
  · decide +kernel
  · intro k
    cases k with
    | block => exact ⟨by decide +kernel, by decide +kernel, by decide +kernel, by decide +kernel⟩
    | inode => exact ⟨by decide +kernel, by decide +kernel, by decide +kernel, by decide +kernel⟩
  · intro k
    cases k with
    | block => exact ⟨by decide +kernel, by decide +kernel⟩
    | inode => exact ⟨by decide +kernel, by decide +kernel⟩

theorem packedFs_volume :
    Volume packedFs := by
  refine volume_of_one_group ?_ ?_ packedFs_inOrder ?_ ?_ ?_ ?_ ?_
  · decide +kernel
  · decide +kernel
  · decide +kernel
  · decide +kernel
  · decide +kernel
  · decide +kernel
  · decide +kernel

theorem packedFs_sound :
    Sound packedFs := by
  have hdirs : ∀ d, d < 17 → d ≠ 2 → (packedFs.inodeOf d).mode / 0x1000 % 16 ≠ 0x4 := by
    decide +kernel
  have hcount : packedFs.sb.inodesCount = 16 := by decide +kernel
  have hsize : (packedFs.inodeOf 2).size = 1024 ∧ packedFs.blockSize = 1024 := by decide +kernel
  have hplaces : ∀ p ∈ smallPlaces, p.blockNo packedFs ≠ 7 := by decide +kernel
  have hbit : 7 < maxBits .block packedFs 0 ∧ bit .block packedFs 0 7 = true := by decide +kernel
  have hgroups : packedFs.bgdescCount = 1 ∧ packedFs.tableBlocks = 2 := by decide +kernel
  refine ⟨packedFs_volume, ?_⟩
  rintro d ⟨hused, hmode⟩ idx b hidx hb
  have hd : d = 2 := by
    by_contra hne
    have hle := (packedFs_volume.shows.isInode_of_used hused).2
    exact hdirs d (by omega) hne hmode
  subst hd
  rw [hsize.2] at hidx
  have hidx0 : idx = 0 := by omega
  subst hidx0
  rcases hb with hb | ⟨rfl, -⟩
  · cases hb
  · refine ⟨⟨0, 7, by omega, hbit.1, by decide +kernel, hbit.2⟩, by decide +kernel, ?_⟩
    intro p hp
    exact hplaces p (mem_smallPlaces hgroups.1 hgroups.2 hp)

/-- The node is not made, and that has changed something. -/
theorem failed_call_unchanged_iff_mknod :
    ∃ st', packedMknod.run ⟨packedFs, 0, 256⟩ = some (false, st') ∧
      (Unchanged packedFs st'.fs ↔ packedMknod.Clean ⟨packedFs, 0, 256⟩) := by
  have hfail : (packedMknod.run ⟨packedFs, 0, 256⟩).map Prod.fst = some false := by decide +kernel
  obtain ⟨⟨ok, st'⟩, hrun, rfl⟩ := Option.map_eq_some_iff.mp hfail
  exact ⟨st', hrun, failed_call_unchanged_iff ⟨packedFs, 0, 256⟩ packedFs_sound packedMknod st'
    hrun⟩

/-- `ext2_mknod` fails because the directory gets no block, and inode 13 stays taken. -/
theorem mknod_loses_inode :
    Sound packedFs ∧ bit .inode packedFs 0 12 = false ∧
      (packedMknod.run ⟨packedFs, 0, 256⟩).map
        (fun r => (r.1, bit .inode r.2.fs 0 12)) = some (false, true) := by
  refine ⟨packedFs_sound, ?_, ?_⟩
  · decide +kernel
  · decide +kernel

end Ext2
end Homunculos
