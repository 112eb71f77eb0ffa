import Homunculos.Ext2.Directory
import Homunculos.Lib.Naming

/-!
# Entries of a directory

What lookup, insertion and removal do to the names of a directory.  A scan finds
the record of a name if there is one; insertion adds one name and removal takes
one away, whichever record and whichever block they use.  Blocks and inodes of
others are left as they are.
-/

namespace Homunculos
namespace Ext2

open Bytes Block Tiling Naming Function

section Names

variable {name : List (BitVec 8)} {e i : Nat} {d : Dirent} {ds pre post : List Dirent}
variable {ents : Nat → List Dirent}

theorem nameIs_eq_some :
    nameIs name d = some e ↔ d.inode ≠ 0 ∧ d.name = name ∧ d.inode = e := by
  unfold nameIs
  split
  · rename_i hzero
    simp [hzero]
  · rename_i hne
    split
    · rename_i hname
      simp [hne, hname]
    · rename_i hname
      simp [hname]

theorem mem_bindings :
    (name, e) ∈ bindings ds ↔ ∃ d ∈ ds, nameIs name d = some e := by
  simp only [bindings, List.mem_map, List.mem_filter, nameIs_eq_some, Prod.mk.injEq,
    decide_eq_true_eq]
  constructor
  · rintro ⟨d, ⟨hd, hne⟩, hname, he⟩
    exact ⟨d, hd, hne, hname, he⟩
  · rintro ⟨d, hd, hne, hname, he⟩
    exact ⟨d, ⟨hd, hne⟩, hname, he⟩

theorem mem_dirBindings :
    (name, e) ∈ dirBindings ents ↔ ∃ i, i < 12 ∧ ∃ d ∈ ents i, nameIs name d = some e := by
  simp only [dirBindings, List.mem_flatMap, List.mem_range, mem_bindings]

theorem bindings_append :
    bindings (pre ++ post) = bindings pre ++ bindings post := by
  simp [bindings]

/-- The names of some of the blocks -/
def bindingsIn (ents : Nat → List Dirent) (is : List Nat) : List (List (BitVec 8) × Nat) :=
  is.flatMap fun i => bindings (ents i)

theorem bindingsIn_update {is : List Nat} (ds : List Dirent) (hi : i ∉ is) :
    bindingsIn (update ents i ds) is = bindingsIn ents is := by
  apply List.flatMap_congr
  intro j hj
  rw [update_of_ne (ne_of_mem_of_not_mem hj hi)]

theorem dirBindings_update
    {before behind : List Nat} (hrange : List.range 12 = before ++ i :: behind)
    (ents : Nat → List Dirent) (ds : List Dirent) :
    dirBindings (update ents i ds) =
      bindingsIn ents before ++ (bindings ds ++ bindingsIn ents behind) := by
  have hnodup : (before ++ i :: behind).Nodup := hrange ▸ List.nodup_range
  rw [List.nodup_middle, List.nodup_cons, List.mem_append, not_or] at hnodup
  rw [← bindingsIn_update ds hnodup.1.1, ← bindingsIn_update ds hnodup.1.2]
  unfold dirBindings bindingsIn
  rw [hrange, List.flatMap_append, List.flatMap_cons, update_self]

theorem DirTiled.unique {v : View} {raw : Ext2Inode} (h : DirTiled v raw ents) {e' : Nat}
    (he : (name, e) ∈ dirBindings ents) (he' : (name, e') ∈ dirBindings ents) :
    e = e' := by
  have heq := List.inj_on_of_nodup_map h.names he he' rfl
  exact congrArg Prod.snd heq

end Names

section Lookup

variable {fs : Ext2Fs} {v : View} {raw : Ext2Inode} {ents : Nat → List Dirent}
variable {name : List (BitVec 8)} {n p : Nat}

theorem DirLaid.scanDir_start
    {γ : Type} (h : DirLaid v raw ents) (hshows : Shows fs v) (visit : Dirent → Option γ) :
    ∃ buf', scanDir visit (raw.size + 1) fs raw 0 =
        some (endOf raw (dirHit visit ents (List.range 12)), fs.withBuf buf') ∧
      ∀ j o x, dirHit visit ents (List.range 12) = some (j, o, x) →
        ∀ q, q < v.blockSize → buf' q = v.data (raw.block j) q := by
  have hscan := h.scanDir_eq hshows visit (n := raw.size + 1) (i := 0) (k := 12) (by omega)
    (by omega) (by omega) fs.buf
  rw [Nat.zero_mul] at hscan
  exact hscan

/-- The record of a hit, between the records and the blocks before and behind it. -/
structure Hit
    {γ : Type} (raw : Ext2Inode) (ents : Nat → List Dirent) (visit : Dirent → Option γ) (bs : Nat)
    (buf : Nat → BitVec 8) (j o : Nat) (x : γ) (before behind : List Nat)
    (pre post : List Dirent) : Prop where
  range : List.range 12 = before ++ j :: behind
  mapped : raw.block j ≠ 0
  split : ents j = pre ++ direntAt buf o :: post
  wanted : visit (direntAt buf o) = some x
  ok : (direntAt buf o).Ok
  front : Records buf 0 o pre
  rest : Records buf (o + (direntAt buf o).recLen) bs post
  skipped : ∀ r ∈ pre, visit r = none
  passed : ∀ i ∈ before, ∀ r ∈ ents i, visit r = none

theorem DirLaid.hit
    {γ : Type} {visit : Dirent → Option γ} {j o : Nat} {x : γ} {buf : Nat → BitVec 8}
    (h : DirLaid v raw ents) (hhit : dirHit visit ents (List.range 12) = some (j, o, x))
    (hbuf : ∀ q, q < v.blockSize → buf q = v.data (raw.block j) q) :
    ∃ before behind pre post,
      Hit raw ents visit v.blockSize buf j o x before behind pre post := by
  obtain ⟨hfirst, before, behind, hrange, hpassed⟩ := dirHit_eq_some hhit
  have hj : j ∈ List.range 12 := by
    rw [hrange]
    exact List.mem_append_right _ List.mem_cons_self
  have hj12 := List.mem_range.mp hj
  have hne : raw.block j ≠ 0 := by
    intro hzero
    rw [h.holes j hj12 hzero] at hfirst
    cases hfirst
  have hrecords := (h.records j hj12 hne).congr (fun q _ hq => hbuf q hq)
  obtain ⟨pre, post, hents, hvisit, hpre, hskipped, hpost⟩ := hrecords.tiled.of_firstHit hfirst
  have hok : ∀ d ∈ pre ++ direntAt buf o :: post, d.Ok := by
    rw [← hents]
    exact hrecords.ok
  refine ⟨before, behind, pre, post, hrange, hne, hents, hvisit, ?_, ⟨hpre, ?_⟩, ⟨hpost, ?_⟩,
    hskipped, hpassed⟩
  · exact hok _ (List.mem_append_right _ List.mem_cons_self)
  · exact fun d hd => hok d (List.mem_append_left _ hd)
  · exact fun d hd => hok d (List.mem_append_right _ (List.mem_cons_of_mem _ hd))

section Hits

variable {γ : Type} {visit : Dirent → Option γ} {bs j o e : Nat} {x : γ} {buf : Nat → BitVec 8}
variable {before behind : List Nat} {pre post new : List Dirent}

variable (h : Hit raw ents visit bs buf j o x before behind pre post)
include h

theorem Hit.lt :
    j < 12 := by
  apply List.mem_range.mp
  rw [h.range]
  exact List.mem_append_right _ List.mem_cons_self

theorem Hit.bindings_update (new : List Dirent) :
    dirBindings (update ents j (pre ++ (new ++ post))) =
      bindingsIn ents before ++ bindings pre ++
        (bindings new ++ (bindings post ++ bindingsIn ents behind)) := by
  rw [dirBindings_update h.range, bindings_append, bindings_append]
  simp only [List.append_assoc]

theorem Hit.bindings_eq :
    dirBindings ents =
      bindingsIn ents before ++ bindings pre ++
        (bindings [direntAt buf o] ++ (bindings post ++ bindingsIn ents behind)) := by
  have hself : update ents j (pre ++ ([direntAt buf o] ++ post)) = ents := by
    rw [List.singleton_append, ← h.split, update_eq_self]
  have hbindings := h.bindings_update [direntAt buf o]
  rwa [hself] at hbindings

/-- The record is replaced by others with one name more, which is the last of them. -/
theorem Hit.putIn (hnew : bindings new = bindings [direntAt buf o] ++ [(name, e)]) :
    PutIn (name, e) (dirBindings ents)
      (dirBindings (update ents j (pre ++ (new ++ post)))) := by
  refine ⟨bindingsIn ents before ++ bindings pre ++ bindings [direntAt buf o],
    bindings post ++ bindingsIn ents behind, ?_, ?_⟩
  · rw [h.bindings_eq, List.append_assoc _ (bindings [_])]
  · rw [h.bindings_update, hnew]
    simp only [List.append_assoc, List.singleton_append]

omit h

theorem Hit.before_ne
    {x : Nat} (h : Hit raw ents (nameIs name) bs buf j o x before behind pre post) :
    ∀ y ∈ bindingsIn ents before ++ bindings pre, y.1 ≠ name := by
  rintro ⟨n, e⟩ hy heq
  rw [show n = name from heq] at hy
  rcases List.mem_append.mp hy with hbefore | hpre
  · obtain ⟨i, hi, hmem⟩ := List.mem_flatMap.mp hbefore
    obtain ⟨r, hr, hname⟩ := mem_bindings.mp hmem
    rw [h.passed i hi r hr] at hname
    cases hname
  · obtain ⟨r, hr, hname⟩ := mem_bindings.mp hpre
    rw [h.skipped r hr] at hname
    cases hname

theorem Hit.bindings_wanted
    {x : Nat} (h : Hit raw ents (nameIs name) bs buf j o x before behind pre post) :
    bindings [direntAt buf o] = [(name, x)] := by
  obtain ⟨hlive, hname, hinode⟩ := nameIs_eq_some.mp h.wanted
  rw [hinode] at hlive
  simp [bindings, hlive, hname, hinode]

theorem Hit.takenOut {x : Nat} (h : Hit raw ents (nameIs name) bs buf j o x before behind pre post)
    (hnew : bindings new = []) :
    TakenOut name x (dirBindings ents)
      (dirBindings (update ents j (pre ++ (new ++ post)))) := by
  refine ⟨_, bindings post ++ bindingsIn ents behind, ?_, ?_, h.before_ne⟩
  · rw [h.bindings_eq, h.bindings_wanted, List.singleton_append]
  · rw [h.bindings_update, hnew, List.nil_append]

end Hits

/-- The scan of `ext2_lookup` gives the inode of the first entry of the name. -/
theorem DirLaid.findEntry_eq
    (h : DirLaid v raw ents) (hshows : Shows fs v) (name : List (BitVec 8)) :
    ∃ buf, findEntry fs raw name = some ((dirBindings ents).lookup name, fs.withBuf buf) := by
  obtain ⟨buf, hscan, -⟩ := h.scanDir_start hshows (nameIs name)
  refine ⟨buf, ?_⟩
  unfold findEntry
  rw [hscan]
  cases hhit : dirHit (nameIs name) ents (List.range 12) with
  | none =>
    have hnone : (dirBindings ents).lookup name = none := by
      rw [lookup_eq_none]
      intro e he
      obtain ⟨i, hi, r, hr, hname⟩ := mem_dirBindings.mp he
      rw [dirHit_eq_none.mp hhit i (List.mem_range.mpr hi) r hr] at hname
      cases hname
    rw [hnone]
    rfl
  | some hit =>
    obtain ⟨i, o, e⟩ := hit
    obtain ⟨before, behind, pre, post, hat⟩ := h.hit hhit (fun _ _ => rfl)
    have htaken : TakenOut name e (dirBindings ents)
        (dirBindings (update ents i (pre ++ ([] ++ post)))) := hat.takenOut rfl
    rw [htaken.lookup_eq]
    rfl

theorem DirOk.findEntry_spec (h : DirOk v raw ents) (hshows : Shows fs v) (name : List (BitVec 8)) :
    ∃ r buf, findEntry fs raw name = some (r, fs.withBuf buf) ∧
      ∀ e, r = some e ↔ (name, e) ∈ dirBindings ents := by
  obtain ⟨buf, hfind⟩ := h.laid.findEntry_eq hshows name
  refine ⟨_, buf, hfind, ?_⟩
  intro e
  constructor
  · exact mem_of_lookup
  · intro he
    cases hr : (dirBindings ents).lookup name with
    | none => exact absurd he (lookup_eq_none.mp hr e)
    | some e' => rw [h.unique he (mem_of_lookup hr)]

end Lookup

/-- The name `.`. -/
def dot : List (BitVec 8) := [0x2e#8]

/-- The name `..`. -/
def dotdot : List (BitVec 8) := [0x2e#8, 0x2e#8]

section Blocks

variable {v v' : View} {raw raw' raw1 : Ext2Inode} {ents : Nat → List Dirent}
variable {d j phys : Nat} {m : Nat → BitVec 8} {ds : List Dirent}

/-- What a change of the directory `d` leaves as it is. -/
structure DirFrame (v : View) (d : Nat) (v' : View) : Prop where
  blockSize : v'.blockSize = v.blockSize
  inodes : v'.inodes = v.inodes
  dataBlocks : v'.dataBlocks = v.dataBlocks
  usedInodes : v'.used .inode = v.used .inode
  inode : ∀ n, n ≠ d → v'.inode n = v.inode n
  mode : (v'.inode d).mode = (v.inode d).mode
  links : (v'.inode d).links = (v.inode d).links
  grown : v'.used .block = v.used .block ∨
    ∃ b, b ∉ v.used .block ∧ v'.used .block = insert b (v.used .block)
  direct : ∀ i, i < 12 → (v'.inode d).block i ≠ 0 →
    (v'.inode d).block i = (v.inode d).block i ∨ (v'.inode d).block i ∉ v.used .block
  data : ∀ b, b ∈ v.used .block →
    (∀ i, i < 12 → (v.inode d).block i ≠ 0 → (v.inode d).block i ≠ b) → v'.data b = v.data b

theorem Placed.dirFrame (h : Placed v (v.inode d) j phys v' raw1) (hj : j < 12)
    (hblocks : ∀ i, i < 12 → raw'.block i = raw1.block i) (hmode : raw'.mode = raw1.mode)
    (hlinks : raw'.links = raw1.links) (m : Nat → BitVec 8) :
    DirFrame v d ((v'.withData phys m).withInode d raw') := by
  obtain ⟨hbs, hinodes, hdataBlocks, hinode, husedInodes, hdata⟩ := h.view
  refine ⟨hbs, hinodes, hdataBlocks, husedInodes, ?_, ?_, ?_, ?_, ?_, ?_⟩
  · intro n hn
    rw [View.inode_withInode_of_ne _ hn]
    exact congrFun hinode n
  · rw [View.inode_withInode, hmode]
    exact u16_congr (fun q hq => h.head _ (by omega))
  · rw [View.inode_withInode, hlinks]
    exact u16_congr (fun q hq => h.head _ (by omega))
  · change v'.used .block = _ ∨ ∃ b, _ ∧ v'.used .block = _
    by_cases hzero : (v.inode d).block j = 0
    · obtain ⟨hnew, -, hview⟩ := h.new hzero
      rw [hview]
      exact Or.inr ⟨phys, hnew, View.used_withUsed _ _ _⟩
    · rw [(h.old hzero).2]
      exact Or.inl rfl
  · intro i hi hne
    rw [View.inode_withInode, hblocks i hi] at hne ⊢
    by_cases hij : i = j
    · subst hij
      rw [h.block] at hne ⊢
      by_cases hzero : (v.inode d).block i = 0
      · exact Or.inr (h.new hzero).1
      · exact Or.inl (h.old hzero).1
    · exact Or.inl (h.others i hij)
  · intro b hb hother
    have hne : b ≠ phys := by
      rintro rfl
      by_cases hzero : (v.inode d).block j = 0
      · exact (h.new hzero).1 hb
      · exact hother j hj hzero (h.old hzero).1.symm
    change (v'.withData phys m).data b = v.data b
    rw [View.data_withData_of_ne _ hne, hdata]

theorem DirLaid.put (h : DirLaid v raw ents) (hplaced : Placed v raw j phys v' raw1) (hj : j < 12)
    (hblocks : ∀ i, i < 12 → raw'.block i = raw1.block i) (hsize : raw.size ≤ raw'.size)
    (hwithin : (j + 1) * v.blockSize ≤ raw'.size) (hsize_le : raw'.size ≤ 12 * v.blockSize)
    (hrecords : Records m 0 v.blockSize ds) (n : Nat) (r : Ext2Inode) :
    DirLaid ((v'.withData phys m).withInode n r) raw' (update ents j ds) := by
  obtain ⟨hbs, -, hdataBlocks, -, -, hdata⟩ := hplaced.view
  have howns := hplaced.owns h.owns hj
  have hbs' : ((v'.withData phys m).withInode n r).blockSize = v.blockSize := hbs
  have hother : ∀ i, i < 12 → i ≠ j → raw'.block i = raw.block i := by
    intro i hi hij
    rw [hblocks i hi, hplaced.others i hij]
  refine ⟨?_, ?_, ?_, ?_, ⟨?_, ?_, ?_⟩⟩
  · rw [hbs']
    exact hsize_le
  · intro i hi hne
    rw [hbs']
    change Records ((v'.withData phys m).data (raw'.block i)) 0 v.blockSize _
    by_cases hij : i = j
    · subst hij
      rw [hblocks i hi, hplaced.block, View.data_withData, update_self]
      exact hrecords
    · rw [hother i hi hij] at hne ⊢
      rw [View.data_withData_of_ne _ (hplaced.other_ne h.owns hj hi hij), hdata, update_of_ne hij]
      exact h.records i hi hne
  · intro i hi hzero
    by_cases hij : i = j
    · subst hij
      rw [hblocks i hi, hplaced.block] at hzero
      exact absurd hzero hplaced.ne_zero
    · rw [hother i hi hij] at hzero
      rw [update_of_ne hij]
      exact h.holes i hi hzero
  · intro i hi hne
    rw [hbs']
    by_cases hij : i = j
    · rw [hij]
      exact hwithin
    · rw [hother i hi hij] at hne
      exact (h.within i hi hne).trans hsize
  · intro i hi hne
    rw [hblocks i hi] at hne ⊢
    exact howns.used i hi hne
  · intro i hi hne
    rw [hblocks i hi] at hne ⊢
    exact howns.data i hi hne
  · intro i k hi hk hne heq
    rw [hblocks i hi] at hne
    rw [hblocks i hi, hblocks k hk] at heq
    exact howns.distinct i k hi hk hne heq

end Blocks

/-- A data block is written from `ext2_buf`. -/
theorem Shows.writeBuf
    {fs : Ext2Fs} (h : Shows fs v) (hphys : phys ∈ v.dataBlocks) (m : Nat → BitVec 8) :
    ((fs.withBuf m).writeBuf phys).1 = true ∧
      Shows ((fs.withBuf m).writeBuf phys).2 (v.withData phys m) := by
  have hbuf := h.withBuf m
  have hi := hbuf.volume.inOrder
  obtain ⟨hok, hput⟩ := writeBlock_put (fs.withBuf m) hi.layout.blockSize hi.healthy phys m
  exact ⟨hok, hbuf.putData hput hphys⟩

theorem Shows.isInode_iff
    {fs fs' : Ext2Fs} (h : Shows fs v) (h' : Shows fs' v') (hsame : v.inodes = v'.inodes)
    {n : Nat} :
    fs.IsInode n ↔ fs'.IsInode n := by
  unfold Ext2Fs.IsInode
  rw [← h.inodes, ← h'.inodes, hsame]

section Insertion

variable {fs : Ext2Fs} {v : View} {ents : Nat → List Dirent} {d e : Nat} {name : List (BitVec 8)}

/-- The directory `d` has got one more entry. -/
structure Entered
    (v : View) (d : Nat) (ents : Nat → List Dirent) (name : List (BitVec 8)) (e : Nat) (v' : View)
    (ents' : Nat → List Dirent) : Prop where
  frame : DirFrame v d v'
  dir : DirLaid v' (v'.inode d) ents'
  put : PutIn (name, e) (dirBindings ents) (dirBindings ents')

/-- The directory `d` has got one more name. -/
structure Inserted
    (v : View) (d : Nat) (ents : Nat → List Dirent) (name : List (BitVec 8)) (e : Nat) (v' : View)
    (ents' : Nat → List Dirent) : Prop where
  frame : DirFrame v d v'
  dir : DirOk v' (v'.inode d) ents'
  bindings : (dirBindings ents').Perm ((name, e) :: dirBindings ents)

theorem Entered.inserted
    {v' : View} {ents' : Nat → List Dirent} (h : Entered v d ents name e v' ents')
    (hnames : ((dirBindings ents).map Prod.fst).Nodup)
    (habsent : ∀ x, (name, x) ∉ dirBindings ents) :
    Inserted v d ents name e v' ents' := by
  have hnew : name ∉ (dirBindings ents).map Prod.fst := by
    intro hmem
    obtain ⟨⟨n, x⟩, hx, hn⟩ := List.mem_map.mp hmem
    rw [show n = name from hn] at hx
    exact habsent x hx
  exact ⟨h.frame, h.dir.ok (h.put.nodup hnames hnew), h.put.perm⟩

section Resized

variable (fs : Ext2Fs) (raw : Ext2Inode) (s i : Nat)

@[simp]
theorem size_resized :
    (resized fs raw s).size = s % 2 ^ 32 := by
  simp [resized]

@[simp]
theorem block_resized :
    (resized fs raw s).block i = raw.block i := by
  simp [resized]

@[simp]
theorem mode_resized :
    (resized fs raw s).mode = raw.mode := by
  simp [resized]

@[simp]
theorem links_resized :
    (resized fs raw s).links = raw.links := by
  simp [resized]

end Resized

theorem newBlock_records
    {bs : Nat} (hbs : bs % 4 = 0) (hble : bs ≤ 4096) (hneed : needRecLen name ≤ bs)
    (hname : name.length < 256) (he : e < 2 ^ 32) (m : Nat → BitVec 8) :
    Records (putDirent m 0 e bs name) 0 bs [⟨e, bs, name⟩] := by
  have hbounds := needRecLen_bounds name
  have hsingle := Records.single (d := ⟨e, bs, name⟩)
    (direntAt_putDirent (m := m) (o := 0) hname he (by omega)) ⟨hbs, by
      change round4 (8 + name.length) ≤ bs
      omega⟩
  rw [Nat.zero_add] at hsingle
  exact hsingle

theorem appendBlock_size {raw : Ext2Inode} (hok : (appendBlock fs d raw e name).1 = true) :
    (appendBlock fs d raw e name).2.1 = some ((raw.size + fs.blockSize) % 2 ^ 32) := by
  unfold appendBlock at hok ⊢
  dsimp only at hok ⊢
  -- only one branch succeeds
  split_ifs at hok ⊢
  rw [size_resized]

variable (h : Shows fs v) (hd : fs.IsInode d) (hdir : DirLaid v (v.inode d) ents)
variable (hname : name.length < 256) (he : e ≠ 0 ∧ e < 2 ^ 32)
include h hd hdir hname he

theorem useRoom_spec
    {j o : Nat} {room : Room} {buf : Nat → BitVec 8}
    (hhit : dirHit (roomIn (needRecLen name)) ents (List.range 12) = some (j, o, room))
    (hbuf : ∀ q, q < v.blockSize → buf q = v.data ((v.inode d).block j) q) :
    ∃ fs', useRoom (fs.withBuf buf) d (v.inode d) e name ((v.inode d).block j) o room =
        (true, some ((v.inode d).size + needRecLen name), fs') ∧
      ((v.inode d).size + needRecLen name ≤ 12 * v.blockSize →
        ∃ v' ents', (v'.inode d).size = (v.inode d).size + needRecLen name ∧
          Entered v d ents name e v' ents' ∧ Shows fs' v') := by
  obtain ⟨before, behind, pre, post, hat⟩ := hdir.hit hhit hbuf
  have hj := hat.lt
  have hne := hat.mapped
  have hble := h.volume.inOrder.layout.blockSize_le
  have hsize := hdir.size_le
  rw [h.blockSize] at hsize
  have hneed := needRecLen_bounds name
  have hmod : ((v.inode d).size + needRecLen name) % 2 ^ 32 =
      (v.inode d).size + needRecLen name := Nat.mod_eq_of_lt (by omega)
  obtain ⟨hnew, hframe⟩ := fillRoom_records rfl hat.ok (u16_lt _ _) hat.wanted hname he.2
  have hdata := hdir.owns.data j hj hne
  obtain ⟨hwrite, hshows⟩ := h.writeBuf hdata (fillRoom buf o e name room)
  obtain ⟨raw', hraw'⟩ : ∃ raw', resized (fs.withBuf buf) (v.inode d)
      ((v.inode d).size + needRecLen name) = raw' := ⟨_, rfl⟩
  have hsize' : raw'.size = (v.inode d).size + needRecLen name := by
    rw [← hraw', size_resized, hmod]
  have hd' : ((fs.withBuf (fillRoom buf o e name room)).writeBuf
      ((v.inode d).block j)).2.IsInode d :=
    hd
  obtain ⟨hinode, hshows'⟩ := hshows.writeInode hd' raw'
  have hout : useRoom (fs.withBuf buf) d (v.inode d) e name ((v.inode d).block j) o room =
      (true, some ((v.inode d).size + needRecLen name),
        (ext2WriteInode ((fs.withBuf (fillRoom buf o e name room)).writeBuf
          ((v.inode d).block j)).2 d raw').2) := by
    unfold useRoom
    rw [hraw']
    change (if ((fs.withBuf (fillRoom buf o e name room)).writeBuf ((v.inode d).block j)).1 = true
      then _ else _) = _
    rw [if_pos hwrite, ← hsize', ← hinode]
    rfl
  refine ⟨_, hout, ?_⟩
  intro hfits
  have hbindings : bindings (filled (direntAt buf o) e name room) =
      bindings [direntAt buf o] ++ [(name, e)] := bindings_filled hat.wanted he.1
  have hplaced := Placed.present v hne
  have hblocks : ∀ i, i < 12 → raw'.block i = (v.inode d).block i := by
    intro i _
    rw [← hraw', block_resized]
  refine ⟨_, _, ?_, ⟨hplaced.dirFrame hj hblocks ?_ ?_ _, ?_, hat.putIn hbindings⟩, hshows'⟩
  · rw [View.inode_withInode, hsize']
  · rw [← hraw', mode_resized]
  · rw [← hraw', links_resized]
  · rw [View.inode_withInode]
    apply hdir.put hplaced hj hblocks
    · omega
    · have hwithin := hdir.within j hj hne
      omega
    · omega
    · exact hat.front.replace hnew hat.rest hframe

theorem appendBlock_spec (hneed : needRecLen name ≤ v.blockSize)
    (hfits : (v.inode d).size + v.blockSize ≤ 12 * v.blockSize) :
    (∃ fs', appendBlock fs d (v.inode d) e name = (false, none, fs') ∧ Shows fs' v) ∨
    ∃ v' ents' fs', appendBlock fs d (v.inode d) e name = (true, some (v'.inode d).size, fs') ∧
      (v'.inode d).size = (v.inode d).size + v.blockSize ∧
      Entered v d ents name e v' ents' ∧ Shows fs' v' := by
  have hlayout := h.volume.inOrder.layout
  have hbs := h.blockSize
  have hble := hlayout.blockSize_le
  have hbpos := hlayout.blockSize.pos
  have hbmod : fs.blockSize % 4 = 0 := by
    rcases hlayout.blockSize with hs | hs | hs
    · omega
    · omega
    · omega
  rw [hbs] at hneed hfits
  obtain ⟨idx, hidx⟩ : ∃ idx, (v.inode d).size / fs.blockSize = idx := ⟨_, rfl⟩
  have hdiv : fs.blockSize * idx + (v.inode d).size % fs.blockSize = (v.inode d).size :=
    hidx ▸ Nat.div_add_mod (v.inode d).size fs.blockSize
  have hlt := Nat.mod_lt (v.inode d).size hbpos
  have hcomm : (idx + 1) * fs.blockSize = fs.blockSize * idx + fs.blockSize := by
    rw [Nat.succ_mul, Nat.mul_comm]
  have hidx12 : idx < 12 := by
    rw [← hidx, Nat.div_lt_iff_lt_mul hbpos]
    omega
  have hzero : (v.inode d).block idx = 0 := by
    by_contra hne
    have hwithin := hdir.within idx hidx12 hne
    rw [hbs] at hwithin
    omega
  unfold appendBlock
  rw [hidx]
  rcases h.allocBlock with ⟨hnone, hshows, -⟩ | ⟨hne, hnew, hdata, hshows⟩
  · left
    rw [if_pos hnone]
    exact ⟨_, rfl, hshows⟩
  · right
    obtain ⟨phys, hphys⟩ : ∃ phys, (ext2AllocBlock fs).1 = phys := ⟨_, rfl⟩
    rw [hphys] at hne hnew hdata hshows
    dsimp only
    rw [hphys, if_neg hne, setBmap_direct _ _ hidx12]
    rw [if_pos rfl]
    have hplaced := h.placed_new (v.inode d) hidx12 hzero hne hnew hdata
    generalize (ext2AllocBlock fs).2 = fs1 at hshows ⊢
    generalize hm : putDirent (fun q => if q < fs.blockSize then 0#8 else fs1.buf q) 0 e
      fs.blockSize name = m
    obtain ⟨hwrite, hshows2⟩ := hshows.writeBuf hdata m
    rw [if_pos hwrite]
    generalize hraw : resized fs ((v.inode d).setBlock ⟨idx, by omega⟩ phys)
      ((v.inode d).size + fs.blockSize) = raw'
    have hsize' : raw'.size = (v.inode d).size + v.blockSize := by
      rw [← hraw, size_resized, hbs]
      exact Nat.mod_eq_of_lt (by omega)
    have hblocks : ∀ i, i < 12 →
        raw'.block i = ((v.inode d).setBlock ⟨idx, by omega⟩ phys).block i := by
      intro i _
      rw [← hraw, block_resized]
    have hd' : ((fs1.withBuf m).writeBuf phys).2.IsInode d := by
      rwa [hshows2.isInode_iff h rfl]
    obtain ⟨-, hshows3⟩ := hshows2.writeInode hd' raw'
    obtain ⟨before, behind, hrange⟩ : ∃ before behind, List.range 12 = before ++ idx :: behind :=
      List.append_of_mem (List.mem_range.mpr hidx12)
    have hput : PutIn (name, e) (dirBindings ents)
        (dirBindings (update ents idx [⟨e, fs.blockSize, name⟩])) := by
      refine ⟨bindingsIn ents before, bindingsIn ents behind, ?_, ?_⟩
      · have hself := dirBindings_update hrange ents (ents idx)
        rwa [update_eq_self, hdir.holes idx hidx12 hzero] at hself
      · rw [dirBindings_update hrange]
        simp [bindings, he.1]
    refine ⟨_, _, _, ?_, ?_, ⟨hplaced.dirFrame hidx12 hblocks ?_ ?_ m, ?_, hput⟩, hshows3⟩
    · rw [View.inode_withInode]
    · rw [View.inode_withInode, hsize']
    · rw [← hraw, mode_resized]
    · rw [← hraw, links_resized]
    · rw [View.inode_withInode]
      apply hdir.put hplaced hidx12 hblocks
      · omega
      · rw [hbs]
        omega
      · rw [hsize', hbs]
        exact hfits
      · rw [hbs, ← hm]
        exact newBlock_records hbmod hble hneed hname he.2 _

/--
The second half of `ext2_add_entry` puts an entry into the directory, or finds no free
block, or runs out of the direct blocks, which is seen in the size if it succeeds.
-/
theorem insertEntry_laid (hneed : needRecLen name ≤ v.blockSize) :
    ∃ ok size fs', insertEntry fs d (v.inode d) e name = some (ok, size, fs') ∧
      ((ok = false ∧ Shows fs' v) ∨
        (ok = true ∧ ∃ v' ents', size = some (v'.inode d).size ∧
          Entered v d ents name e v' ents' ∧ Shows fs' v') ∨
        (12 * v.blockSize < (v.inode d).size + v.blockSize ∧
          (ok = true → ∃ s, size = some s ∧ 12 * v.blockSize < s))) := by
  have hble := h.volume.inOrder.layout.blockSize_le
  have hsize := hdir.size_le
  have hbs := h.blockSize
  obtain ⟨buf, hscan, hbuf⟩ := hdir.scanDir_start h (roomIn (needRecLen name))
  unfold insertEntry
  rw [hscan]
  cases hhit : dirHit (roomIn (needRecLen name)) ents (List.range 12) with
  | some hit =>
    obtain ⟨j, o, room⟩ := hit
    obtain ⟨fs', hout, hentered⟩ := useRoom_spec h hd hdir hname he hhit (hbuf j o room hhit)
    simp only [endOf, hout]
    refine ⟨_, _, _, rfl, ?_⟩
    by_cases hfits : (v.inode d).size + needRecLen name ≤ 12 * v.blockSize
    · obtain ⟨v', ents', hsize', hins, hshows⟩ := hentered hfits
      exact Or.inr (Or.inl ⟨rfl, v', ents', by rw [hsize'], hins, hshows⟩)
    · exact Or.inr (Or.inr ⟨by omega, fun _ => ⟨_, rfl, by omega⟩⟩)
  | none =>
    by_cases hfits : (v.inode d).size + v.blockSize ≤ 12 * v.blockSize
    · rcases appendBlock_spec (h.withBuf buf) hd hdir hname he hneed hfits with
        ⟨fs', hout, hshows⟩ | ⟨v', ents', fs', hout, -, hins, hshows⟩
      · exact ⟨_, _, fs', congrArg some hout, Or.inl ⟨rfl, hshows⟩⟩
      · exact ⟨_, _, fs', congrArg some hout,
          Or.inr (Or.inl ⟨rfl, v', ents', rfl, hins, hshows⟩)⟩
    · refine ⟨_, _, _, rfl, Or.inr (Or.inr ⟨by omega, ?_⟩)⟩
      intro hok
      refine ⟨_, appendBlock_size hok, ?_⟩
      change _ < ((v.inode d).size + fs.blockSize) % 2 ^ 32
      omega

end Insertion

section Removal

variable {fs : Ext2Fs} {v : View} {ents : Nat → List Dirent} {d : Nat} {name : List (BitVec 8)}

/-- The directory `d` has lost the first entry of a name. -/
structure Dropped
    (v : View) (d : Nat) (ents : Nat → List Dirent) (name : List (BitVec 8)) (e : Nat) (v' : View)
    (ents' : Nat → List Dirent) : Prop where
  frame : DirFrame v d v'
  inode : v'.inode = v.inode
  usedBlocks : v'.used .block = v.used .block
  dir : DirLaid v' (v'.inode d) ents'
  taken : TakenOut name e (dirBindings ents) (dirBindings ents')

theorem Dropped.absent {e : Nat} {v' : View} {ents' : Nat → List Dirent}
    (h : Dropped v d ents name e v' ents') (hnames : ((dirBindings ents).map Prod.fst).Nodup)
    (x : Nat) :
    (name, x) ∉ dirBindings ents' := by
  rw [(h.taken.perm.map Prod.fst).nodup_iff, List.map_cons, List.nodup_cons] at hnames
  intro hx
  exact hnames.1 (List.mem_map.mpr ⟨(name, x), hx, rfl⟩)

/-- A record whose inode is set to 0. -/
def Dirent.cleared (r : Dirent) : Dirent :=
  { r with inode := 0 }

theorem direntAt_putInode (m : Nat → BitVec 8) (o e : Nat) :
    direntAt (putU32 m o e) o = { direntAt m o with inode := e % 2 ^ 32 } := by
  have hinode : u32 (putU32 m o e) o = e % 2 ^ 32 := u32_putU32_self m o e
  have hlen : u16 (putU32 m o e) (o + 4) = u16 m (o + 4) :=
    u16_congr (fun j _ => putU32_of_apart (by omega))
  have hcount : putU32 m o e (o + 6) = m (o + 6) := putU32_of_apart (by omega)
  have hbytes : (fun k => putU32 m o e (o + 8 + k)) = (fun k => m (o + 8 + k)) := by
    funext k
    exact putU32_of_apart (by omega)
  simp only [direntAt, hinode, hlen, hcount, hbytes]

theorem direntAt_clear (m : Nat → BitVec 8) (o : Nat) :
    direntAt (putU32 m o 0) o = (direntAt m o).cleared :=
  direntAt_putInode m o 0

/-- `ext2_remove_entry` takes the first entry of the name away, or there is no such name. -/
theorem removeEntry_laid
    (h : Shows fs v) (hd : fs.IsInode d) (hdir : DirLaid v (v.inode d) ents) {dir : VfsInode}
    (hprivate : dir.privateData = some d) (name : List (BitVec 8)) :
    (∃ fs', ext2RemoveEntry fs dir name = some (false, fs') ∧ Shows fs' v ∧
      ∀ e, (name, e) ∉ dirBindings ents) ∨
    ∃ e v' ents' fs', ext2RemoveEntry fs dir name = some (true, fs') ∧
      Dropped v d ents name e v' ents' ∧ Shows fs' v' := by
  obtain ⟨buf0, hread⟩ := h.readInode hd
  obtain ⟨buf, hscan, hbuf⟩ := hdir.scanDir_start (h.withBuf buf0) (nameIs name)
  simp only [ext2RemoveEntry, hprivate, hread, hscan]
  cases hhit : dirHit (nameIs name) ents (List.range 12) with
  | none =>
    left
    refine ⟨_, rfl, h.withBuf buf, ?_⟩
    intro e he
    obtain ⟨i, hi, r, hr, hname⟩ := mem_dirBindings.mp he
    rw [dirHit_eq_none.mp hhit i (List.mem_range.mpr hi) r hr] at hname
    cases hname
  | some hit =>
    right
    obtain ⟨j, o, e⟩ := hit
    obtain ⟨before, behind, pre, post, hat⟩ := hdir.hit hhit (hbuf j o e hhit)
    have hj := hat.lt
    have hne := hat.mapped
    have hok := hat.ok
    obtain ⟨hwrite, hshows⟩ := h.writeBuf (hdir.owns.data j hj hne) (putU32 buf o 0)
    have hcleared : Records (putU32 buf o 0) o (o + (direntAt buf o).recLen)
        [(direntAt buf o).cleared] :=
      Records.single (direntAt_clear buf o) ⟨hok.aligned, hok.fits⟩
    have hheader := hok.header
    have hrecords := hat.front.replace hcleared hat.rest (by
      intro i hi
      exact putU32_of_apart (by omega))
    have hplaced := Placed.present v hne
    have hself : (v.withData ((v.inode d).block j) (putU32 buf o 0)).withInode d (v.inode d) =
        v.withData ((v.inode d).block j) (putU32 buf o 0) :=
      View.withInode_self _ d
    have hframe : DirFrame v d ((v.withData ((v.inode d).block j) (putU32 buf o 0)).withInode d
        (v.inode d)) :=
      hplaced.dirFrame hj (fun _ _ => rfl) rfl rfl _
    have hdir' := hdir.put hplaced hj (fun _ _ => rfl) le_rfl (hdir.within j hj hne)
      hdir.size_le hrecords d (v.inode d)
    rw [hself] at hframe hdir'
    have htaken : TakenOut name e (dirBindings ents) (dirBindings (update ents j
        (pre ++ ([(direntAt buf o).cleared] ++ post)))) := hat.takenOut rfl
    refine ⟨e, _, _, ((fs.withBuf (putU32 buf o 0)).writeBuf ((v.inode d).block j)).2, ?_,
      ⟨hframe, rfl, rfl, hdir', htaken⟩, hshows⟩
    exact congrArg some (Prod.ext hwrite rfl)

end Removal

section Backing

variable {st : Ext2State} {v : View} {entry : VfsInode}

/-- Two views that are the same in all that is in use. -/
structure SameInUse (v v' : View) : Prop where
  blockSize : v'.blockSize = v.blockSize
  inodes : v'.inodes = v.inodes
  dataBlocks : v'.dataBlocks = v.dataBlocks
  used : v'.used = v.used
  inode : ∀ n, n ∈ v.used .inode → v'.inode n = v.inode n
  data : v'.data = v.data

/-- The view with a new inode. -/
def View.withNew (v : View) (n : Nat) (raw : Ext2Inode) : View :=
  (v.withUsed .inode (insert n (v.used .inode))).withInode n raw

theorem backEntry_spec (h : Shows st.fs v) (hnone : entry.privateData = none) :
    (∃ v' st', backEntry st entry = (none, entry, st') ∧ SameInUse v v' ∧ Shows st'.fs v') ∨
    ∃ n st', backEntry st entry = (some n,
        { entry with privateData := some n, iNo := n, ops := some .file }, st') ∧
      st.fs.IsInode n ∧ n ∉ v.used .inode ∧
      Shows st'.fs (v.withNew n (newInode entry.iMode)) := by
  simp only [backEntry, hnone]
  rcases h.allocInode with ⟨hzero, hshows⟩ | ⟨hinode, hnew, hshows⟩
  · left
    rw [if_pos hzero]
    exact ⟨v, _, rfl, ⟨rfl, rfl, rfl, rfl, fun _ _ => rfl, rfl⟩, hshows⟩
  · have hne : (ext2AllocInode st.fs).1 ≠ 0 := by
      have hpos := hinode.1
      omega
    rw [if_neg hne]
    generalize (ext2AllocInode st.fs).1 = n at hinode hnew hshows hne ⊢
    generalize (ext2AllocInode st.fs).2 = fs1 at hshows ⊢
    have hinode1 : fs1.IsInode n := (hshows.isInode_iff h rfl).mpr hinode
    obtain ⟨hwrite, hshows2⟩ := hshows.writeInode hinode1 (newInode entry.iMode)
    rw [if_pos hwrite]
    by_cases hpool : 64 ≤ st.dataNext
    · left
      rw [if_pos hpool]
      have hused : n ∈ (v.withNew n (newInode entry.iMode)).used .inode := by
        exact Set.mem_insert _ _
      have hfree := hshows2.free (k := .inode) hused (by simp)
      refine ⟨_, _, rfl, ?_, hfree⟩
      refine ⟨rfl, rfl, rfl, ?_, ?_, rfl⟩
      · funext k
        cases k with
        | block => rfl
        | inode =>
          have hrest : insert n (v.used .inode) \ {n} = v.used .inode :=
            Set.insert_sdiff_self_of_notMem hnew
          simpa [View.withInode] using hrest
      · intro m hm
        have hmn : m ≠ n := by
          rintro rfl
          exact hnew hm
        exact View.inode_withInode_of_ne _ hmn _
    · rw [if_neg hpool]
      exact Or.inr ⟨n, _, rfl, hinode, hnew, hshows2⟩

/-- The entry has the inode `e`, its own one or a new one. -/
inductive Backed (v : View) (entry : VfsInode) : Nat → View → VfsInode → Prop
  | own
      {e : Nat}
      (hown : entry.privateData = some e) :
      Backed v entry e v entry
  | new
      {e : Nat}
      (hnone : entry.privateData = none)
      (hpos : 0 < e)
      (hle : e ≤ v.inodes)
      (hnew : e ∉ v.used .inode) :
      Backed v entry e (v.withNew e (newInode entry.iMode))
        { entry with privateData := some e, iNo := e, ops := some .file }

variable {entry' : VfsInode} {v1 : View}

theorem Backed.private {e : Nat} (h : Backed v entry e v1 entry') :
    entry'.privateData = some e := by
  cases h with
  | own hown => exact hown
  | new hnone hpos hle hnew => rfl

theorem Backed.inode {e d : Nat} (h : Backed v entry e v1 entry')
    (hd : d ∈ v.used .inode) :
    v1.inode d = v.inode d := by
  cases h with
  | own hown => rfl
  | new hnone hpos hle hnew =>
    have hne : d ≠ e := by
      rintro rfl
      exact hnew hd
    exact View.inode_withInode_of_ne _ hne _

variable {ents : Nat → List Dirent}

theorem Backed.dir
    {e : Nat} {raw : Ext2Inode}
    (h : Backed v entry e v1 entry') (hdir : DirLaid v raw ents) :
    DirLaid v1 raw ents := by
  cases h with
  | own hown => exact hdir
  | new hnone hpos hle hnew =>
    exact ⟨hdir.size_le, hdir.records, hdir.holes, hdir.within,
      ⟨hdir.owns.used, hdir.owns.data, hdir.owns.distinct⟩⟩

theorem Backed.sizes {e : Nat} (h : Backed v entry e v1 entry') :
    v1.blockSize = v.blockSize ∧ v1.inodes = v.inodes := by
  cases h with
  | own hown => exact ⟨rfl, rfl⟩
  | new hnone hpos hle hnew => exact ⟨rfl, rfl⟩

theorem Backed.used_mem {e n : Nat} (h : Backed v entry e v1 entry')
    (hn : n ∈ v.used .inode) :
    n ∈ v1.used .inode := by
  cases h with
  | own hown => exact hn
  | new hnone hpos hle hnew =>
    exact Set.mem_insert_of_mem _ hn

/-- All outcomes of `backEntry`. -/
theorem backEntry_cases (h : Shows st.fs v) (entry : VfsInode) :
    (∃ v' st', backEntry st entry = (none, entry, st') ∧ SameInUse v v' ∧ Shows st'.fs v') ∨
    ∃ e v1 entry' st', backEntry st entry = (some e, entry', st') ∧
      Backed v entry e v1 entry' ∧ Shows st'.fs v1 := by
  cases hprivate : entry.privateData with
  | some e =>
    right
    refine ⟨e, v, entry, st, ?_, Backed.own hprivate, h⟩
    simp only [backEntry, hprivate]
  | none =>
    rcases backEntry_spec h hprivate with hfail | ⟨n, st', hout, hinode, hnew, hshows⟩
    · exact Or.inl hfail
    · right
      have hle : n ≤ v.inodes := by
        rw [h.inodes]
        exact hinode.2
      exact ⟨n, _, _, st', hout, Backed.new hprivate hinode.1 hle hnew, hshows⟩

/--
`ext2_add_entry` on a directory in use: it fails before the directory is touched,
or the entry has an inode and `insertEntry_laid` says the rest.
-/
theorem addEntry_laid {dir : VfsInode} {d : Nat} {name : List (BitVec 8)}
    (h : Shows st.fs v) (hd : st.fs.IsInode d) (hused : d ∈ v.used .inode)
    (hdir : DirLaid v (v.inode d) ents) (hprivate : dir.privateData = some d)
    (hneed : needRecLen name ≤ v.blockSize) (hname : name.length < 256)
    (hentry : ∀ e, entry.privateData = some e → e ≠ 0 ∧ e < 2 ^ 32) :
    ∃ ok dir' entry' st', ext2AddEntry st dir name entry = some (ok, dir', entry', st') ∧
      ((ok = false ∧ ∃ v', SameInUse v v' ∧ Shows st'.fs v') ∨
        ∃ e v1, Backed v entry e v1 entry' ∧
          ((ok = false ∧ Shows st'.fs v1) ∨
            (ok = true ∧ ∃ v' ents', dir'.iSize = (v'.inode d).size ∧
              Entered v1 d ents name e v' ents' ∧ Shows st'.fs v') ∨
            (12 * v.blockSize < (v.inode d).size + v.blockSize ∧
              (ok = true → 12 * v.blockSize < dir'.iSize)))) := by
  obtain ⟨buf, hread⟩ := h.readInode hd
  have hbuf : Shows ({ st with fs := st.fs.withBuf buf } : Ext2State).fs v := h.withBuf buf
  simp only [ext2AddEntry, hprivate, hread]
  rcases backEntry_cases hbuf entry with
    ⟨v', st', hout, hsame, hshows⟩ | ⟨e, v1, entry', st', hout, hbacked, hshows⟩
  · rw [hout]
    exact ⟨_, _, _, _, rfl, Or.inl ⟨rfl, v', hsame, hshows⟩⟩
  · have he : e ≠ 0 ∧ e < 2 ^ 32 := by
      cases hbacked with
      | own hown => exact hentry e hown
      | new hnone hpos hle hnew =>
        have hlt : v.inodes < 2 ^ 32 := by
          rw [h.inodes]
          exact u32_lt _ _
        omega
    obtain ⟨hbs, hinodes⟩ := hbacked.sizes
    have hinode := hbacked.inode hused
    have hdir1 : DirLaid v1 (v1.inode d) ents := by
      rw [hinode]
      exact hbacked.dir hdir
    have hd1 : st'.fs.IsInode d := (hshows.isInode_iff h hinodes).mpr hd
    obtain ⟨ok, size, fs', hins, hcases⟩ := insertEntry_laid hshows hd1 hdir1 hname he
      (hbs.symm ▸ hneed)
    rw [hinode, hbs] at hcases
    rw [hinode] at hins
    rw [hout]
    simp only [hins]
    refine ⟨_, _, _, _, rfl, Or.inr ⟨e, v1, hbacked, ?_⟩⟩
    rcases hcases with hfail | ⟨hok, v', ents', hsize, hentered, hshows'⟩ | ⟨hover, hsize⟩
    · exact Or.inl hfail
    · refine Or.inr (Or.inl ⟨hok, v', ents', ?_, hentered, hshows'⟩)
      rw [hsize]
      rfl
    · refine Or.inr (Or.inr ⟨hover, ?_⟩)
      intro hok
      obtain ⟨s, rfl, hs⟩ := hsize hok
      exact hs

end Backing

end Ext2
end Homunculos
