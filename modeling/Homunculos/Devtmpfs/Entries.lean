import Homunculos.Devtmpfs.Instances

/-!
# A directory of devtmpfs as a map

A directory is a table of at most 16 entries in which removal moves the last entry into the
hole.  To its callers it is a finite map from names to inodes.
-/

namespace Homunculos
namespace Devtmpfs

open SwapRemove Function

/-- `struct vfs_dirent` -/
structure Dirent where
  dIno : Nat
  dType : Nat
  dName : Name

/-- What `devtmpfs_readdir` makes of an entry. -/
def State.dirent (s : State) (e : Entry) : Dirent where
  dIno := (s.inodes e.2).iNo
  dType := if (s.inodes e.2).iType = .dir then 4 else 8
  dName := e.1.take 63

def State.readdir (s : State) (d : Dir) (index : Nat) : Option Dirent :=
  (s.dirs d)[index]?.map s.dirent

/-- The operations on one directory -/
inductive DirOp where
  | addEntry (name : Name) (ino : Ino)
  | removeEntry (name : Name)
  | lookup (name : Name)
  | readdir (index : Nat)

def DirOp.run (d : Dir) (s : State) : DirOp → State
  | .addEntry name ino => (s.addEntry d name ino).2
  | .removeEntry name => (s.removeEntry d name).2
  | .lookup _ => s
  | .readdir _ => s

abbrev NameMap := Name → Option Ino

/-- The number of names with an inode. -/
noncomputable def NameMap.card (m : NameMap) : Nat :=
  Set.ncard {name | m name ≠ none}

/-- The operations on a map with room for 16 names -/
noncomputable def DirOp.apply (m : NameMap) : DirOp → NameMap
  | .addEntry name ino => if m.card < 16 then update m name (some ino) else m
  | .removeEntry name => update m name none
  | .lookup _ => m
  | .readdir _ => m

noncomputable def DirOp.step (d : Dir) (x : State × NameMap) (op : DirOp) : State × NameMap :=
  (op.run d x.1, op.apply x.2)

/-- Names that are added are absent and short. -/
def DirOp.Fresh (x : State × NameMap) : DirOp → Prop
  | .addEntry name _ => x.2 name = none ∧ name.length ≤ 63
  | _ => True

/-- The results of the calls are those of the map. -/
structure Behaves (s : State) (d : Dir) (m : NameMap) : Prop where
  addEntry : ∀ name ino, (s.addEntry d name ino).1 = true ↔ m.card < 16
  removeEntry : ∀ name, (s.removeEntry d name).1 = true ↔ m name ≠ none
  lookup : ∀ name, s.lookup d name = m name
  readdir : ∃ es : List Entry, (es.map Prod.fst).Nodup ∧
    (∀ name ino, (name, ino) ∈ es ↔ m name = some ino) ∧
    ∀ index, s.readdir d index = es[index]?.map s.dirent

/-- The entries of a table are those of a map. -/
structure Tabulates (l : List Entry) (m : NameMap) : Prop where
  nodup : (l.map Prod.fst).Nodup
  mem : ∀ name ino, (name, ino) ∈ l ↔ m name = some ino

section Tables

variable {s : State} {d : Dir} {m : NameMap} {l l' : List Entry} {name : Name} {ino : Ino}

theorem State.lookup_cases (s : State) (d : Dir) (name : Name) :
    (s.index d name = none ∧ s.lookup d name = none ∧ ∀ e ∈ s.dirs d, e.1 ≠ name) ∨
      ∃ i e, s.index d name = some i ∧ s.lookup d name = some e.2 ∧ e ∈ s.dirs d ∧ e.1 = name ∧
        (s.dirs d).Perm (e :: swapRemove (s.dirs d) i) := by
  cases hi : s.index d name with
  | none =>
    refine Or.inl ⟨rfl, by rw [lookup, hi], fun e he => ?_⟩
    simpa using List.findIdx?_eq_none_iff.mp hi e he
  | some i =>
    obtain ⟨e, hlookup, hget, hperm, -⟩ := removeEntry_spec hi
    obtain ⟨hlt, hname, -⟩ := List.findIdx?_eq_some_iff_getElem.mp hi
    rw [List.getElem?_eq_getElem hlt, Option.some.injEq] at hget
    rw [hget, decide_eq_true_eq] at hname
    exact Or.inr ⟨i, e, rfl, hlookup, hget ▸ List.getElem_mem hlt, hname, hperm⟩

theorem Tabulates.not_mem (h : Tabulates l m) (hm : m name = none) : name ∉ l.map Prod.fst := by
  intro hmem
  obtain ⟨e, he, rfl⟩ := List.mem_map.mp hmem
  rw [(h.mem e.1 e.2).mp he] at hm
  cases hm

theorem Tabulates.lookup (h : Tabulates (s.dirs d) m) (name : Name) :
    s.lookup d name = m name := by
  rcases s.lookup_cases d name with ⟨-, hnone, habsent⟩ | ⟨i, e, -, hsome, he, rfl, -⟩
  · rw [hnone]
    cases hm : m name with
    | none => rfl
    | some ino => exact absurd rfl (habsent _ ((h.mem name ino).mpr hm))
  · rw [hsome, (h.mem e.1 e.2).mp he]

theorem Tabulates.card_eq (h : Tabulates l m) : m.card = l.length := by
  have hset : {name | m name ≠ none} = ((l.map Prod.fst).toFinset : Set Name) := by
    ext name
    simp only [Option.ne_none_iff_exists', List.coe_toFinset, List.mem_map,
      Prod.exists, exists_and_right, exists_eq_right]
    exact exists_congr fun ino => (h.mem name ino).symm
  rw [NameMap.card, hset, Set.ncard_coe_finset, List.toFinset_card_of_nodup h.nodup,
    List.length_map]

theorem Tabulates.add (h : Tabulates l m) (hm : m name = none) (ino : Ino) :
    Tabulates (l ++ [(name, ino)]) (update m name (some ino)) := by
  refine ⟨?_, fun n i => ?_⟩
  · rw [List.map_append]
    refine List.nodup_append.mpr ⟨h.nodup, List.nodup_singleton _, ?_⟩
    rintro n hn n' hn' rfl
    rw [List.mem_singleton.mp hn'] at hn
    exact h.not_mem hm hn
  · by_cases hn : n = name
    · subst hn
      have hold : (n, i) ∉ l := fun hmem => by
        rw [(h.mem n i).mp hmem] at hm
        cases hm
      simp [hold, eq_comm]
    · rw [update_of_ne hn, ← h.mem]
      simp [hn]

theorem Tabulates.remove {e : Entry} (h : Tabulates l m) (hperm : l.Perm (e :: l')) :
    Tabulates l' (update m e.1 none) := by
  have hnodup := (hperm.map Prod.fst).nodup_iff.mp h.nodup
  rw [List.map_cons, List.nodup_cons] at hnodup
  refine ⟨hnodup.2, fun n i => ?_⟩
  by_cases hn : n = e.1
  · subst hn
    have hout : (e.1, i) ∉ l' := fun hmem => hnodup.1 (List.mem_map.mpr ⟨_, hmem, rfl⟩)
    simp [hout]
  · rw [update_of_ne hn, ← h.mem, hperm.mem_iff, List.mem_cons]
    exact ⟨Or.inr, fun hmem => hmem.resolve_left fun heq => hn (congrArg Prod.fst heq)⟩

theorem Tabulates.addEntry_iff (h : Tabulates (s.dirs d) m) (name : Name) (ino : Ino) :
    (s.addEntry d name ino).1 = true ↔ m.card < 16 := by
  rw [h.card_eq, State.addEntry]
  split
  · rename_i hfull
    exact iff_of_false Bool.false_ne_true (Nat.not_lt.mpr hfull)
  · rename_i hroom
    exact iff_of_true rfl (Nat.not_le.mp hroom)

theorem Tabulates.step (h : Tabulates (s.dirs d) m) (op : DirOp) (hop : op.Fresh (s, m)) :
    Tabulates ((op.run d s).dirs d) (op.apply m) := by
  cases op with
  | addEntry name ino =>
    obtain ⟨hm, hlen⟩ := hop
    simp only [DirOp.run, DirOp.apply, h.card_eq, State.addEntry]
    by_cases hfull : maxEntries ≤ (s.dirs d).length
    · have hnone : ¬ (s.dirs d).length < 16 := Nat.not_lt.mpr hfull
      rw [if_pos hfull, if_neg hnone]
      exact h
    · have hroom : (s.dirs d).length < 16 := Nat.not_le.mp hfull
      rw [if_neg hfull, if_pos hroom, State.dirs_setDir, List.take_of_length_le hlen]
      exact h.add hm ino
  | removeEntry name =>
    simp only [DirOp.run, DirOp.apply, State.removeEntry]
    rcases s.lookup_cases d name with ⟨hi, hnone, -⟩ | ⟨i, e, hi, -, -, rfl, hperm⟩
    · rw [hi, update_eq_self_iff.mpr ((h.lookup name).symm.trans hnone).symm]
      exact h
    · rw [hi, State.dirs_setDir]
      exact h.remove hperm
  | lookup name => exact h
  | readdir index => exact h

theorem Tabulates.behaves (h : Tabulates (s.dirs d) m) : Behaves s d m := by
  refine ⟨h.addEntry_iff, fun name => ?_, h.lookup, s.dirs d, h.nodup, h.mem, fun _ => rfl⟩
  rw [← h.lookup name, State.removeEntry]
  rcases s.lookup_cases d name with ⟨hi, hnone, -⟩ | ⟨i, e, hi, hsome, -⟩
  · simp [hi, hnone]
  · simp [hi, hsome]

/-- From an empty directory on, every call gives what the map gives. -/
theorem directory_is_map (s : State) (d : Dir) (hempty : s.dirs d = []) (ops : List DirOp)
    (hops : Run.Allowed (DirOp.step d) DirOp.Fresh (s, fun _ => none) ops) :
    Behaves (ops.foldl (DirOp.step d) (s, fun _ => none)).1 d
      (ops.foldl (DirOp.step d) (s, fun _ => none)).2 := by
  have hstart : Tabulates (s.dirs d) (fun _ => none) := by
    rw [hempty]
    exact ⟨List.nodup_nil, by simp⟩
  exact (hops.invariant (P := fun x => Tabulates (x.1.dirs d) x.2) hstart
    fun _ op _ hop h => h.step op hop).behaves

/-- `a` and `b` are added, and `a` is removed. -/
theorem directory_is_map_two :
    ∃ x : State × NameMap, x = [DirOp.addEntry [0x61#8] 1, .addEntry [0x62#8] 2,
        .removeEntry [0x61#8]].foldl (DirOp.step .root) (bareRoot.fs, fun _ => none) ∧
      Behaves x.1 .root x.2 := by
  refine ⟨_, rfl, directory_is_map bareRoot.fs .root rfl _ ⟨⟨rfl, by decide⟩, ⟨?_, by decide⟩,
    trivial, trivial⟩⟩
  have hcard : NameMap.card (fun _ => none) = 0 := by simp [NameMap.card]
  simp [DirOp.step, DirOp.apply, hcard]

end Tables

/-- The number of inodes that `vfs_alloc_inode` can still give. -/
def State.freeInodes (s : State) : Nat :=
  (Finset.univ.filter fun i => (s.inodes i).iNo = 0).card

/-- The inode of the device `k` is found under the name of the device. -/
def Found (s : State) (k : Nat) (dev : Device) : Prop :=
  ∃ ino x, s.lookup .devmount dev.name = some ino ∧ s.inodes ino = State.deviceInode k dev x

section Devices

variable {s s' : State} {d : Dir} {ino : Ino}

theorem register_all (devs : List Device) (hfits : s.devices.length + devs.length ≤ 32)
    (hlen : ∀ dev ∈ devs, dev.name.length ≤ 63) :
    devs.foldl State.register s = { s with devices := s.devices ++ devs } := by
  induction devs generalizing s with
  | nil => simp
  | cons dev devs ih =>
    have hone : s.register dev = { s with devices := s.devices ++ [dev] } := by
      have hname : dev.name.take 63 = dev.name :=
        List.take_of_length_le (hlen dev List.mem_cons_self)
      rw [List.length_cons] at hfits
      rw [State.register, if_neg (by omega), hname]
    rw [List.foldl_cons, hone, ih ?_ fun dev' h => hlen dev' (List.mem_cons_of_mem _ h)]
    · simp
    · simp only [List.length_append, List.length_cons, List.length_nil] at hfits ⊢
      omega

theorem freeInodes_le (ino : Ino) (h : ∀ i, i ≠ ino → s'.inodes i = s.inodes i) :
    s.freeInodes ≤ s'.freeInodes + 1 := by
  refine (Finset.card_le_card (t := insert ino (Finset.univ.filter fun i =>
    (s'.inodes i).iNo = 0)) fun i hi => ?_).trans (Finset.card_insert_le _ _)
  by_cases hne : i = ino
  · exact Finset.mem_insert.mpr (Or.inl hne)
  · rw [Finset.mem_insert, Finset.mem_filter, h i hne]
    exact Or.inr ⟨Finset.mem_univ i, (Finset.mem_filter.mp hi).2⟩

theorem alloc_of_free (h : 0 < s.freeInodes) :
    ∃ ino s', s.vfsAllocInode = some (ino, s') ∧ s'.devices = s.devices ∧
      ∀ i, i ≠ ino → s'.inodes i = s.inodes i := by
  obtain ⟨i, hi⟩ := Finset.card_pos.mp h
  have hzero := (Finset.mem_filter.mp hi).2
  unfold State.vfsAllocInode
  split
  · rename_i hnone
    exact absurd (decide_eq_true hzero) (List.find?_eq_none.mp hnone i (List.mem_finRange i))
  · exact ⟨_, _, rfl, rfl, fun i hi => update_of_ne hi _ _⟩

/-- The loop body of `populate_dir`: the new inode is in no entry, and there is a new entry as
long as the directory has room. -/
theorem populate_spec (h : s.EnteredOnce) (hfree : 0 < s.freeInodes) (x : Device × Nat)
    (hlen : x.1.name.length ≤ 63) :
    ∃ ino y, (∀ e ∈ s.dirs d, e.2 ≠ ino) ∧
      (∀ i, i ≠ ino → (State.populate d s x).inodes i = s.inodes i) ∧
      (State.populate d s x).inodes ino = State.deviceInode x.2 x.1 y ∧
      (State.populate d s x).dirs d =
        if 16 ≤ (s.dirs d).length then s.dirs d else s.dirs d ++ [(x.1.name, ino)] := by
  obtain ⟨ino, s', halloc, -, hrest⟩ := alloc_of_free hfree
  obtain ⟨-, hdirs, -, -, -, hunused⟩ := h.alloc halloc
  have hout : State.populate d s x =
      ((s'.setInode ino (State.deviceInode x.2 x.1 (s'.inodes ino))).addEntry
        d x.1.name ino).2 := by
    rw [State.populate, halloc]
  have hinode : ∀ i, i ≠ ino →
      (s'.setInode ino (State.deviceInode x.2 x.1 (s'.inodes ino))).inodes i = s.inodes i :=
    fun i hi => (update_of_ne hi _ _).trans (hrest i hi)
  have hself : (s'.setInode ino (State.deviceInode x.2 x.1 (s'.inodes ino))).inodes ino = _ :=
    update_self _ _ _
  have hdir : (s'.setInode ino (State.deviceInode x.2 x.1 (s'.inodes ino))).dirs d = s.dirs d :=
    congrFun hdirs d
  refine ⟨ino, s'.inodes ino, hdirs ▸ hunused d, ?_⟩
  rw [hout]
  unfold State.addEntry
  split
  · rename_i hfull
    rw [hdir] at hfull
    exact ⟨hinode, hself, hdir.trans (if_pos hfull).symm⟩
  · rename_i hroom
    rw [hdir] at hroom
    refine ⟨hinode, hself, (update_self _ _ _).trans ?_⟩
    rw [List.take_of_length_le hlen, hdir]
    exact (if_neg hroom).symm

/-- `populate_dir` adds the first devices for which there is room. -/
theorem populate_run (l : List (Device × Nat)) (h : s.EnteredOnce)
    (hfree : l.length ≤ s.freeInodes) (hlen : ∀ x ∈ l, x.1.name.length ≤ 63) :
    ∃ es, (l.foldl (State.populate d) s).dirs d = s.dirs d ++ es ∧
      (∀ e ∈ s.dirs d, (l.foldl (State.populate d) s).inodes e.2 = s.inodes e.2) ∧
      es.map Prod.fst = (l.map fun x => x.1.name).take (16 - (s.dirs d).length) ∧
      ∀ x ∈ l.take (16 - (s.dirs d).length), ∃ e ∈ es, e.1 = x.1.name ∧
        ∃ y, (l.foldl (State.populate d) s).inodes e.2 = State.deviceInode x.2 x.1 y := by
  induction l generalizing s with
  | nil => exact ⟨[], (List.append_nil _).symm, fun _ _ => rfl, by simp, by simp⟩
  | cons x l ih =>
    rw [List.length_cons] at hfree
    obtain ⟨ino, y, hunused, hsame, hnew, hdirs⟩ :=
      populate_spec (d := d) h (by omega) x (hlen x List.mem_cons_self)
    have hleft := freeInodes_le ino hsame
    obtain ⟨es, hall, hkept, hnames, hes⟩ := ih (h.populate d x).1 (by omega)
      fun x' hx' => hlen x' (List.mem_cons_of_mem _ hx')
    have hold : ∀ e ∈ s.dirs d, (l.foldl (State.populate d) (State.populate d s x)).inodes e.2 =
        s.inodes e.2 := by
      intro e he
      refine (hkept e ?_).trans (hsame e.2 (hunused e he))
      rw [hdirs]
      split
      · exact he
      · exact List.mem_append_left _ he
    by_cases hfull : 16 ≤ (s.dirs d).length
    · rw [hdirs, if_pos hfull, Nat.sub_eq_zero_of_le hfull] at hnames hes
      rw [hdirs, if_pos hfull] at hall
      rw [Nat.sub_eq_zero_of_le hfull]
      exact ⟨es, hall, hold, hnames, hes⟩
    · rw [hdirs, if_neg hfull] at hall hkept hnames hes
      rw [List.length_append] at hnames hes
      rw [show 16 - (s.dirs d).length = 16 - ((s.dirs d).length + 1) + 1 by omega]
      refine ⟨(x.1.name, ino) :: es, by simpa using hall, hold, by simp [hnames], ?_⟩
      intro x' hx'
      rcases List.mem_cons.mp (List.take_succ_cons ▸ hx') with rfl | hx'
      · exact ⟨_, List.mem_cons_self, rfl, y, (hkept _ (by simp)).trans hnew⟩
      · obtain ⟨e, he, hfound⟩ := hes x' hx'
        exact ⟨e, List.mem_cons_of_mem _ he, hfound⟩

/-- `devtmpfs_create_mount` populates an empty directory. -/
theorem createMount_spec (h : s.EnteredOnce) (hfree : 0 < s.freeInodes) :
    ∃ s2 : State, s2.EnteredOnce ∧ s2.devices = s.devices ∧ s2.dirs .devmount = [] ∧
      s.freeInodes ≤ s2.freeInodes + 1 ∧ s.createMount.2 = s2.populateDir .devmount := by
  obtain ⟨ino, s1, halloc, hdevs, hrest⟩ := alloc_of_free hfree
  refine ⟨(s1.setDir .devmount []).setInode ino { s1.inodes ino with
    iType := .dir, iMode := dirMode, data := .dir .devmount }, h.emptyMount halloc _, hdevs, ?_,
    freeInodes_le ino fun i hi => ?_, ?_⟩
  · exact update_self Dir.devmount [] s1.dirs
  · exact (update_of_ne hi _ _).trans (hrest i hi)
  · rw [State.createMount, halloc]

theorem found_iff (h : s.EnteredOnce) (hnames : (s.devices.map Device.name).Nodup)
    (hlen : ∀ dev ∈ s.devices, dev.name.length ≤ 63) (hfree : s.devices.length < s.freeInodes) :
    (∀ k dev, s.devices[k]? = some dev → Found s.createMount.2 k dev) ↔
      s.devices.length ≤ 16 := by
  obtain ⟨s2, hentered, hdevs, hempty, hleft, hmount⟩ := createMount_spec h (by omega)
  obtain ⟨es, hall, -, hfst, hes⟩ := populate_run (d := .devmount) s.devices.zipIdx hentered
    (by rw [List.length_zipIdx]; omega) fun x hx => hlen x.1 (List.fst_mem_of_mem_zipIdx hx)
  rw [hmount, State.populateDir, hdevs]
  generalize s.devices.zipIdx.foldl (State.populate .devmount) s2 = s' at *
  rw [hempty, List.length_nil] at hfst hes
  rw [hempty, List.nil_append] at hall
  rw [show s.devices.zipIdx.map (fun x => x.1.name) = s.devices.map Device.name by
    rw [← List.zipIdx_map_fst 0 s.devices, List.map_map]; simp [comp_def]] at hfst
  constructor
  · intro hfound
    by_contra! hmany
    obtain ⟨ino, x, hlookup, -⟩ := hfound 16 _ (List.getElem?_eq_getElem hmany)
    rcases s'.lookup_cases .devmount (s.devices[16]).name with
      ⟨-, hnone, -⟩ | ⟨i, e, -, -, he, hname, -⟩
    · rw [hnone] at hlookup
      cases hlookup
    · have hmem : e.1 ∈ (s.devices.map Device.name).take 16 := by
        rw [← hfst]
        exact List.mem_map.mpr ⟨e, hall ▸ he, rfl⟩
      obtain ⟨j, hj, hget⟩ := List.mem_take_iff_getElem.mp hmem
      have hlt : 16 < (s.devices.map Device.name).length := by rwa [List.length_map]
      have hsame := hnames.getElem_inj_iff.mp
        (hget.trans (hname.trans (List.getElem_map (h := hlt) _).symm))
      omega
  · intro hfew k dev hk
    obtain ⟨e, he, hname, y, hy⟩ := hes (dev, k) (by
      rw [List.take_of_length_le (by rw [List.length_zipIdx]; exact hfew)]
      exact List.mk_mem_zipIdx_iff_getElem?.mpr hk)
    refine ⟨e.2, y, ?_, hy⟩
    rcases s'.lookup_cases .devmount dev.name with
      ⟨-, -, habsent⟩ | ⟨i, e', -, hsome, he', hname', -⟩
    · exact absurd hname (habsent e (hall ▸ he))
    · have hnodup : (es.map Prod.fst).Nodup := hfst ▸ hnames.sublist (List.take_sublist _ _)
      rw [hsome, List.inj_on_of_nodup_map hnodup (hall ▸ he') he (hname'.trans hname.symm)]

/--
The registered devices are all found in a new mount exactly if there are at most 16 of them.
-/
theorem devices_found_iff (s : State) (hentered : s.EnteredOnce) (hnone : s.devices = [])
    (devs : List Device) (haccept : devs.length ≤ 32) (hnames : (devs.map Device.name).Nodup)
    (hlen : ∀ dev ∈ devs, dev.name.length ≤ 63) (hfree : devs.length < s.freeInodes) :
    (∀ k dev, devs[k]? = some dev → Found (devs.foldl State.register s).createMount.2 k dev) ↔
      devs.length ≤ 16 := by
  rw [register_all devs (by simpa [hnone] using haccept) hlen, hnone]
  exact found_iff (s := { s with devices := devs })
    (hentered.congr rfl rfl hentered.next (Nat.le_refl _)) hnames hlen hfree

/-- `n` devices `a`, `b` and so on -/
def letters (n : Nat) : List Device :=
  (List.range n).map fun k => ⟨[BitVec.ofNat 8 (0x61 + k)], .blk, k, none⟩

theorem devices_found_iff_two :
    (letters 2).length = 2 ∧ ∀ k dev, (letters 2)[k]? = some dev →
      Found ((letters 2).foldl State.register bareRoot.fs).createMount.2 k dev :=
  ⟨rfl, (devices_found_iff bareRoot.fs bareRoot_sound.entered rfl (letters 2)
    (by decide) (by decide)
    (by decide) (by decide +kernel)).mpr (by decide)⟩

/-- Of 17 devices the last one is missing. -/
theorem seventeenth_device_missing :
    ((letters 17).foldl State.register bareRoot.fs).devices.length = 17 ∧
      ¬ ∀ k dev, (letters 17)[k]? = some dev →
        Found ((letters 17).foldl State.register bareRoot.fs).createMount.2 k dev := by
  have hlost : ((letters 17).foldl State.register bareRoot.fs).createMount.2.lookup .devmount
      [0x71#8] = none := by
    decide +kernel
  refine ⟨by decide +kernel, fun hfound => ?_⟩
  obtain ⟨ino, x, hlookup, -⟩ := hfound 16 ⟨[0x71#8], .blk, 16, none⟩ rfl
  cases hlookup

end Devices

end Devtmpfs
end Homunculos
