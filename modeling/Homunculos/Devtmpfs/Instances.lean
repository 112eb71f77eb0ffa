import Homunculos.Devtmpfs.Model

/-!
# Instances of devtmpfs

Every inode that `devtmpfs_create_mount` makes stands for the same static directory, which
it empties first.  At most one entry leads to a directory and none to a root, so that two
roots have no directory in common.
-/

namespace Homunculos
namespace Devtmpfs

open SwapRemove Function

namespace State

/-- The number of entries that lead to the directory `x`. -/
def refs (s : State) (x : Dir) : Nat :=
  ∑ d, (s.dirs d).countP (fun e => decide ((s.inodes e.2).data = .dir x))

/-- Whether an entry leads to the directory `x` -/
abbrev leads (s : State) (x : Dir) : Entry → Bool :=
  fun e => decide ((s.inodes e.2).data = .dir x)

/-- The directories in the instance with the root `r`. -/
inductive Under (s : State) (r : Dir) : Dir → Prop
  | root : Under s r r
  | entry {d x : Dir} {e : Entry} (hd : Under s r d) (he : e ∈ s.dirs d)
      (hx : (s.inodes e.2).data = .dir x) : Under s r x

/-- At most one entry leads to a directory, and none to a root. A directory may still have been
moved below itself. -/
structure EnteredOnce (s : State) : Prop where
  next : s.nextIno ≠ 0
  alive : ∀ d, ∀ e ∈ s.dirs d, (s.inodes e.2).iNo ≠ 0
  once : ∀ x, s.refs x ≤ 1
  root : s.refs .root = 0
  devmount : s.refs .devmount = 0
  fresh : ∀ i : Fin 16, s.dirNext ≤ i.val → s.refs (.pool i) = 0

section Counting

variable {s s' : State} {d x : Dir} {l : List Entry} {e : Entry} {name : Name} {ino : Ino}

theorem count_le_refs (s : State) (d x : Dir) :
    (s.dirs d).countP (s.leads x) ≤ s.refs x :=
  Finset.single_le_sum (f := fun d => (s.dirs d).countP (s.leads x)) (fun _ _ => Nat.zero_le _)
    (Finset.mem_univ d)

theorem refs_pos (he : e ∈ s.dirs d) (hx : (s.inodes e.2).data = .dir x) : 0 < s.refs x :=
  Nat.lt_of_lt_of_le (List.countP_pos_iff.mpr ⟨e, he, by simp [hx]⟩) (count_le_refs s d x)

theorem mem_setDir {d' : Dir} (he : e ∈ (s.setDir d l).dirs d') :
    (d' = d ∧ e ∈ l) ∨ e ∈ s.dirs d' := by
  by_cases hd : d' = d
  · subst hd
    rw [dirs_setDir] at he
    exact Or.inl ⟨rfl, he⟩
  · rw [dirs_setDir_of_ne hd] at he
    exact Or.inr he

theorem refs_setDir (s : State) (d : Dir) (l : List Entry) (x : Dir) :
    (s.setDir d l).refs x + (s.dirs d).countP (s.leads x) =
      s.refs x + l.countP (s.leads x) := by
  change ∑ d', ((s.setDir d l).dirs d').countP (s.leads x) + _ =
    ∑ d', (s.dirs d').countP (s.leads x) + _
  rw [← Finset.add_sum_erase _ _ (Finset.mem_univ d),
    ← Finset.add_sum_erase _ (fun d => (s.dirs d).countP (s.leads x)) (Finset.mem_univ d)]
  have hrest : ∀ d' ∈ Finset.univ.erase d,
      ((s.setDir d l).dirs d').countP (s.leads x) = (s.dirs d').countP (s.leads x) := by
    intro d' hd'
    rw [dirs_setDir_of_ne (Finset.ne_of_mem_erase hd')]
  rw [Finset.sum_congr rfl hrest, dirs_setDir]
  omega

theorem refs_setInode (hunused : ∀ d, ∀ e ∈ s.dirs d, e.2 ≠ ino) (y : Inode) (x : Dir) :
    (s.setInode ino y).refs x = s.refs x := by
  refine Finset.sum_congr rfl fun d _ => List.countP_congr fun e he => ?_
  rw [inodes_setInode_of_ne (hunused d e he)]

theorem EnteredOnce.of_refs_le (h : s.EnteredOnce) (hnext : s'.nextIno ≠ 0)
    (hdirNext : s.dirNext ≤ s'.dirNext) (halive : ∀ d, ∀ e ∈ s'.dirs d, (s'.inodes e.2).iNo ≠ 0)
    (hrefs : ∀ x, s'.refs x ≤ s.refs x) :
    s'.EnteredOnce where
  next := hnext
  alive := halive
  once x := (hrefs x).trans (h.once x)
  root := Nat.le_zero.mp (h.root ▸ hrefs _)
  devmount := Nat.le_zero.mp (h.devmount ▸ hrefs _)
  fresh i hi := Nat.le_zero.mp (h.fresh i (hdirNext.trans hi) ▸ hrefs _)

theorem EnteredOnce.setInode (h : s.EnteredOnce) (hunused : ∀ d, ∀ e ∈ s.dirs d, e.2 ≠ ino)
    (y : Inode) :
    (s.setInode ino y).EnteredOnce := by
  refine h.of_refs_le h.next (Nat.le_refl _) ?_ fun x => (refs_setInode hunused y x).le
  intro d e he
  rw [inodes_setInode_of_ne (hunused d e he)]
  exact h.alive d e he

theorem refs_congr (hdirs : s'.dirs = s.dirs) (hinodes : s'.inodes = s.inodes) (x : Dir) :
    s'.refs x = s.refs x := by
  unfold refs
  rw [hdirs, hinodes]

theorem EnteredOnce.congr (h : s.EnteredOnce) (hdirs : s'.dirs = s.dirs)
    (hinodes : s'.inodes = s.inodes) (hnext : s'.nextIno ≠ 0) (hdirNext : s.dirNext ≤ s'.dirNext) :
    s'.EnteredOnce := by
  refine h.of_refs_le hnext hdirNext ?_ fun x => (refs_congr hdirs hinodes x).le
  rw [hdirs, hinodes]
  exact h.alive

theorem refs_shrink (hsub : l.Subperm (s.dirs d)) (x : Dir) : (s.setDir d l).refs x ≤ s.refs x := by
  have hcount := refs_setDir s d l x
  have hle := hsub.countP_le (s.leads x)
  omega

theorem EnteredOnce.shrink (h : s.EnteredOnce) (hsub : l.Subperm (s.dirs d)) :
    (s.setDir d l).EnteredOnce := by
  refine h.of_refs_le h.next (Nat.le_refl _) ?_ (refs_shrink hsub)
  intro d' e he
  rcases mem_setDir he with ⟨rfl, hl⟩ | hold
  · exact h.alive d' e (hsub.subset hl)
  · exact h.alive d' e hold

theorem EnteredOnce.alive_append (h : s.EnteredOnce) (hino : (s.inodes ino).iNo ≠ 0) {d' : Dir}
    (he : e ∈ (s.setDir d (s.dirs d ++ [(name, ino)])).dirs d') : (s.inodes e.2).iNo ≠ 0 := by
  rcases mem_setDir he with ⟨rfl, hl⟩ | hold
  · rcases List.mem_append.mp hl with hold | hnew
    · exact h.alive d' e hold
    · rw [List.mem_singleton.mp hnew]
      exact hino
  · exact h.alive d' e hold

theorem EnteredOnce.addEntry (h : s.EnteredOnce) (d : Dir) (name : Name)
    (hino : (s.inodes ino).iNo ≠ 0)
    (hdir : ∀ x, (s.inodes ino).data = .dir x →
      s.refs x = 0 ∧ x ≠ .root ∧ x ≠ .devmount ∧ ∀ i, x = .pool i → i.val < s.dirNext) :
    (s.addEntry d name ino).2.EnteredOnce := by
  unfold State.addEntry
  split
  · exact h
  · have hcount : ∀ x, (s.setDir d (s.dirs d ++ [(name.take 63, ino)])).refs x =
        s.refs x + if (s.inodes ino).data = .dir x then 1 else 0 := by
      intro x
      have hset := refs_setDir s d (s.dirs d ++ [(name.take 63, ino)]) x
      rw [List.countP_append, List.countP_singleton] at hset
      simp only [decide_eq_true_eq] at hset
      omega
    have hother : ∀ x, s.refs x = 0 → (s.inodes ino).data ≠ .dir x →
        (s.setDir d (s.dirs d ++ [(name.take 63, ino)])).refs x = 0 := by
      intro x hx hne
      rw [hcount, hx, if_neg hne]
    refine ⟨h.next, fun _ _ he => h.alive_append hino he, ?_,
      hother _ h.root fun hx => (hdir _ hx).2.1 rfl,
      hother _ h.devmount fun hx => (hdir _ hx).2.2.1 rfl, ?_⟩
    · intro x
      refine (hcount x).trans_le ?_
      by_cases hx : (s.inodes ino).data = .dir x
      · rw [if_pos hx, (hdir x hx).1]
      · rw [if_neg hx, Nat.add_zero]
        exact h.once x
    · intro i hi
      exact hother _ (h.fresh i hi)
        fun hx => absurd ((hdir _ hx).2.2.2 i rfl) (Nat.not_lt.mpr hi)

end Counting

section Operations

variable {s s' : State} {d d' x : Dir} {e : Entry} {name name' : Name} {ino : Ino}

theorem removeEntry_spec {i : Nat} (hi : s.index d name = some i) :
    ∃ e, s.lookup d name = some e.2 ∧ (s.dirs d)[i]? = some e ∧
      (s.dirs d).Perm (e :: swapRemove (s.dirs d) i) ∧
      s.removeEntry d name = (true, s.setDir d (swapRemove (s.dirs d) i)) := by
  obtain ⟨hlt, -⟩ := List.findIdx?_eq_some_iff_getElem.mp hi
  have hget : (s.dirs d)[i]? = some (s.dirs d)[i] := List.getElem?_eq_getElem hlt
  refine ⟨(s.dirs d)[i], ?_, hget, swapRemove_perm hlt, ?_⟩
  · unfold State.lookup
    rw [hi]
    dsimp only
    rw [hget]
    rfl
  · unfold State.removeEntry
    rw [hi]

theorem EnteredOnce.removeEntry (h : s.EnteredOnce) (d : Dir) (name : Name) :
    (s.removeEntry d name).2.EnteredOnce := by
  cases hi : s.index d name with
  | none =>
    unfold State.removeEntry
    rw [hi]
    exact h
  | some i =>
    obtain ⟨e, -, -, hperm, hremove⟩ := removeEntry_spec hi
    rw [hremove]
    exact h.shrink (hperm.symm.subperm_left.mp ((List.sublist_cons_self _ _).subperm))

theorem EnteredOnce.alloc (h : s.EnteredOnce) (halloc : s.vfsAllocInode = some (ino, s')) :
    s'.EnteredOnce ∧ s'.dirs = s.dirs ∧ s'.dirNext = s.dirNext ∧ (s'.inodes ino).iNo ≠ 0 ∧
      (∀ x, s'.refs x = s.refs x) ∧ ∀ d, ∀ e ∈ s'.dirs d, e.2 ≠ ino := by
  unfold vfsAllocInode at halloc
  cases hfind : (List.finRange 256).find? (fun i => decide ((s.inodes i).iNo = 0)) with
  | none =>
    rw [hfind] at halloc
    cases halloc
  | some i =>
    rw [hfind] at halloc
    cases halloc
    have hzero : (s.inodes ino).iNo = 0 := by simpa using List.find?_some hfind
    have hunused : ∀ d, ∀ e ∈ s.dirs d, e.2 ≠ ino := by
      intro d e he heq
      exact h.alive d e he (heq ▸ hzero)
    have hentered : EnteredOnce { s with nextIno := s.nextIno + 1 } :=
      h.congr rfl rfl (Nat.succ_ne_zero _) (Nat.le_refl _)
    refine ⟨hentered.setInode hunused _, rfl, rfl, ?_, refs_setInode hunused _, hunused⟩
    rw [inodes_setInode]
    exact h.next

theorem alloc_data (halloc : s.vfsAllocInode = some (ino, s')) : (s'.inodes ino).data = .null := by
  unfold vfsAllocInode at halloc
  split at halloc
  · cases halloc
  · cases halloc
    rw [inodes_setInode]

theorem EnteredOnce.newEntry (h : s.EnteredOnce) {y : Inode}
    (hunused : ∀ d, ∀ e ∈ s.dirs d, e.2 ≠ ino) (hy : y.iNo ≠ 0) (hdata : ∀ x, y.data ≠ .dir x)
    (d : Dir) (name : Name) :
    ((s.setInode ino y).addEntry d name ino).2.EnteredOnce := by
  refine (h.setInode hunused y).addEntry d name (by rwa [inodes_setInode]) ?_
  intro x hx
  rw [inodes_setInode] at hx
  exact absurd hx (hdata x)

theorem EnteredOnce.mkdir (h : s.EnteredOnce) (d : Dir) (name : Name) :
    (s.mkdir d name).2.EnteredOnce := by
  unfold State.mkdir
  split
  · exact h
  · split
    · rename_i hlt
      have hempty : (State.setDir { s with dirNext := s.dirNext + 1 } (.pool ⟨s.dirNext, hlt⟩)
          []).EnteredOnce :=
        EnteredOnce.shrink (h.congr rfl rfl h.next (Nat.le_succ _)) (List.nil_subperm)
      have hnone : (State.setDir { s with dirNext := s.dirNext + 1 } (.pool ⟨s.dirNext, hlt⟩)
          []).refs (.pool ⟨s.dirNext, hlt⟩) = 0 :=
        Nat.le_zero.mp ((refs_shrink List.nil_subperm _).trans_eq (h.fresh _ (Nat.le_refl _)))
      dsimp only
      generalize hs1 : State.setDir { s with dirNext := s.dirNext + 1 } (.pool ⟨s.dirNext, hlt⟩)
        [] = s1 at *
      cases halloc : s1.vfsAllocInode with
      | none => exact hempty
      | some r =>
        obtain ⟨ino, s2⟩ := r
        obtain ⟨hentered, -, hdirNext, hno, hrefs, hunused⟩ := hempty.alloc halloc
        refine (hentered.setInode hunused _).addEntry d name ?_ ?_
        · rwa [inodes_setInode]
        · intro x hx
          rw [inodes_setInode] at hx
          cases hx
          refine ⟨(refs_setInode hunused _ _).trans ((hrefs _).trans hnone), by simp, by simp, ?_⟩
          rintro i ⟨⟩
          change s.dirNext < s2.dirNext
          rw [hdirNext, ← hs1]
          exact Nat.lt_succ_self _
    · exact h

theorem EnteredOnce.mknod (h : s.EnteredOnce) (d : Dir) (name : Name) (mode : BitVec 16)
    (dev : Nat) :
    (s.mknod d name mode dev).2.EnteredOnce := by
  unfold State.mknod
  split
  · exact h
  · cases halloc : s.vfsAllocInode with
    | none => exact h
    | some r =>
      obtain ⟨hentered, -, -, hno, -, hunused⟩ := h.alloc halloc
      dsimp only
      split
      · refine hentered.newEntry hunused ?_ ?_ d name
        · exact hno
        · intro x hx
          cases hx
      · exact hentered.setInode hunused _

theorem EnteredOnce.symlink (h : s.EnteredOnce) (d : Dir) (name target : Name) :
    (s.symlink d name target).2.EnteredOnce := by
  unfold State.symlink
  split
  · dsimp only
    rename_i hlt
    generalize hs1 : ({ s with
      targets := update s.targets ⟨s.symlinkNext, hlt⟩ (target.take 63) } : State) = s1
    have hentered1 : s1.EnteredOnce := by
      rw [← hs1]
      exact h.congr rfl rfl h.next (Nat.le_refl _)
    cases halloc : s1.vfsAllocInode with
    | none => exact hentered1
    | some r =>
      obtain ⟨ino, s'⟩ := r
      obtain ⟨hentered, -, -, hno, -, hunused⟩ := hentered1.alloc halloc
      have hentered' : EnteredOnce { s' with symlinkNext := s'.symlinkNext + 1 } :=
        hentered.congr rfl rfl hentered.next (Nat.le_refl _)
      refine hentered'.newEntry hunused ?_ ?_ d name
      · exact hno
      · intro x hx
        cases hx
  · exact h

theorem addEntry_cases (s : State) (d : Dir) (name : Name) (ino : Ino) :
    s.addEntry d name ino = (false, s) ∨
      s.addEntry d name ino = (true, s.setDir d (s.dirs d ++ [(name.take 63, ino)])) := by
  unfold State.addEntry
  split
  · exact Or.inl rfl
  · exact Or.inr rfl

theorem EnteredOnce.createFile (h : s.EnteredOnce) (d : Dir) (name : Name) (mode : BitVec 16) :
    (s.createFile d name mode).2.EnteredOnce := by
  unfold State.createFile
  cases halloc : s.vfsAllocInode with
  | none => exact h
  | some r =>
    obtain ⟨ino, s'⟩ := r
    obtain ⟨hentered, -, -, hno, -, hunused⟩ := h.alloc halloc
    have hnull : (s'.inodes ino).data = .null := alloc_data halloc
    dsimp only
    have hentry : ((s'.setInode ino { s'.inodes ino with
        iMode := 0o100000 ||| (mode &&& 0o7777) }).addEntry d name ino).2.EnteredOnce := by
      refine hentered.newEntry hunused ?_ ?_ d name
      · exact hno
      · intro x hx
        rw [hnull] at hx
        cases hx
    rcases addEntry_cases (s'.setInode ino { s'.inodes ino with
        iMode := 0o100000 ||| (mode &&& 0o7777) }) d name ino with hfalse | htrue
    · rw [hfalse]
      exact (hentered.setInode hunused _).setInode hunused _
    · rw [htrue] at hentry ⊢
      exact hentry

theorem index_addEntry {i : Nat} (hi : s.index d name = some i) (hget : (s.dirs d)[i]? = some e)
    (d' : Dir) (l : List Entry) :
    (s.setDir d' (s.dirs d' ++ l)).index d name = some i ∧
      ((s.setDir d' (s.dirs d' ++ l)).dirs d)[i]? = some e := by
  unfold State.index at hi ⊢
  by_cases hd : d = d'
  · subst hd
    rw [dirs_setDir, List.findIdx?_append, hi,
      List.getElem?_append_left (List.getElem?_eq_some_iff.mp hget).1]
    exact ⟨rfl, hget⟩
  · rw [dirs_setDir_of_ne hd]
    exact ⟨hi, hget⟩

variable (h : s.EnteredOnce)
include h

theorem EnteredOnce.rename (d : Dir) (name : Name) (d' : Dir) (name' : Name) :
    (s.rename d name d' name').2.EnteredOnce := by
  unfold State.rename
  cases hi : s.index d name with
  | none =>
    have hnone : s.lookup d name = none := by
      unfold State.lookup
      rw [hi]
    rw [hnone]
    exact h
  | some i =>
    obtain ⟨e, hlookup, hget, -, -⟩ := removeEntry_spec hi
    rw [hlookup]
    dsimp only
    rcases addEntry_cases s d' name' e.2 with hfalse | htrue
    · rw [hfalse]
      exact h
    · rw [htrue]
      dsimp only
      obtain ⟨hi', hget'⟩ := index_addEntry hi hget d' [(name'.take 63, e.2)]
      generalize hs1 : s.setDir d' (s.dirs d' ++ [(name'.take 63, e.2)]) = s1 at hi' hget'
      obtain ⟨e', -, hget1, hperm, hremove⟩ := removeEntry_spec hi'
      obtain rfl : e = e' := Option.some.inj (hget'.symm.trans hget1)
      rw [hremove]
      have hinodes : s1.inodes = s.inodes := by
        rw [← hs1]
        rfl
      -- one entry has come and one with the same inode has gone
      have hrefs : ∀ x, (s1.setDir d (swapRemove (s1.dirs d) i)).refs x = s.refs x := by
        intro x
        have hadded := refs_setDir s d' (s.dirs d' ++ [(name'.take 63, e.2)]) x
        have hremoved := refs_setDir s1 d (swapRemove (s1.dirs d) i) x
        rw [hs1, List.countP_append, List.countP_singleton] at hadded
        rw [hperm.countP_eq, List.countP_cons] at hremoved
        simp only [leads, hinodes] at hadded hremoved
        omega
      refine h.of_refs_le ?_ ?_ ?_ fun x => (hrefs x).le
      · rw [← hs1]
        exact h.next
      · rw [← hs1]
        exact Nat.le_refl _
      · have halive : ∀ d1, ∀ e1 ∈ s1.dirs d1, (s.inodes e1.2).iNo ≠ 0 := by
          intro d1 e1 he1
          rw [← hs1] at he1
          exact h.alive_append (h.alive d e (List.mem_of_getElem? hget)) he1
        intro d1 e1 he1
        change (s1.inodes e1.2).iNo ≠ 0
        rw [hinodes]
        rcases mem_setDir he1 with ⟨rfl, hl⟩ | hold
        · exact halive d1 e1 (hperm.symm.subset (List.mem_cons_of_mem _ hl))
        · exact halive d1 e1 hold

theorem EnteredOnce.rmdir (d : Dir) (name : Name) (garbage : Bool) :
    (s.rmdir d name garbage).2.EnteredOnce := by
  unfold State.rmdir
  split
  · exact h
  · split
    · exact h
    · exact h.removeEntry d name

/-- The loop body of `populate_dir` changes one directory. -/
theorem EnteredOnce.populate (d : Dir) (x : Device × Nat) :
    (populate d s x).EnteredOnce ∧ ∀ d', d' ≠ d → (populate d s x).dirs d' = s.dirs d' := by
  unfold State.populate
  cases halloc : s.vfsAllocInode with
  | none => exact ⟨h, fun _ _ => rfl⟩
  | some r =>
    obtain ⟨ino, s'⟩ := r
    obtain ⟨hentered, hdirs, -, hno, -, hunused⟩ := h.alloc halloc
    dsimp only
    refine ⟨hentered.newEntry hunused ?_ ?_ d x.1.name, ?_⟩
    · exact hno
    · intro y hy
      unfold deviceInode at hy
      dsimp only at hy
      split at hy
      · cases hy
      · cases hy
    · intro d' hd'
      rcases addEntry_cases (s'.setInode ino (deviceInode x.2 x.1 (s'.inodes ino))) d
        x.1.name ino with hfalse | htrue
      · rw [hfalse]
        exact congrFun hdirs d'
      · rw [htrue]
        exact (update_of_ne hd' _ _).trans (congrFun hdirs d')

theorem EnteredOnce.populateDir (d : Dir) :
    (s.populateDir d).EnteredOnce ∧ ∀ d', d' ≠ d → (s.populateDir d).dirs d' = s.dirs d' := by
  unfold State.populateDir
  generalize s.devices.zipIdx = l
  induction l generalizing s with
  | nil => exact ⟨h, fun _ _ => rfl⟩
  | cons x l ih =>
    obtain ⟨hone, hrest⟩ := h.populate d x
    obtain ⟨hentered, hdirs⟩ := ih hone
    exact ⟨hentered, fun d' hd' => (hdirs d' hd').trans (hrest d' hd')⟩

/-- The mounted directory before `populate_dir` -/
theorem EnteredOnce.emptyMount (halloc : s.vfsAllocInode = some (ino, s')) (y : Inode) :
    ((s'.setDir .devmount []).setInode ino y).EnteredOnce := by
  obtain ⟨hentered, -, -, -, -, hunused⟩ := h.alloc halloc
  refine EnteredOnce.setInode (hentered.shrink List.nil_subperm) ?_ y
  intro d e he
  rcases mem_setDir he with ⟨-, hnil⟩ | hold
  · cases hnil
  · exact hunused d e hold

theorem EnteredOnce.createMount :
    s.createMount.2.EnteredOnce ∧ ∀ d, d ≠ .devmount → s.createMount.2.dirs d = s.dirs d := by
  unfold State.createMount
  cases halloc : s.vfsAllocInode with
  | none => exact ⟨h, fun _ _ => rfl⟩
  | some r =>
    obtain ⟨ino, s'⟩ := r
    have hdirs := (h.alloc halloc).2.1
    obtain ⟨hpop, hframe⟩ := (h.emptyMount halloc { s'.inodes ino with
      iType := .dir, iMode := dirMode, data := .dir .devmount }).populateDir .devmount
    refine ⟨hpop, fun d hd => (hframe d hd).trans ?_⟩
    exact (update_of_ne hd _ _).trans (congrFun hdirs d)

theorem EnteredOnce.apart {r r' : Dir} (hr : s.refs r = 0) (hr' : s.refs r' = 0)
    (hne : r ≠ r') (hd : s.Under r d) : ¬ s.Under r' d := by
  induction hd with
  | root =>
    intro hr''
    cases hr'' with
    | root => exact hne rfl
    | entry _ he hx => exact absurd hr (Nat.ne_of_gt (refs_pos he hx))
  | @entry d1 x e1 hd1 he1 hx1 ih =>
    intro hunder
    cases hunder with
    | root => exact absurd hr' (Nat.ne_of_gt (refs_pos he1 hx1))
    | @entry d2 _ e2 hd2 he2 hx2 =>
      refine ih ?_
      by_contra hout
      have hdiff : d1 ≠ d2 := fun heq => hout (heq ▸ hd2)
      -- two directories with an entry that leads there
      have hone := h.once x
      have hcount := refs_setDir s d1 [] x
      have hleft : 0 < (s.dirs d1).countP (s.leads x) :=
        List.countP_pos_iff.mpr ⟨e1, he1, by simp [hx1]⟩
      have hright : 0 < (s.setDir d1 []).refs x := by
        refine refs_pos (d := d2) (e := e2) ?_ hx2
        rwa [dirs_setDir_of_ne hdiff.symm]
      rw [List.countP_nil] at hcount
      omega

end Operations

end State

/-- The operations through the VFS, registration and mounting. -/
inductive Op where
  | create (d : Dir) (name : Name) (mode : BitVec 16)
  | mkdir (d : Dir) (name : Name)
  | mknod (d : Dir) (name : Name) (mode : BitVec 16) (dev : Nat)
  | symlink (d : Dir) (name target : Name)
  | unlink (d : Dir) (name : Name)
  | rmdir (d : Dir) (name : Name) (garbage : Bool)
  | rename (d : Dir) (name : Name) (d' : Dir) (name' : Name)
  | register (dev : Device)
  | createMount

def Op.run (s : State) : Op → State
  | .create d name mode => (s.createFile d name mode).2
  | .mkdir d name => (s.mkdir d name).2
  | .mknod d name mode dev => (s.mknod d name mode dev).2
  | .symlink d name target => (s.symlink d name target).2
  | .unlink d name => (s.unlink d name).2
  | .rmdir d name garbage => (s.rmdir d name garbage).2
  | .rename d name d' name' => (s.rename d name d' name').2
  | .register dev => s.register dev
  | .createMount => s.createMount.2

/-- The state, and the directories behind the roots of the instances, in the order of their
creation. -/
structure History where
  fs : State
  roots : List Dir

def History.step (h : History) (op : Op) : History where
  fs := op.run h.fs
  roots :=
    match op with
    | .createMount => if h.fs.createMount.1.isSome then h.roots ++ [.devmount] else h.roots
    | _ => h.roots

/-- Adding or removing an entry under one instance changes nothing under another. -/
def Independent (h : History) : Prop :=
  ∀ (i j : Nat) (r r' : Dir), i ≠ j → h.roots[i]? = some r → h.roots[j]? = some r' →
    ∀ d d', h.fs.Under r d → h.fs.Under r' d' →
      (∀ name ino, (h.fs.addEntry d name ino).2.dirs d' = h.fs.dirs d') ∧
        ∀ name, (h.fs.removeEntry d name).2.dirs d' = h.fs.dirs d'

/-- A mount leaves the entries of the directories that exist, and the instances stay
independent. -/
structure Frames (h : History) (op : Op) : Prop where
  mount : op = .createMount → ∀ d, d ≠ .devmount ∨ .devmount ∈ h.roots →
    (h.step op).fs.dirs d = h.fs.dirs d
  independent : Independent (h.step op)

/-- `devtmpfs_create_mount` is called once, or the next time there is no free inode. -/
def MountsOnce (h : History) (op : Op) : Prop :=
  op = .createMount → .devmount ∈ h.roots → h.fs.vfsAllocInode = none

structure Sound (h : History) : Prop where
  entered : h.fs.EnteredOnce
  nodup : h.roots.Nodup
  roots : ∀ r ∈ h.roots, r = .root ∨ r = .devmount

section Runs

variable {h : History} {op : Op}

theorem createMount_none {s : State} (halloc : s.vfsAllocInode = none) :
    s.createMount = (none, s) := by
  unfold State.createMount
  rw [halloc]

theorem Sound.step (hs : Sound h) (hop : MountsOnce h op) : Sound (h.step op) := by
  have hentered := hs.entered
  cases op with
  | create d name mode => exact ⟨hentered.createFile d name mode, hs.nodup, hs.roots⟩
  | mkdir d name => exact ⟨hentered.mkdir d name, hs.nodup, hs.roots⟩
  | mknod d name mode dev => exact ⟨hentered.mknod d name mode dev, hs.nodup, hs.roots⟩
  | symlink d name target => exact ⟨hentered.symlink d name target, hs.nodup, hs.roots⟩
  | unlink d name => exact ⟨hentered.removeEntry d name, hs.nodup, hs.roots⟩
  | rmdir d name garbage => exact ⟨hentered.rmdir d name garbage, hs.nodup, hs.roots⟩
  | rename d name d' name' => exact ⟨hentered.rename d name d' name', hs.nodup, hs.roots⟩
  | register dev =>
    refine ⟨?_, hs.nodup, hs.roots⟩
    unfold History.step Op.run State.register
    dsimp only
    split
    · exact hentered
    · exact hentered.congr rfl rfl hentered.next (Nat.le_refl _)
  | createMount =>
    unfold History.step
    dsimp only
    split
    · rename_i hsome
      have hnew : Dir.devmount ∉ h.roots := by
        intro hmem
        rw [createMount_none (hop rfl hmem)] at hsome
        cases hsome
      refine ⟨hentered.createMount.1, List.nodup_append.mpr ⟨hs.nodup, List.nodup_singleton _, ?_⟩,
        ?_⟩
      · intro r hr r' hr' heq
        exact hnew (List.mem_singleton.mp hr' ▸ heq ▸ hr)
      · intro r hr
        rcases List.mem_append.mp hr with hr | hr
        · exact hs.roots r hr
        · exact Or.inr (List.mem_singleton.mp hr)
    · exact ⟨hentered.createMount.1, hs.nodup, hs.roots⟩

theorem Sound.independent (hs : Sound h) : Independent h := by
  have hfree : ∀ r ∈ h.roots, h.fs.refs r = 0 := by
    intro r hr
    rcases hs.roots r hr with rfl | rfl
    · exact hs.entered.root
    · exact hs.entered.devmount
  intro i j r r' hij hi hj d d' hd hd'
  have hne : r ≠ r' := by
    rintro rfl
    have hlt := (List.getElem?_eq_some_iff.mp hi).1
    exact hij ((List.getElem?_inj hlt hs.nodup).mp (hi.trans hj.symm))
  have hdd : d' ≠ d := by
    rintro rfl
    exact hs.entered.apart (hfree r (List.mem_of_getElem? hi)) (hfree r' (List.mem_of_getElem? hj))
      hne hd hd'
  refine ⟨fun name ino => ?_, fun name => ?_⟩
  · rcases State.addEntry_cases h.fs d name ino with heq | heq
    · rw [heq]
    · rw [heq]
      exact update_of_ne hdd _ _
  · unfold State.removeEntry
    split
    · rfl
    · exact update_of_ne hdd _ _

/-- The same directory behind two roots: what is added under one shows under the other. -/
theorem not_independent {i j : Nat} {r : Dir} (hij : i ≠ j) (hi : h.roots[i]? = some r)
    (hj : h.roots[j]? = some r) : ¬ Independent h := by
  intro hind
  obtain ⟨hadd, hremove⟩ := hind i j r r hij hi hj r r .root .root
  rcases State.addEntry_cases h.fs r [] 0 with hfull | hok
  · cases hentries : h.fs.dirs r with
    | nil =>
      unfold State.addEntry at hfull
      rw [hentries] at hfull
      cases hfull
    | cons e l =>
      have hindex : h.fs.index r e.1 = some 0 := by
        unfold State.index
        rw [hentries, List.findIdx?_cons]
        simp
      obtain ⟨_, -, -, hperm, heq⟩ := State.removeEntry_spec hindex
      have hsame := hremove e.1
      rw [heq, State.dirs_setDir] at hsame
      have hlen := hperm.length_eq
      rw [hsame, List.length_cons] at hlen
      omega
  · have hsame := congrArg List.length (hadd [] 0)
    rw [hok, State.dirs_setDir, List.length_append, List.length_singleton] at hsame
    omega

theorem Sound.frames_iff (hs : Sound h) : Frames h op ↔ MountsOnce h op := by
  constructor
  · rintro hframes rfl hmem
    by_contra halloc
    have hsome : h.fs.createMount.1 ≠ none := by
      obtain ⟨x, hx⟩ := Option.ne_none_iff_exists'.mp halloc
      unfold State.createMount
      rw [hx]
      exact Option.some_ne_none _
    obtain ⟨i, hi⟩ := List.mem_iff_getElem?.mp hmem
    have hlt := (List.getElem?_eq_some_iff.mp hi).1
    have hroots : (h.step .createMount).roots = h.roots ++ [.devmount] :=
      if_pos (Option.isSome_iff_ne_none.mpr hsome)
    refine not_independent (r := .devmount) (Nat.ne_of_lt hlt) ?_ ?_ hframes.independent
    · rw [hroots, List.getElem?_append_left hlt]
      exact hi
    · rw [hroots]
      simp
  · intro hop
    refine ⟨?_, (hs.step hop).independent⟩
    rintro rfl d hd
    by_cases hdev : d = .devmount
    · have hsame := createMount_none (hop rfl (hd.resolve_left fun hne => hne hdev))
      exact congrFun (congrArg (fun out => out.2.dirs) hsame) d
    · exact hs.entered.createMount.2 d hdev

/-- In a run, mounts leave what exists and instances stay independent exactly as long as
`devtmpfs_create_mount` succeeds no second time. -/
theorem instances_apart_iff (hs : Sound h) (ops : List Op) :
    Run.Allowed History.step Frames h ops ↔ Run.Allowed History.step MountsOnce h ops := by
  have hvalid : Run.Allowed History.step (fun _ _ => True) h ops := by
    clear hs
    induction ops generalizing h with
    | nil => trivial
    | cons op ops ih => exact ⟨trivial, ih⟩
  refine hvalid.congr (I := Sound) hs ?_ ?_
  · intro h op _ hframes hs
    exact hs.step (hs.frames_iff.mp hframes)
  · intro h op _ hs
    exact hs.frames_iff

/-- Whatever is made, moved, removed or mounted, at most one entry leads to a directory and none to
a root, and no directory is under both roots. -/
theorem directories_entered_once {s : State} (hs : s.EnteredOnce) (ops : List Op) (d : Dir) :
    (ops.foldl Op.run s).EnteredOnce ∧
      ¬ ((ops.foldl Op.run s).Under .root d ∧ (ops.foldl Op.run s).Under .devmount d) := by
  have hend : (ops.foldl Op.run s).EnteredOnce := by
    induction ops generalizing s with
    | nil => exact hs
    | cons op ops ih =>
      -- without roots every mount is the first
      have hstep : Sound (History.step ⟨s, []⟩ op) :=
        Sound.step ⟨hs, List.nodup_nil, by simp⟩ fun _ hmem => absurd hmem List.not_mem_nil
      exact ih hstep.entered
  exact ⟨hend, fun hd => hend.apart hend.root hend.devmount (by decide) hd.1 hd.2⟩

end Runs

/-- Only the root directory is in use, and nothing is registered. -/
def bareRoot : History where
  fs :=
    { inodes := fun i => ⟨if i = 0 then 1 else 0, .dir, dirMode, 0, 0, .dir .root⟩
      nextIno := 2
      dirs := fun _ => []
      dirNext := 0
      targets := fun _ => []
      symlinkNext := 0
      devices := [] }
  roots := [.root]

theorem bareRoot_sound : Sound bareRoot := by
  have hrefs : ∀ x, bareRoot.fs.refs x = 0 := fun x => Finset.sum_eq_zero fun _ _ => rfl
  exact ⟨⟨by decide, fun _ _ he => (by cases he), fun x => (hrefs x).trans_le (Nat.zero_le 1),
    hrefs _, hrefs _, fun i _ => hrefs _⟩, List.nodup_singleton _,
    fun r hr => Or.inl (List.mem_singleton.mp hr)⟩

/-- Two mounts. -/
theorem directories_entered_once_mounted :
    ([Op.createMount, .createMount].foldl Op.run bareRoot.fs).EnteredOnce :=
  (directories_entered_once bareRoot_sound.entered _ .root).1

/-- One mount, and a directory in each of the two instances. -/
theorem instances_apart_iff_once :
    Run.Allowed History.step Frames bareRoot
      [.createMount, .mkdir .devmount [0x61#8], .mkdir .root [0x62#8]] :=
  (instances_apart_iff bareRoot_sound _).mpr
    ⟨fun _ hmem => absurd hmem (by decide), fun heq => (by cases heq), fun heq => (by cases heq),
      trivial⟩

/-- A mounted instance with one file. -/
def mountedFile : History :=
  [Op.createMount, .create .devmount [0x61#8] 0o644].foldl History.step bareRoot

/-- The second mount takes the file away. -/
theorem second_mount_empties :
    .devmount ∈ mountedFile.roots ∧ mountedFile.fs.dirs .devmount = [([0x61#8], 2)] ∧
      (mountedFile.step .createMount).fs.dirs .devmount = [] ∧
      ¬ Frames mountedFile .createMount := by
  have hbefore : mountedFile.fs.dirs .devmount = [([0x61#8], 2)] := by decide +kernel
  have hafter : (mountedFile.step .createMount).fs.dirs .devmount = [] := by decide +kernel
  have hmem : .devmount ∈ mountedFile.roots := by decide +kernel
  refine ⟨hmem, hbefore, hafter, fun hframes => ?_⟩
  have hsame := hframes.mount rfl .devmount (Or.inr hmem)
  cases hsame

end Devtmpfs
end Homunculos
