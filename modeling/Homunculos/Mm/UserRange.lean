import Homunculos.Mm.UserMap

/-!
# Walks over pages of the user half

The loops of the memory calls as edits of the caller's address space.  A page
of a walk is either a user page, or the step at that page has no effect; the
second case is how the calls meet pages of the kernel half.
-/

namespace Homunculos
namespace Mm

/-- The page of index `i` of a walk from `va`. -/
def pageNo (va i : Nat) : Nat :=
  pageAddr va i / 4096

/-- Page `m` is among the first `n` pages of a walk from `va`. -/
def InRange (va n m : Nat) : Prop :=
  ∃ k, k < n ∧ pageNo va k = m

theorem pageAddr_lt (va i : Nat) :
    pageAddr va i < 2 ^ 32 :=
  Nat.mod_lt _ (by decide)

theorem pageAddr_of_le {va n k : Nat} (h : va + n * 4096 ≤ 2 ^ 32) (hk : k < n) :
    pageAddr va k = va + k * 4096 :=
  Nat.mod_eq_of_lt (by omega)

theorem walk_le_of_succ {va n : Nat} (h : va + (n + 1) * 4096 ≤ 2 ^ 32) :
    va + n * 4096 ≤ 2 ^ 32 := by
  refine le_trans ?_ h
  exact Nat.add_le_add_left
    (Nat.mul_le_mul_right _ (Nat.le_succ n)) va

theorem pageNo_of_le {va n k : Nat} (h : va + n * 4096 ≤ 2 ^ 32) (hk : k < n) :
    pageNo va k = va / 4096 + k := by
  unfold pageNo
  rw [pageAddr_of_le h hk]
  omega

theorem inRange_zero (va m : Nat) :
    ¬ InRange va 0 m := by
  rintro ⟨k, hk, _⟩
  omega

theorem inRange_succ (va n m : Nat) :
    InRange va (n + 1) m ↔ InRange va n m ∨ m = pageNo va n := by
  constructor
  · rintro ⟨k, hk, rfl⟩
    rcases Nat.lt_succ_iff_lt_or_eq.mp hk with hk | rfl
    · exact Or.inl ⟨k, hk, rfl⟩
    · exact Or.inr rfl
  · rintro (⟨k, hk, rfl⟩ | rfl)
    · exact ⟨k, by omega, rfl⟩
    · exact ⟨n, by omega, rfl⟩

theorem inRange_iff {va n : Nat} (h : va + n * 4096 ≤ 2 ^ 32) (m : Nat) :
    InRange va n m ↔ va / 4096 ≤ m ∧ m < va / 4096 + n := by
  constructor
  · rintro ⟨k, hk, rfl⟩
    rw [pageNo_of_le h hk]
    omega
  · rintro ⟨hlo, hhi⟩
    refine ⟨m - va / 4096, by omega, ?_⟩
    rw [pageNo_of_le h (by omega)]
    omega

/-- The range of `sys_munmap` and `sys_mprotect` does not wrap around. -/
theorem range_walk_le (addr length : BitVec 32) :
    pageDown addr.toNat +
      (rangeEnd addr length - pageDown addr.toNat) / 4096 * 4096 ≤
        2 ^ 32 := by
  have hdown := pageDown_lt addr
  have hup := pageUp_le (addr.toNat + length.toNat)
  unfold rangeEnd
  omega

/-- The first `n` pages of a walk from `va`. -/
def walkPages (va n : Nat) : List Nat :=
  (List.range n).map (pageNo va)

theorem mem_walkPages {va n m : Nat} :
    m ∈ walkPages va n ↔ InRange va n m := by
  simp [walkPages, InRange]

theorem walkPages_succ (va n : Nat) :
    walkPages va (n + 1) = walkPages va n ++ [pageNo va n] := by
  simp [walkPages, List.range_succ]

theorem take_walkPages (va : Nat) {k n : Nat} (h : k ≤ n) :
    (walkPages va n).take k = walkPages va k := by
  rw [walkPages, ← List.map_take, List.take_range, Nat.min_eq_left h]
  rfl

theorem walkPages_isPrefix (va : Nat) {k n : Nat} (h : k ≤ n) :
    walkPages va k <+: walkPages va n :=
  take_walkPages va h ▸ List.take_prefix k _

/-- The frames that mapping these pages takes: one for each of them, and one for each table
that is not there. -/
def framesFor (s : State) (d : Nat) (pages : List Nat) : Nat :=
  pages.length +
    ((pages.map (· / 1024)).toFinset.filter (fun i => present (s.mem d i) = false)).card

section Frames

variable {s s' : State} {d m : Nat} {pages : List Nat}

/-- The pages of a list one after the other, when `s'` has the tables of the first ones. -/
theorem framesFor_append
    (htables : ∀ i, present (s'.mem d i) = true ↔
      present (s.mem d i) = true ∨ i ∈ pages.map (· / 1024)) (more : List Nat) :
    framesFor s d (pages ++ more) = framesFor s d pages + framesFor s' d more := by
  have hsplit : ((pages ++ more).map (· / 1024)).toFinset.filter
        (fun i => present (s.mem d i) = false) =
      (pages.map (· / 1024)).toFinset.filter (fun i => present (s.mem d i) = false) ∪
        (more.map (· / 1024)).toFinset.filter (fun i => present (s'.mem d i) = false) := by
    ext i
    have hi := htables i
    simp only [← Bool.not_eq_true, Finset.mem_filter, Finset.mem_union, List.mem_toFinset,
      List.map_append, List.mem_append] at hi ⊢
    tauto
  have hapart : Disjoint
      ((pages.map (· / 1024)).toFinset.filter (fun i => present (s.mem d i) = false))
      ((more.map (· / 1024)).toFinset.filter (fun i => present (s'.mem d i) = false)) := by
    rw [Finset.disjoint_left]
    intro i hold hnew
    have hpresent := (htables i).mpr (Or.inr (List.mem_toFinset.mp (Finset.mem_filter.mp hold).1))
    rw [(Finset.mem_filter.mp hnew).2] at hpresent
    cases hpresent
  unfold framesFor
  rw [hsplit, Finset.card_union_of_disjoint hapart, List.length_append]
  omega

theorem framesFor_singleton (s : State) (d m : Nat) :
    framesFor s d [m] = pageCost s d (m / 1024) := by
  unfold framesFor pageCost
  by_cases hpresent : present (s.mem d (m / 1024)) = true
  · simp [hpresent, Finset.filter_singleton]
  · simp [hpresent, Finset.filter_singleton]

theorem framesFor_le (s : State) (d : Nat) (pages : List Nat) :
    framesFor s d pages ≤ 2 * pages.length := by
  have hcard := (Finset.card_filter_le (pages.map (· / 1024)).toFinset
    (fun i => present (s.mem d i) = false)).trans (List.toFinset_card_le _)
  rw [List.length_map] at hcard
  unfold framesFor
  omega

theorem framesFor_mono {more : List Nat} (hpages : pages <+: more) :
    framesFor s d pages ≤ framesFor s d more := by
  have htables : (pages.map (· / 1024)).toFinset ⊆ (more.map (· / 1024)).toFinset := by
    intro i hi
    rw [List.mem_toFinset] at hi ⊢
    exact List.map_subset _ hpages.subset hi
  have hcard := Finset.card_le_card
    (Finset.filter_subset_filter (fun i => present (s.mem d i) = false) htables)
  have hlen := hpages.length_le
  unfold framesFor
  omega

end Frames

/-- Why `mm_alloc_at` fails at a page: it is no user page, it is present, or the frames that
are left do not suffice. -/
def Refused (s : State) (d m : Nat) : Prop :=
  UserPage m → Shown s d m ∨ freeFrames s < pageCost s d (m / 1024)

section Walks

variable {kernel : Nat → Prop} {dirs : List Nat} {d va : Nat} {s s' : State} {flags : BitVec 32}

/-- Page `k` of a walk is a user page, or `mm_alloc_at` refuses it. -/
def Walkable (kernel : Nat → Prop) (dirs : List Nat) (d : Nat) (flags : BitVec 32) (s : State)
    (va k : Nat) : Prop :=
  UserPage (pageNo va k) ∨
    (¬ UserPage (pageNo va k) ∧
      ∀ s' new, UserEdit kernel dirs d s s' new →
        (mmAllocAt s' d (pageAddr va k) flags).1 = 0 ∧
          SameUse s' (mmAllocAt s' d (pageAddr va k) flags).2)

theorem SameUse.freeFrames_eq (h : SameUse s s') :
    freeFrames s' = freeFrames s := by
  unfold freeFrames
  rw [show bitmapTest s' = bitmapTest s from funext h.used]

theorem SameUse.refused {m : Nat} (h : SameUse s s') (ho : Owned kernel s dirs) (hd : d ∈ dirs)
    (hwhy : Refused s d m) :
    Refused s' d m := by
  intro huser
  have hshown := ((h.userEdit ho hd).shown m huser)
  rw [hshown, h.freeFrames_eq, pageCost, h.mem d (ho.dirUsed d hd)]
  exact hwhy huser

/-- The state after `n` pages of a walk were mapped. -/
structure Filled
    (kernel : Nat → Prop) (dirs : List Nat) (d va : Nat) (flags : BitVec 32) (s s' : State)
    (n : Nat) : Prop where
  edit : UserEdit kernel dirs d s s'
    (fun m => (InRange va n m ∧ present flags = true) ∨ (¬ InRange va n m ∧ Shown s d m))
  user : ∀ k, k < n → UserPage (pageNo va k)
  was : ∀ m, InRange va n m → ¬ Shown s d m
  frames : freeFrames s = freeFrames s' + framesFor s d (walkPages va n)
  tables : ∀ i, present (s'.mem d i) = true ↔
    present (s.mem d i) = true ∨ i ∈ (walkPages va n).map (· / 1024)

theorem Owned.filled_zero (ho : Owned kernel s dirs) :
    Filled kernel dirs d va flags s s 0 := by
  refine ⟨ho.userEdit_refl.congr ?_, ?_, ?_, by simp [walkPages, framesFor],
    fun i => by simp [walkPages]⟩
  · intro m _
    have hno := inRange_zero va m
    simp [hno]
  · intro k hk
    omega
  · intro m hm
    exact absurd hm (inRange_zero va m)

theorem Filled.step
    {n p : Nat} {s1 : State} (h : Filled kernel dirs d va flags s s' n) (hd : d ∈ dirs)
    (hflags : flags.toNat < 4096) (huser : UserPage (pageNo va n))
    (hmap : Mapped kernel s' s1 dirs d (pageNo va n / 1024) (pageNo va n % 1024) p flags) :
    Filled kernel dirs d va flags s s1 (n + 1) := by
  have habs : ¬ Shown s' d (pageNo va n) := by
    intro hshown
    have hwas := hmap.was
    unfold Shown pageSlot at hshown
    rw [hwas] at hshown
    cases hshown
  have hold : ¬ Shown s d (pageNo va n) := by
    intro hshown
    by_cases hin : InRange va n (pageNo va n)
    · exact h.was _ hin hshown
    · exact habs ((h.edit.shown _ huser).mpr (Or.inr ⟨hin, hshown⟩))
  refine ⟨(h.edit.trans (hmap.userEdit h.edit.owned hd hflags)).congr ?_, ?_, ?_, ?_, ?_⟩
  · intro m hm
    rw [inRange_succ, h.edit.shown m hm]
    by_cases hmn : m = pageNo va n
    · simp [hmn]
    · simp [hmn]
  · intro k hk
    rcases Nat.lt_succ_iff_lt_or_eq.mp hk with hk | rfl
    · exact h.user k hk
    · exact huser
  · intro m hm
    rcases (inRange_succ va n m).mp hm with hm | rfl
    · exact h.was m hm
    · exact hold
  · rw [walkPages_succ, framesFor_append h.tables, framesFor_singleton, h.frames, hmap.left]
    omega
  · intro i
    rw [hmap.tables, h.tables, walkPages_succ, List.map_append, List.mem_append, or_comm, or_assoc,
      List.map_singleton, List.mem_singleton]

section Loop

variable (ho : Owned kernel s dirs) (hd : d ∈ dirs) (hflags : flags.toNat < 4096) (n : Nat)
variable (hpage : ∀ k, k < n → Walkable kernel dirs d flags s va k)
include ho hd hflags hpage

/-- The mapping loop maps all pages or stops at one. Each page is a user page or one that
`mm_alloc_at` refuses. -/
theorem allocRange_spec :
    (∃ s', allocRange s d va flags n = .ok s' ∧ Filled kernel dirs d va flags s s' n) ∨
      ∃ i s1 s', i < n ∧ allocRange s d va flags n = .error (i, s') ∧
        Filled kernel dirs d va flags s s1 i ∧
        SameUse s1 s' ∧ Refused s1 d (pageNo va i) := by
  induction n with
  | zero => exact Or.inl ⟨s, rfl, ho.filled_zero⟩
  | succ n ih =>
    rcases ih (fun k hk => hpage k (by omega)) with
      ⟨s', hs', hfill⟩ | ⟨i, s1, s', hi, he, hrest⟩
    · have hout : (mmAllocAt s' d (pageAddr va n) flags).1 = 0 →
          allocRange s d va flags (n + 1) =
            .error (n, (mmAllocAt s' d (pageAddr va n) flags).2) := by
        intro hzero
        simp [allocRange, hs', hzero]
      rcases hpage n (by omega) with huser | hrefuse
      · have hlo : 4 ≤ pdIdx (pageAddr va n) := by
          rw [pdIdx_eq]
          exact huser.pd.1
        rcases mmAllocAt_spec hfill.edit.owned hd hlo
            (pageAddr_lt va n) hflags with
          ⟨hzero, hsame, hwhy⟩ | ⟨hva, p, hmap⟩
        · rw [pdIdx_eq] at hwhy
          exact Or.inr ⟨n, s', _, by omega, hout hzero, hfill, hsame,
            fun _ => hwhy⟩
        · have hnz : (mmAllocAt s' d (pageAddr va n) flags).1 ≠ 0 := by
            intro hz
            have := huser.1
            unfold pageNo at this
            omega
          rw [pdIdx_eq] at hmap
          left
          refine ⟨_, ?_, hfill.step hd hflags huser hmap⟩
          simp [allocRange, hs', hnz]
      · obtain ⟨hzero, hsame⟩ := hrefuse.2 s' _ hfill.edit
        exact Or.inr ⟨n, s', _, by omega, hout hzero, hfill, hsame,
          fun huser => absurd huser hrefuse.1⟩
    · right
      refine ⟨i, s1, s', by omega, ?_, hrest⟩
      simp [allocRange, he]

theorem allocRange_error_zero (herror : allocRange s d va flags n = .error (0, s')) :
    SameUse s s' := by
  induction n with
  | zero => cases herror
  | succ n ih =>
    rw [allocRange] at herror
    cases hfirst : allocRange s d va flags n with
    | error e =>
      rw [hfirst] at herror
      cases herror
      exact ih (fun k hk => hpage k (by omega)) hfirst
    | ok s1 =>
      rw [hfirst] at herror
      dsimp only at herror
      split at herror
      · obtain ⟨rfl, rfl⟩ := herror
        cases hfirst
        rcases hpage 0 (by omega) with huser | hrefuse
        · have hlo : 4 ≤ pdIdx (pageAddr va 0) := by
            rw [pdIdx_eq]
            exact huser.pd.1
          rcases mmAllocAt_spec ho hd hlo (pageAddr_lt va 0) hflags with
            ⟨_, hsame, _⟩ | ⟨hva, _⟩
          · exact hsame
          · have hlow := huser.1
            unfold pageNo at hlow
            omega
        · exact (hrefuse.2 s _ ho.userEdit_refl).2
      · cases herror

end Loop

/-- A walk stops at a user page that was absent because the frames do not suffice for it. -/
theorem Filled.few {n : Nat} (h : Filled kernel dirs d va flags s s' n)
    (hwhy : Refused s' d (pageNo va n)) (huser : UserPage (pageNo va n))
    (hnew : ¬ InRange va n (pageNo va n)) (hold : ¬ Shown s d (pageNo va n)) :
    freeFrames s < framesFor s d (walkPages va (n + 1)) := by
  have hframes := h.frames
  rw [walkPages_succ, framesFor_append h.tables, framesFor_singleton]
  rcases hwhy huser with hshown | hfew
  · rcases (h.edit.shown _ huser).mp hshown with ⟨hin, _⟩ | ⟨_, hshown⟩
    · exact absurd hin hnew
    · exact absurd hshown hold
  · omega

theorem Filled.edit_failed {n : Nat} {s1 : State} (h : Filled kernel dirs d va tableFlags s s1 n)
    (hsame : SameUse s1 s') (hd : d ∈ dirs) :
    UserEdit kernel dirs d s s'
      (fun m => InRange va n m ∨ (¬ InRange va n m ∧ Shown s d m)) := by
  refine (h.edit.trans (hsame.userEdit h.edit.owned hd)).congr ?_
  intro m hm
  rw [h.edit.shown m hm]
  simp

theorem undoRange_spec (ho : Owned kernel s dirs) (hd : d ∈ dirs) (n : Nat)
    (huser : ∀ k, k < n → UserPage (pageNo va k)) :
    UserEdit kernel dirs d s (undoRange s d va n)
      (fun m => ¬ InRange va n m ∧ Shown s d m) := by
  induction n with
  | zero =>
    refine ho.userEdit_refl.congr ?_
    intro m _
    have hno := inRange_zero va m
    simp [hno]
  | succ n ih =>
    have hprev := ih (fun k hk => huser k (by omega))
    refine (hprev.trans (userEdit_mmUnmapAt hprev.owned hd
      (huser n (by omega)) (pageAddr_lt va n))).congr ?_
    intro m hm
    rw [inRange_succ, hprev.shown m hm]
    tauto

theorem Filled.undo {n : Nat} (h : Filled kernel dirs d va flags s s' n) (hd : d ∈ dirs) :
    UserEdit kernel dirs d s (undoRange s' d va n) (Shown s d) := by
  refine (h.edit.trans (undoRange_spec h.edit.owned hd n h.user)).congr ?_
  intro m hm
  have hwas := h.was m
  rw [h.edit.shown m hm]
  tauto

theorem Filled.undo_failed
    {n : Nat} {s1 : State} (h : Filled kernel dirs d va flags s s1 n) (hsame : SameUse s1 s')
    (hd : d ∈ dirs) :
    UserEdit kernel dirs d s (undoRange s' d va n) (Shown s d) := by
  have hedit := hsame.userEdit h.edit.owned hd
  refine (h.edit.trans (hedit.trans (undoRange_spec hedit.owned hd n h.user))).congr ?_
  intro m hm
  have hwas := h.was m
  rw [hedit.shown m hm, h.edit.shown m hm]
  tauto

/-- The test in the loop of `sys_munmap` repeats one of `mm_unmap_at`. -/
theorem munmapRange_eq_undoRange {n : Nat} (hle : va + n * 4096 ≤ 2 ^ 32) :
    munmapRange s d va n = undoRange s d va n := by
  induction n with
  | zero => rfl
  | succ n ih =>
    have hn := walk_le_of_succ hle
    have haddr : pageAddr va n = va + n * 4096 :=
      pageAddr_of_le hle (Nat.lt_succ_self n)
    rw [munmapRange, undoRange, ih hn, haddr]
    by_cases hpres : present
        (mmGetPte (undoRange s d va n) d (va + n * 4096)) = true
    · rw [if_pos hpres]
    · unfold mmGetPte at hpres
      unfold mmUnmapAt
      by_cases hdir : present
          ((undoRange s d va n).mem d (pdIdx (va + n * 4096))) = true
      · rw [if_pos hdir] at hpres
        simp [hpres]
      · simp [hdir]

theorem mprotectRange_spec
    (ho : Owned kernel s dirs) (hd : d ∈ dirs) (hflags : flags.toNat < 4096) (n : Nat)
    (hle : va + n * 4096 ≤ 2 ^ 32)
    (hpage : ∀ k, k < n → UserPage (pageNo va k) ∨
      (¬ UserPage (pageNo va k) ∧
        ∀ s' new, UserEdit kernel dirs d s s' new →
          mprotectPage s' d (va + k * 4096) flags = s')) :
    UserEdit kernel dirs d s (mprotectRange s d va flags n)
      (fun m => Shown s d m ∧ (InRange va n m → present flags = true)) := by
  induction n with
  | zero =>
    refine ho.userEdit_refl.congr ?_
    intro m _
    have hno := inRange_zero va m
    simp [hno]
  | succ n ih =>
    have hn := walk_le_of_succ hle
    have hprev := ih hn (fun k hk => hpage k (by omega))
    have hno : (va + n * 4096) / 4096 = pageNo va n := by
      rw [pageNo_of_le hle (Nat.lt_succ_self n)]
      omega
    rcases hpage n (by omega) with huser | ⟨hkern, hidle⟩
    · refine (hprev.trans (userEdit_mprotectPage hprev.owned hd ?_
        hflags)).congr ?_
      · rw [hno]
        exact huser
      · intro m hm
        rw [inRange_succ, hprev.shown m hm, hno]
        tauto
    · rw [mprotectRange, hidle _ _ hprev]
      refine hprev.congr ?_
      intro m hm
      have hne : m ≠ pageNo va n := by
        rintro rfl
        exact hkern hm
      rw [inRange_succ]
      tauto

/--
Everything `sys_mmap2` can do: fail and leave the present pages as they were,
or map its range and record it.
-/
theorem sysMmap2_cases {t : MmTask} {addr length prot mflags : BitVec 32} (ho : Owned kernel s dirs)
    (hd : t.pdir ∈ dirs)
    (hpage : ∀ va, mmapPlace t addr mflags (pageUp length.toNat) = some va →
      ∀ k, k < pageUp length.toNat / 4096 →
        Walkable kernel dirs t.pdir (protToPageFlags prot) s va k) :
    (∃ s', sysMmap2 s t addr length prot mflags = (-1, s', t) ∧
        UserEdit kernel dirs t.pdir s s' (Shown s t.pdir)) ∨
      ∃ va s' vmas,
        pageUp length.toNat ≠ 0 ∧
        mmapPlace t addr mflags (pageUp length.toNat) = some va ∧
        vmaAdd t.vmas va ((va + pageUp length.toNat) % 2 ^ 32) prot mflags =
          some vmas ∧
        sysMmap2 s t addr length prot mflags =
          (BitVec.ofNat 32 va, s', { t with vmas := vmas }) ∧
        Filled kernel dirs t.pdir va (protToPageFlags prot) s s'
          (pageUp length.toNat / 4096) := by
  have hrefl : UserEdit kernel dirs t.pdir s s (Shown s t.pdir) :=
    ho.userEdit_refl
  by_cases hlen : pageUp length.toNat = 0
  · exact Or.inl ⟨s, by simp [sysMmap2, hlen], hrefl⟩
  by_cases hanon : mflags &&& mapAnonymous = 0#32
  · exact Or.inl ⟨s, by simp [sysMmap2, hanon], hrefl⟩
  cases hplace : mmapPlace t addr mflags (pageUp length.toNat) with
  | none => exact Or.inl ⟨s, by simp [sysMmap2, hplace], hrefl⟩
  | some va =>
    rcases allocRange_spec ho hd (protToPageFlags_lt prot)
        (pageUp length.toNat / 4096) (hpage va hplace) with
      ⟨s', hok, hfill⟩ | ⟨i, s1, s', _, herr, hfill, hsame, _⟩
    · cases hadd : vmaAdd t.vmas va
          ((va + pageUp length.toNat) % 2 ^ 32) prot mflags with
      | none =>
        left
        refine ⟨_, ?_, hfill.undo hd⟩
        simp only [sysMmap2, if_neg hlen, if_neg hanon, hplace, hok, hadd]
      | some vmas =>
        right
        refine ⟨va, s', vmas, hlen, rfl, hadd, ?_, hfill⟩
        simp only [sysMmap2, if_neg hlen, if_neg hanon, hplace, hok, hadd]
    · left
      refine ⟨_, ?_, hfill.undo_failed hsame hd⟩
      simp only [sysMmap2, if_neg hlen, if_neg hanon, hplace, herr]

/--
Everything `sys_brk` can do: nothing, move the break within or below its page, map the
pages up to the new break, or stop at one of them and keep the old break.
-/
theorem sysBrk_cases
    {t : MmTask} (addr : BitVec 32) (ho : Owned kernel s dirs) (hd : t.pdir ∈ dirs) {old n : Nat}
    (hold : pageUp t.programBreak.toNat = old)
    (hn : (pageUp (brkTarget t addr).toNat - old) / 4096 = n)
    (hpage : ∀ k, k < n → Walkable kernel dirs t.pdir tableFlags s old k) :
    (addr = 0#32 ∧ (sysBrk s t addr).2 = (s, t)) ∨
      (addr ≠ 0#32 ∧ ¬ old < pageUp (brkTarget t addr).toNat ∧
        (sysBrk s t addr).2 = (s, { t with programBreak := brkTarget t addr })) ∨
      (addr ≠ 0#32 ∧ old < pageUp (brkTarget t addr).toNat ∧
        ((∃ s', (sysBrk s t addr).2 = (s', { t with programBreak := brkTarget t addr }) ∧
            Filled kernel dirs t.pdir old tableFlags s s' n) ∨
          ∃ i s1 s', i < n ∧ (sysBrk s t addr).2 = (s', t) ∧
            Filled kernel dirs t.pdir old tableFlags s s1 i ∧ SameUse s1 s' ∧
            Refused s1 t.pdir (pageNo old i))) := by
  subst hold hn
  by_cases haddr : addr = 0#32
  · exact Or.inl ⟨haddr, by simp [sysBrk, haddr]⟩
  by_cases hgrow : pageUp t.programBreak.toNat < pageUp (brkTarget t addr).toNat
  · refine Or.inr (Or.inr ⟨haddr, hgrow, ?_⟩)
    rcases allocRange_spec ho hd tableFlags_lt _ hpage with
      ⟨s2, hok, hfill⟩ | ⟨i, s1, s2, hi, herr, hfill, hsame, hwhy⟩
    · refine Or.inl ⟨s2, ?_, hfill⟩
      simp only [sysBrk, if_neg haddr, if_pos hgrow, hok]
    · refine Or.inr ⟨i, s1, s2, hi, ?_, hfill, hsame, hwhy⟩
      simp only [sysBrk, if_neg haddr, if_pos hgrow, herr]
  · refine Or.inr (Or.inl ⟨haddr, hgrow, ?_⟩)
    simp only [sysBrk, if_neg haddr, if_neg hgrow]

/-- `sys_brk` edits the user half of its caller. -/
theorem sysBrk_edit {t : MmTask} (addr : BitVec 32) (ho : Owned kernel s dirs) (hd : t.pdir ∈ dirs)
    (hpage : ∀ k, Walkable kernel dirs t.pdir tableFlags s (pageUp t.programBreak.toNat) k) :
    ∃ new, UserEdit kernel dirs t.pdir s (sysBrk s t addr).2.1 new := by
  rcases sysBrk_cases addr ho hd rfl rfl fun k _ => hpage k with
    ⟨-, hout⟩ | ⟨-, -, hout⟩ | ⟨-, -, ⟨s', hout, hfill⟩ | ⟨i, s1, s', -, hout, hfill, hsame, -⟩⟩
  · exact hout ▸ ⟨_, ho.userEdit_refl⟩
  · exact hout ▸ ⟨_, ho.userEdit_refl⟩
  · exact hout ▸ ⟨_, hfill.edit⟩
  · exact hout ▸ ⟨_, hfill.edit_failed hsame hd⟩

end Walks

end Mm
end Homunculos
