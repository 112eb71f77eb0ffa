import Homunculos.Mm.UserRange

/-!
# Memory areas and present pages

A task's mmap area is recorded twice: in the page directory and in the table
of memory areas.  `sys_mmap2`, `sys_munmap` and `sys_mprotect` edit the two by
different loops.  They stay in step as long as `sys_munmap` is called on
ranges that contain every area they touch: `vma_remove` drops an area that the
range only touches, while its other pages stay mapped.
-/

namespace Homunculos
namespace Mm

/-- `USER_STACK_TOP - USER_STACK_SIZE`. -/
def stackPage : Nat := 0xBFFFF000

/-- Page `n` lies in the mmap area. -/
def AreaPage (n : Nat) : Prop :=
  mmapBase ≤ n * 4096 ∧ n * 4096 < stackPage

/-- The first byte of page `n` lies in the area `v`. -/
def VmArea.Covers (v : VmArea) (n : Nat) : Prop :=
  v.start ≤ n * 4096 ∧ n * 4096 < v.stop

/-- Page `n` lies inside an area of the task. -/
def Recorded (t : MmTask) (n : Nat) : Prop :=
  ∃ v ∈ t.vmas.areas, v.Covers n

/-- A recorded area is a page range of the mmap area. -/
structure VmArea.WellPlaced (v : VmArea) : Prop where
  start_aligned : v.start % 4096 = 0
  stop_aligned : v.stop % 4096 = 0
  base : mmapBase ≤ v.start
  lt : v.start < v.stop
  top : v.stop ≤ stackPage

/-- The page directory and the table of areas say the same. -/
structure AreaAgree (kernel : Nat → Prop) (dirs : List Nat) (s : State) (t : MmTask) : Prop where
  owned : Owned kernel s dirs
  dir : t.pdir ∈ dirs
  placed : ∀ v ∈ t.vmas.areas, v.WellPlaced
  disjoint : ∀ v ∈ t.vmas.areas, ∀ w ∈ t.vmas.areas,
    ∀ n, v.Covers n → w.Covers n → v = w
  agree : ∀ n, AreaPage n → (Shown s t.pdir n ↔ Recorded t n)

/-- The three calls with their arguments. -/
inductive MapCall where
  | mmap2 (addr length prot flags : BitVec 32)
  | munmap (addr length : BitVec 32)
  | mprotect (addr length prot : BitVec 32)

/-- The memory and the task after a call. -/
def MapCall.run (s : State) (t : MmTask) : MapCall → State × MmTask
  | .mmap2 addr length prot flags => (sysMmap2 s t addr length prot flags).2
  | .munmap addr length => (sysMunmap s t addr length).2
  | .mprotect addr length prot => (sysMprotect s t addr length prot).2

/-- A protection other than 0 and a page range of the mmap area. -/
def MapCall.InArea (t : MmTask) : MapCall → Prop
  | .mmap2 addr length prot flags =>
    prot ≠ 0#32 ∧
      ∀ va, mmapPlace t addr flags (pageUp length.toNat) = some va →
        mmapBase ≤ va ∧ va + pageUp length.toNat ≤ stackPage
  | .munmap addr length => mmapBase ≤ pageDown addr.toNat ∧ rangeEnd addr length ≤ stackPage
  | .mprotect addr length prot =>
    prot ≠ 0#32 ∧ mmapBase ≤ pageDown addr.toNat ∧
      rangeEnd addr length ≤ stackPage

/-- The range of a `sys_munmap` contains every area that it touches. -/
def MapCall.Whole (t : MmTask) : MapCall → Prop
  | .munmap addr length =>
    ∀ v ∈ t.vmas.areas,
      v.overlaps (pageDown addr.toNat) (rangeEnd addr length) = true →
        pageDown addr.toNat ≤ v.start ∧ v.stop ≤ rangeEnd addr length
  | _ => True

/-- One call on the mmap area that removes whole areas only. -/
inductive AreaStep : State × MmTask → State × MmTask → Prop
  | call
      (s : State) (t : MmTask) (c : MapCall)
      (harea : c.InArea t)
      (hwhole : c.Whole t) :
      AreaStep (s, t) ((c.run s t).1, (c.run s t).2)

section Pages

theorem AreaPage.userPage {n : Nat} (h : AreaPage n) :
    UserPage n := by
  unfold AreaPage mmapBase stackPage at h
  unfold UserPage
  omega

theorem inRange_iff_addr
    {va stop : Nat} (hva : va % 4096 = 0) (hstop : stop % 4096 = 0) (htop : stop ≤ stackPage)
    (n : Nat) :
    InRange va ((stop - va) / 4096) n ↔ va ≤ n * 4096 ∧ n * 4096 < stop := by
  by_cases hle : va ≤ stop
  · rw [inRange_iff]
    · omega
    · unfold stackPage at htop
      omega
  · have hzero : (stop - va) / 4096 = 0 := by omega
    rw [hzero]
    constructor
    · intro h
      exact absurd h (inRange_zero va n)
    · omega

theorem pageDown_aligned (x : Nat) :
    pageDown x % 4096 = 0 :=
  Nat.mul_mod_left _ _

theorem pageUp_aligned (x : Nat) :
    pageUp x % 4096 = 0 :=
  Nat.mul_mod_left _ _

theorem userPage_of_walk {va stop k : Nat} (hbase : mmapBase ≤ va) (htop : stop ≤ stackPage)
    (hk : k < (stop - va) / 4096) :
    UserPage (pageNo va k) := by
  unfold mmapBase at hbase
  unfold stackPage at htop
  have hle : va + (stop - va) / 4096 * 4096 ≤ 2 ^ 32 := by omega
  rw [pageNo_of_le hle hk]
  unfold UserPage
  omega

theorem VmArea.Covers.overlaps
    {v : VmArea} {lo hi n : Nat} (hcov : v.Covers n) (hlo : lo ≤ n * 4096) (hhi : n * 4096 < hi) :
    v.overlaps lo hi = true := by
  rw [VmArea.overlaps_iff]
  unfold VmArea.Covers at hcov
  omega

end Pages

section Calls

variable {kernel : Nat → Prop} {dirs : List Nat} {s : State} {t : MmTask}

theorem stop_lt_of_placed (hplaced : ∀ v ∈ t.vmas.areas, v.WellPlaced) :
    ∀ v ∈ t.vmas.areas, v.stop < 2 ^ 32 := by
  intro v hv
  have htop := (hplaced v hv).top
  unfold stackPage at htop
  omega

/-- The place that `sys_mmap2` chooses is page aligned and free of areas. -/
theorem mmapPlace_spec
    (hplaced : ∀ v ∈ t.vmas.areas, v.WellPlaced) {addr flags : BitVec 32} {length va : Nat}
    (hlen : length < 2 ^ 32) (htop : va + length ≤ stackPage)
    (hplace : mmapPlace t addr flags length = some va) :
    va % 4096 = 0 ∧
      ∀ v ∈ t.vmas.areas, v.overlaps va (va + length) = false := by
  have hnowrap : (va + length) % 2 ^ 32 = va + length := by
    unfold stackPage at htop
    omega
  unfold mmapPlace at hplace
  by_cases hfixed : flags &&& mapFixed = 0#32
  · rw [if_pos hfixed] at hplace
    dsimp only at hplace
    have hgap : vmaFindGap t.vmas length ≠ 0 ∧
        vmaFindGap t.vmas length = va := by
      split at hplace
      · cases hplace
      · next hnz => exact ⟨hnz, Option.some.inj hplace⟩
    obtain ⟨hnz, rfl⟩ := hgap
    rcases vmaFindGapFrom_spec (stop_lt_of_placed hplaced) hlen
        mmapBase (by decide) with
      hzero | ⟨_, _, hfrom, hfree⟩
    · exact absurd hzero hnz
    · refine ⟨?_, hfree⟩
      rcases hfrom with hbase | ⟨v, hv, hend⟩
      · unfold vmaFindGap
        rw [hbase]
        decide
      · unfold vmaFindGap
        rw [hend]
        exact (hplaced v hv).stop_aligned
  · rw [if_neg hfixed] at hplace
    dsimp only at hplace
    split at hplace
    · cases hplace
    · next hnone =>
      have hva := Option.some.inj hplace
      rw [hva, hnowrap] at hnone
      refine ⟨?_, ?_⟩
      · rw [← hva]
        exact pageDown_aligned _
      · intro v hv
        by_contra hover
        apply hnone
        rw [List.any_eq_true]
        exact ⟨v, hv, by simpa using hover⟩

variable (h : AreaAgree kernel dirs s t)
include h

theorem AreaAgree.addArea {s' : State} {vmas : VmaTable} {v : VmArea}
    (howned : Owned kernel s' dirs) (hareas : vmas.areas = t.vmas.areas ++ [v])
    (hplaced : v.WellPlaced) (hfree : ∀ w ∈ t.vmas.areas, w.overlaps v.start v.stop = false)
    (hshown : ∀ n, AreaPage n → (Shown s' t.pdir n ↔ Shown s t.pdir n ∨ v.Covers n)) :
    AreaAgree kernel dirs s' { t with vmas := vmas } := by
  have hmem : ∀ w, w ∈ vmas.areas ↔ w ∈ t.vmas.areas ∨ w = v := by
    intro w
    rw [hareas, List.mem_append, List.mem_singleton]
  have hapart : ∀ w ∈ t.vmas.areas, ∀ n, w.Covers n → ¬ v.Covers n := by
    intro w hw n hwn hvn
    have hover := hwn.overlaps hvn.1 hvn.2
    rw [hfree w hw] at hover
    cases hover
  refine ⟨howned, h.dir, ?_, ?_, ?_⟩
  · intro w hw
    rcases (hmem w).mp hw with hw | rfl
    · exact h.placed w hw
    · exact hplaced
  · intro w hw w' hw' n hwn hwn'
    rcases (hmem w).mp hw with hw | rfl
    · rcases (hmem w').mp hw' with hw' | rfl
      · exact h.disjoint w hw w' hw' n hwn hwn'
      · exact absurd hwn' (hapart w hw n hwn)
    · rcases (hmem w').mp hw' with hw' | rfl
      · exact absurd hwn (hapart w' hw' n hwn')
      · rfl
  · intro n hn
    have hrec : Recorded { t with vmas := vmas } n ↔
        Recorded t n ∨ v.Covers n := by
      simp only [Recorded, hareas, List.mem_append, List.mem_singleton,
        or_and_right, exists_or, exists_eq_left]
    rw [hrec, hshown n hn, h.agree n hn]

/-- `sys_mmap2` keeps directory and table in step. -/
theorem AreaAgree.mmap2 {addr length prot flags : BitVec 32}
    (harea : (MapCall.mmap2 addr length prot flags).InArea t) :
    AreaAgree kernel dirs (sysMmap2 s t addr length prot flags).2.1
      (sysMmap2 s t addr length prot flags).2.2 := by
  obtain ⟨hprot, hin⟩ := harea
  have huser : ∀ va,
      mmapPlace t addr flags (pageUp length.toNat) = some va →
      ∀ k, k < pageUp length.toNat / 4096 → UserPage (pageNo va k) := by
    intro va hplace k hk
    obtain ⟨hbase, htop⟩ := hin va hplace
    refine userPage_of_walk hbase htop ?_
    rwa [Nat.add_sub_cancel_left]
  rcases sysMmap2_cases h.owned h.dir
      (fun va hplace k hk => Or.inl (huser va hplace k hk)) with
    ⟨s', hout, hedit⟩ | ⟨va, s', vmas, hlen, hplace, hadd, hout, hfill⟩
  · rw [hout]
    refine ⟨hedit.owned, h.dir, h.placed, h.disjoint, ?_⟩
    intro n hn
    rw [hedit.shown n hn.userPage]
    exact h.agree n hn
  · obtain ⟨hbase, htop⟩ := hin va hplace
    have hup := pageUp_le length.toNat
    obtain ⟨halign, hfree⟩ := mmapPlace_spec h.placed (by omega) htop hplace
    have hnowrap : (va + pageUp length.toNat) % 2 ^ 32 =
        va + pageUp length.toNat := by
      unfold stackPage at htop
      omega
    have hareas := vmaAdd_areas hadd
    rw [hnowrap] at hareas
    have hlast : (va + pageUp length.toNat) % 4096 = 0 := by
      have := pageUp_aligned length.toNat
      omega
    have hcov : ∀ n, InRange va (pageUp length.toNat / 4096) n ↔
        va ≤ n * 4096 ∧ n * 4096 < va + pageUp length.toNat := by
      intro n
      have hiff := inRange_iff_addr halign hlast htop n
      rwa [Nat.add_sub_cancel_left] at hiff
    rw [hout]
    refine h.addArea hfill.edit.owned hareas ?_ hfree ?_
    · exact ⟨halign, hlast, hbase, by dsimp only; omega, htop⟩
    · intro n hn
      rw [hfill.edit.shown n hn.userPage, hcov n, present_protToPageFlags hprot]
      unfold VmArea.Covers
      by_cases hr : va ≤ n * 4096 ∧ n * 4096 < va + pageUp length.toNat
      · simp [hr]
      · simp only [hr, false_and, not_false_eq_true, true_and, false_or,
          or_false]

variable {addr length : BitVec 32}

/-- The pages present after a `sys_munmap` in the area. -/
theorem shown_sysMunmap (harea : (MapCall.munmap addr length).InArea t) :
    Owned kernel (sysMunmap s t addr length).2.1 dirs ∧
      ∀ n, AreaPage n →
        (Shown (sysMunmap s t addr length).2.1 t.pdir n ↔
          ¬ (pageDown addr.toNat ≤ n * 4096 ∧
            n * 4096 < rangeEnd addr length) ∧ Recorded t n) := by
  obtain ⟨hbase, htop⟩ := harea
  have hcount : ∀ n, InRange (pageDown addr.toNat)
      ((rangeEnd addr length - pageDown addr.toNat) / 4096) n ↔
        pageDown addr.toNat ≤ n * 4096 ∧ n * 4096 < rangeEnd addr length :=
    inRange_iff_addr (pageDown_aligned addr.toNat) (pageUp_aligned _) htop
  have hout : (sysMunmap s t addr length).2.1 =
      undoRange s t.pdir (pageDown addr.toNat)
        ((rangeEnd addr length - pageDown addr.toNat) / 4096) :=
    munmapRange_eq_undoRange (range_walk_le addr length)
  have hedit := undoRange_spec h.owned h.dir
    ((rangeEnd addr length - pageDown addr.toNat) / 4096)
    (fun k hk => userPage_of_walk hbase htop hk)
  rw [hout]
  refine ⟨hedit.owned, ?_⟩
  intro n hn
  rw [hedit.shown n hn.userPage, hcount n, h.agree n hn]

/-- `sys_munmap` of whole areas keeps directory and table in step. -/
theorem AreaAgree.munmap (harea : (MapCall.munmap addr length).InArea t)
    (hwhole : (MapCall.munmap addr length).Whole t) :
    AreaAgree kernel dirs (sysMunmap s t addr length).2.1
      (sysMunmap s t addr length).2.2 := by
  obtain ⟨hown, hshown⟩ := shown_sysMunmap h harea
  have hmem : ∀ v, v ∈ (sysMunmap s t addr length).2.2.vmas.areas ↔
      v ∈ t.vmas.areas ∧
        v.overlaps (pageDown addr.toNat) (rangeEnd addr length) = false :=
    mem_vmaRemove t.vmas _ _
  refine ⟨hown, h.dir, ?_, ?_, ?_⟩
  · intro v hv
    exact h.placed v ((hmem v).mp hv).1
  · intro v hv w hw
    exact h.disjoint v ((hmem v).mp hv).1 w ((hmem w).mp hw).1
  · intro n hn
    refine (hshown n hn).trans ?_
    constructor
    · rintro ⟨hout, v, hv, hcov⟩
      refine ⟨v, (hmem v).mpr ⟨hv, ?_⟩, hcov⟩
      by_contra hover
      obtain ⟨hlo, hhi⟩ := hwhole v hv (by simpa using hover)
      exact hout ⟨hlo.trans hcov.1, hcov.2.trans_le hhi⟩
    · rintro ⟨v, hv, hcov⟩
      obtain ⟨hv, hno⟩ := (hmem v).mp hv
      refine ⟨?_, v, hv, hcov⟩
      rintro ⟨hlo, hhi⟩
      rw [hcov.overlaps hlo hhi] at hno
      cases hno

/-- A `sys_munmap` that cuts an area leaves a page without a record. -/
theorem AreaAgree.not_agree_of_cut
    (harea : (MapCall.munmap addr length).InArea t)
    (hcut : ¬ (MapCall.munmap addr length).Whole t) :
    ∃ n, AreaPage n ∧ Shown (sysMunmap s t addr length).2.1 t.pdir n ∧
      ¬ Recorded (sysMunmap s t addr length).2.2 n := by
  obtain ⟨_, hshown⟩ := shown_sysMunmap h harea
  simp only [MapCall.Whole, not_forall] at hcut
  obtain ⟨v, hv, hover, hout⟩ := hcut
  have hplace := h.placed v hv
  obtain ⟨hstart, hstop, hbase, hlt, htop⟩ := hplace
  have hlost : ∀ n, v.Covers n →
      ¬ Recorded (sysMunmap s t addr length).2.2 n := by
    rintro n hcov ⟨w, hw, hwn⟩
    obtain ⟨hw, hno⟩ := (mem_vmaRemove t.vmas _ _ w).mp hw
    rw [h.disjoint w hw v hv n hwn hcov, hover] at hno
    cases hno
  have hkept : ∀ n, v.Covers n →
      ¬ (pageDown addr.toNat ≤ n * 4096 ∧ n * 4096 < rangeEnd addr length) →
      AreaPage n ∧ Shown (sysMunmap s t addr length).2.1 t.pdir n := by
    intro n hcov hno
    have hn : AreaPage n :=
      ⟨hbase.trans hcov.1, hcov.2.trans_le htop⟩
    exact ⟨hn, (hshown n hn).mpr ⟨hno, v, hv, hcov⟩⟩
  rw [VmArea.overlaps_iff] at hover
  -- the page kept without a record is before the range or behind it
  by_cases hbefore : v.start < pageDown addr.toNat
  · have hcov : v.Covers (v.start / 4096) := by
      unfold VmArea.Covers
      omega
    obtain ⟨hn, hs⟩ := hkept _ hcov (by omega)
    exact ⟨_, hn, hs, hlost _ hcov⟩
  · have halign : rangeEnd addr length % 4096 = 0 := pageUp_aligned _
    have hcov : v.Covers (rangeEnd addr length / 4096) := by
      unfold VmArea.Covers
      omega
    obtain ⟨hn, hs⟩ := hkept _ hcov (by omega)
    exact ⟨_, hn, hs, hlost _ hcov⟩

/-- `sys_mprotect` keeps directory and table in step. -/
theorem AreaAgree.mprotect {addr length prot : BitVec 32}
    (harea : (MapCall.mprotect addr length prot).InArea t) :
    AreaAgree kernel dirs (sysMprotect s t addr length prot).2.1
      (sysMprotect s t addr length prot).2.2 := by
  obtain ⟨hprot, hbase, htop⟩ := harea
  have hedit := mprotectRange_spec h.owned h.dir (protToPageFlags_lt prot)
    ((rangeEnd addr length - pageDown addr.toNat) / 4096)
    (range_walk_le addr length)
    (fun k hk => Or.inl (userPage_of_walk hbase htop hk))
  have hmem : ∀ v, v ∈ (sysMprotect s t addr length prot).2.2.vmas.areas ↔
      ∃ w ∈ t.vmas.areas, w.reprotect (pageDown addr.toNat)
        (rangeEnd addr length) prot = v :=
    mem_vmaUpdateProt t.vmas _ _ prot
  refine ⟨hedit.owned, h.dir, ?_, ?_, ?_⟩
  · intro v hv
    obtain ⟨w, hw, rfl⟩ := (hmem v).mp hv
    obtain ⟨h1, h2, h3, h4, h5⟩ := h.placed w hw
    constructor
    all_goals simpa
  · intro v hv v' hv' n hn hn'
    obtain ⟨w, hw, rfl⟩ := (hmem v).mp hv
    obtain ⟨w', hw', rfl⟩ := (hmem v').mp hv'
    simp only [VmArea.Covers, VmArea.start_reprotect, VmArea.stop_reprotect] at hn hn'
    rw [h.disjoint w hw w' hw' n hn hn']
  · intro n hn
    refine (hedit.shown n hn.userPage).trans ?_
    rw [present_protToPageFlags hprot, h.agree n hn]
    constructor
    · rintro ⟨⟨v, hv, hcov⟩, _⟩
      refine ⟨_, (hmem _).mpr ⟨v, hv, rfl⟩, ?_⟩
      simpa [VmArea.Covers] using hcov
    · rintro ⟨v, hv, hcov⟩
      obtain ⟨w, hw, rfl⟩ := (hmem v).mp hv
      refine ⟨⟨w, hw, ?_⟩, fun _ => rfl⟩
      simpa [VmArea.Covers] using hcov

omit h

theorem AreaStep.agree
    {x y : State × MmTask} (hstep : AreaStep x y) (h : AreaAgree kernel dirs x.1 x.2) :
    AreaAgree kernel dirs y.1 y.2 := by
  cases hstep with
  | call s t c harea hwhole =>
    cases c with
    | mmap2 addr length prot flags => exact AreaAgree.mmap2 h harea
    | munmap addr length => exact AreaAgree.munmap h harea hwhole
    | mprotect addr length prot => exact AreaAgree.mprotect h harea

theorem areaAgree_of_run {x y : State × MmTask} (h : AreaAgree kernel dirs x.1 x.2)
    (hrun : Relation.ReflTransGen AreaStep x y) :
    AreaAgree kernel dirs y.1 y.2 :=
  Run.Keeps.run (P := fun z => AreaAgree kernel dirs z.1 z.2)
    (fun _ _ hstep hs => hstep.agree hs) hrun h

/-- The gap that `vma_find_gap` reports can be mapped while there are frames. -/
theorem AreaAgree.mmap2_gap (h : AreaAgree kernel dirs s t) {addr length prot flags : BitVec 32}
    (hanon : flags &&& mapAnonymous ≠ 0#32) (hfixed : flags &&& mapFixed = 0#32)
    (hlen : pageUp length.toNat ≠ 0) (hgap : vmaFindGap t.vmas (pageUp length.toNat) ≠ 0)
    (htop : vmaFindGap t.vmas (pageUp length.toNat) + pageUp length.toNat ≤ stackPage)
    (hareas : t.vmas.areas.length < maxVma)
    (hfree : 2 * (pageUp length.toNat / 4096) ≤ freeFrames s) :
    (sysMmap2 s t addr length prot flags).1 =
      BitVec.ofNat 32 (vmaFindGap t.vmas (pageUp length.toNat)) := by
  have hlt : pageUp length.toNat < 2 ^ 32 := by
    have := pageUp_le length.toNat
    omega
  have hplace : mmapPlace t addr flags (pageUp length.toNat) =
      some (vmaFindGap t.vmas (pageUp length.toNat)) := by
    unfold mmapPlace
    rw [if_pos hfixed]
    exact if_neg hgap
  have hbase : mmapBase ≤ vmaFindGap t.vmas (pageUp length.toNat) := by
    rcases vmaFindGapFrom_spec (stop_lt_of_placed h.placed)
        hlt mmapBase (by decide) with hzero | ⟨hle, _⟩
    · exact absurd hzero hgap
    · exact hle
  obtain ⟨halign, hclear⟩ := mmapPlace_spec h.placed hlt htop hplace
  generalize vmaFindGap t.vmas (pageUp length.toNat) = va at *
  have huser : ∀ k, k < pageUp length.toNat / 4096 →
      UserPage (pageNo va k) := by
    intro k hk
    refine userPage_of_walk hbase htop ?_
    rwa [Nat.add_sub_cancel_left]
  have hwalk : va + pageUp length.toNat / 4096 * 4096 ≤ 2 ^ 32 := by
    unfold stackPage at htop
    omega
  rcases allocRange_spec h.owned h.dir (protToPageFlags_lt prot)
      (pageUp length.toNat / 4096) (fun k hk => Or.inl (huser k hk)) with
    ⟨s', hok, _⟩ | ⟨i, s1, s', hi, _, hfill, _, hwhy⟩
  · have hadd : ∃ vmas, vmaAdd t.vmas va
        ((va + pageUp length.toNat) % 2 ^ 32) prot flags = some vmas := by
      unfold vmaAdd
      rw [dif_neg (by omega)]
      exact ⟨_, rfl⟩
    obtain ⟨vmas, hadd⟩ := hadd
    simp only [sysMmap2, if_neg hlen, if_neg hanon, hplace, hok, hadd]
  · -- the walk cannot stop: the page is absent and two frames are left
    exfalso
    have hpage := pageNo_of_le hwalk hi
    have hshort : va + i * 4096 ≤ 2 ^ 32 :=
      le_trans (Nat.add_le_add_left (Nat.mul_le_mul_right _ hi.le) va) hwalk
    have hnew : ¬ InRange va i (pageNo va i) := by
      rw [inRange_iff hshort]
      omega
    have hold : ¬ Shown s t.pdir (pageNo va i) := by
      intro hshown
      have hn : AreaPage (pageNo va i) := by
        unfold AreaPage
        omega
      obtain ⟨v, hv, hcov⟩ := (h.agree _ hn).mp hshown
      have hover : v.overlaps va (va + pageUp length.toNat) = true :=
        hcov.overlaps (by omega) (by omega)
      rw [hclear v hv] at hover
      cases hover
    have hfew := hfill.few hwhy (huser i hi) hnew hold
    have hle := framesFor_le s t.pdir (walkPages va (i + 1))
    rw [walkPages, List.length_map, List.length_range] at hle
    rw [walkPages] at hfew
    omega

/--
From a task without areas, in every run of `sys_mmap2`, `sys_munmap` and
`sys_mprotect` on the mmap area whose `sys_munmap` calls remove whole areas:
a page is present exactly when it is recorded, a gap that is reported free can
be mapped, and the next `sys_munmap` keeps the two in step exactly when it
removes whole areas.
-/
theorem areas_agree_iff_whole
    {s₀ : State} {t₀ : MmTask} (howned : Owned kernel s₀ dirs) (hdir : t₀.pdir ∈ dirs)
    (hnone : t₀.vmas.areas = []) (habsent : ∀ n, AreaPage n → ¬ Shown s₀ t₀.pdir n)
    (hrun : Relation.ReflTransGen AreaStep (s₀, t₀) (s, t)) :
    (∀ n, AreaPage n → (Shown s t.pdir n ↔ Recorded t n)) ∧
      (∀ addr length prot flags : BitVec 32,
        flags &&& mapAnonymous ≠ 0#32 → flags &&& mapFixed = 0#32 →
        pageUp length.toNat ≠ 0 →
        vmaFindGap t.vmas (pageUp length.toNat) ≠ 0 →
        vmaFindGap t.vmas (pageUp length.toNat) + pageUp length.toNat ≤
          stackPage →
        t.vmas.areas.length < maxVma →
        2 * (pageUp length.toNat / 4096) ≤ freeFrames s →
        (sysMmap2 s t addr length prot flags).1 =
          BitVec.ofNat 32 (vmaFindGap t.vmas (pageUp length.toNat))) ∧
      (∀ addr length : BitVec 32,
        (MapCall.munmap addr length).InArea t →
        ((∀ n, AreaPage n →
            (Shown (sysMunmap s t addr length).2.1 t.pdir n ↔
              Recorded (sysMunmap s t addr length).2.2 n)) ↔
          (MapCall.munmap addr length).Whole t)) := by
  have hstart : AreaAgree kernel dirs s₀ t₀ := by
    refine ⟨howned, hdir, ?_, ?_, ?_⟩
    · simp [hnone]
    · simp [hnone]
    · intro n hn
      simp [Recorded, hnone, habsent n hn]
  have h : AreaAgree kernel dirs s t := areaAgree_of_run hstart hrun
  refine ⟨h.agree, ?_, ?_⟩
  · intro addr length prot flags hanon hfixed hlen hgap htop hareas hfree
    exact h.mmap2_gap hanon hfixed hlen hgap htop hareas hfree
  · intro addr length harea
    constructor
    · intro hagree
      by_contra hcut
      obtain ⟨n, hn, hshown, hlost⟩ := h.not_agree_of_cut harea hcut
      exact hlost ((hagree n hn).mp hshown)
    · intro hwhole
      exact (h.munmap harea hwhole).agree

/-- A task without areas in the directory of frame 1. -/
def plainTask : MmTask where
  pdir := 1
  brkStart := 0x8000000#32
  programBreak := 0x8000000#32
  vmas := .empty

theorem oneDirectory_absent (n : Nat) :
    ¬ Shown oneDirectory plainTask.pdir n := by
  simp [Shown, pageSlot, slot, oneDirectory]

/-- `mmap2(0x40000000, 0x2000, PROT_READ | PROT_WRITE, fixed anonymous)`. -/
def twoPages : MapCall :=
  .mmap2 0x40000000 0x2000 3 50

theorem twoPages_inArea :
    twoPages.InArea plainTask := by
  refine ⟨by decide, ?_⟩
  intro va hplace
  obtain rfl := Option.some.inj hplace
  decide

/-- Both pages of the area are present and recorded. -/
theorem areas_agree_iff_whole_twoPages :
    Shown (twoPages.run oneDirectory plainTask).1 1 0x40001 ↔
      Recorded (twoPages.run oneDirectory plainTask).2 0x40001 := by
  have hstep : AreaStep (oneDirectory, plainTask)
      ((twoPages.run oneDirectory plainTask).1,
        (twoPages.run oneDirectory plainTask).2) :=
    .call oneDirectory plainTask twoPages twoPages_inArea trivial
  have hpdir : (twoPages.run oneDirectory plainTask).2.pdir = 1 := by decide +kernel
  have hdir : plainTask.pdir ∈ [1] := by decide
  have h := areas_agree_iff_whole oneDirectory_start.owned
    hdir rfl (fun n _ => oneDirectory_absent n)
    (Relation.ReflTransGen.single hstep)
  rw [hpdir] at h
  exact h.1 0x40001 ⟨by decide, by decide⟩

/--
After mapping two pages and unmapping the first, the second is present but
belongs to no area.
-/
theorem munmap_loses_rest_of_area :
    twoPages.InArea plainTask ∧
      (MapCall.munmap 0x40000000 0x1000).InArea
        (twoPages.run oneDirectory plainTask).2 ∧
      Shown ((MapCall.munmap 0x40000000 0x1000).run
        (twoPages.run oneDirectory plainTask).1
        (twoPages.run oneDirectory plainTask).2).1 1 0x40001 ∧
      ¬ Recorded ((MapCall.munmap 0x40000000 0x1000).run
        (twoPages.run oneDirectory plainTask).1
        (twoPages.run oneDirectory plainTask).2).2 0x40001 := by
  refine ⟨twoPages_inArea, ⟨by decide, by decide⟩, ?_, ?_⟩
  · unfold Shown
    decide +kernel
  · have hnone : ((MapCall.munmap 0x40000000 0x1000).run
        (twoPages.run oneDirectory plainTask).1
        (twoPages.run oneDirectory plainTask).2).2.vmas.areas = [] := by
      decide +kernel
    unfold Recorded
    rw [hnone]
    simp

end Calls

end Mm
end Homunculos
