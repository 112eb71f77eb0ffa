import Homunculos.Mm.UserRange

/-!
# The shared kernel half

Every page directory shares the four page tables of the identity map as its
entries 0 to 3.  `sys_mmap2` and `sys_brk` meet pages of this half only as
pages that `mm_alloc_at` refuses.  `sys_munmap` and `sys_mprotect` do not test
their range, and a range that reaches below 16 MiB changes the shared tables.
-/

namespace Homunculos
namespace Mm

open Function

/-- The four identity tables `kpt` are entries 0 to 3 of every directory. -/
structure KernelHalf (kernel : Nat → Prop) (kpt : Nat → Nat) (s : State)
    (dirs : List Nat) : Prop where
  isKernel : ∀ i, i < 4 → kernel (kpt i)
  notDir : ∀ i, i < 4 → kpt i ∉ dirs
  lt : ∀ i, i < 4 → kpt i < identPages
  entry : ∀ d ∈ dirs, ∀ i, i < 4 → s.mem d i = mkEntry (kpt i) tableFlags
  ident : ∀ i j, i < 4 → j < dirSize →
    s.mem (kpt i) j = mkEntry (i * dirSize + j) tableFlags

/--
A call of the task with directory `d` changes no shared table and no directory
entry for one, and frees no frame but those of user pages of `d`.
-/
structure KernelSpared (kpt : Nat → Nat) (dirs : List Nat) (d : Nat) (s s' : State) : Prop where
  tables : ∀ i j, i < 4 → j < dirSize →
    s'.mem (kpt i) j = s.mem (kpt i) j
  entries : ∀ d' ∈ dirs, ∀ i, i < 4 → s'.mem d' i = s.mem d' i
  freed : ∀ f, bitmapTest s f = true → bitmapTest s' f = false →
    MapsFrame s d f

section Half

variable {kernel : Nat → Prop} {kpt : Nat → Nat} {dirs : List Nat} {d : Nat} {s s' : State}
variable {new : Nat → Prop}

theorem UserEdit.kernelSpared
    (h : UserEdit kernel dirs d s s' new) (hk : KernelHalf kernel kpt s dirs) :
    KernelSpared kpt dirs d s s' := by
  refine ⟨?_, h.entries, h.freed⟩
  intro i j hi _
  rw [h.words (kpt i) (hk.isKernel i hi) (hk.notDir i hi)]

variable (hk : KernelHalf kernel kpt s dirs)
include hk

theorem KernelHalf.of_edit (h : UserEdit kernel dirs d s s' new) :
    KernelHalf kernel kpt s' dirs := by
  refine ⟨hk.isKernel, hk.notDir, hk.lt, ?_, ?_⟩
  · intro d' hd' i hi
    rw [h.entries d' hd' i hi, hk.entry d' hd' i hi]
  · intro i j hi hj
    rw [h.words (kpt i) (hk.isKernel i hi) (hk.notDir i hi), hk.ident i j hi hj]

theorem KernelHalf.entryFrame_eq (hd : d ∈ dirs) {i : Nat} (hi : i < 4) :
    present (s.mem d i) = true ∧ entryFrame (s.mem d i) = kpt i := by
  rw [hk.entry d hd i hi, present_mkEntry (hk.lt i hi) tableFlags_lt,
    entryFrame_mkEntry (hk.lt i hi) tableFlags_lt]
  exact ⟨present_tableFlags, rfl⟩

/-- Page `n` of the kernel half maps frame `n`. -/
theorem KernelHalf.pte_eq (hd : d ∈ dirs) {n : Nat} (hn : n < 4096) :
    pte s d (n / 1024) (n % 1024) = mkEntry n tableFlags := by
  have hi : n / 1024 < 4 := by omega
  have hj : n % 1024 < dirSize := Nat.mod_lt _ (by decide)
  have hn' : n / 1024 * dirSize + n % 1024 = n := by
    unfold dirSize
    omega
  unfold pte
  rw [(hk.entryFrame_eq hd hi).2, hk.ident _ _ hi hj, hn']

theorem KernelHalf.present_pte (hd : d ∈ dirs) {n : Nat} (hn : n < 4096) :
    present (pte s d (n / 1024) (n % 1024)) = true := by
  rw [hk.pte_eq hd hn, present_mkEntry hn tableFlags_lt]
  exact present_tableFlags

omit hk

/-- A table that was spared still maps page `n` to frame `n`. -/
theorem KernelSpared.word_eq
    (h : KernelSpared kpt dirs d s s') (hk : KernelHalf kernel kpt s dirs) (hd : d ∈ dirs) {n : Nat}
    (hn : n < 4096) :
    s'.mem (kpt (n / 1024)) (n % 1024) = mkEntry n tableFlags := by
  have hi : n / 1024 < 4 := by omega
  have hj : n % 1024 < dirSize := Nat.mod_lt _ (by decide)
  have hold := hk.pte_eq hd hn
  unfold pte at hold
  rw [(hk.entryFrame_eq hd hi).2] at hold
  rw [h.tables _ _ hi hj, hold]

theorem KernelHalf.kpt_ne
    (hk : KernelHalf kernel kpt s dirs) {i i' : Nat} (hi : i < 4) (hi' : i' < 4) (hne : i ≠ i') :
    kpt i ≠ kpt i' := by
  intro heq
  have hdir : 0 < dirSize := by decide
  have hfirst := hk.ident i 0 hi hdir
  rw [heq, hk.ident i' 0 hi' hdir] at hfirst
  have hframe := congrArg entryFrame hfirst
  unfold dirSize at hframe
  rw [entryFrame_mkEntry (by unfold identPages; omega) tableFlags_lt,
    entryFrame_mkEntry (by unfold identPages; omega) tableFlags_lt] at hframe
  omega

theorem userPage_or_kernel (va k : Nat) :
    UserPage (pageNo va k) ∨ pageNo va k < 4096 := by
  have := pageAddr_lt va k
  unfold UserPage pageNo
  omega

theorem not_userPage {n : Nat} (h : n < 4096) :
    ¬ UserPage n :=
  fun huser => absurd huser.1 (Nat.not_le.mpr h)

/-- `mm_alloc_at` refuses every page of the kernel half. -/
theorem KernelHalf.mmAllocAt_refuses
    (hk : KernelHalf kernel kpt s dirs) (ho : Owned kernel s dirs) (hd : d ∈ dirs) {va : Nat}
    (hva : va / 4096 < 4096) (flags : BitVec 32) :
    (mmAllocAt s d va flags).1 = 0 ∧
      SameUse s (mmAllocAt s d va flags).2 := by
  have hi : va / 4096 / 1024 < 4 := by omega
  obtain ⟨hpres, hframe⟩ := hk.entryFrame_eq hd hi
  rw [← pdIdx_eq] at hi hpres hframe
  have hpte := hk.present_pte hd hva
  rw [← pdIdx_eq] at hpte
  rcases mmAllocAt_cases flags ho.zeroUsed (ho.dirUsed d hd) (fun _ => by
      rw [hframe]
      exact ho.kernelUsed _ (hk.isKernel _ hi)) with
    ⟨hzero, hsame, -⟩ | ⟨_, -, -, -, hno, -⟩ | ⟨_, _, -, -, -, -, hno, -⟩
  · exact ⟨hzero, hsame⟩
  · exact absurd (hpte.symm.trans hno) (by decide)
  · exact absurd (hpres.symm.trans hno) (by decide)

theorem KernelHalf.walk
    (hk : KernelHalf kernel kpt s dirs) (hd : d ∈ dirs) (flags : BitVec 32) (va k : Nat) :
    Walkable kernel dirs d flags s va k := by
  rcases userPage_or_kernel va k with huser | hkern
  · exact Or.inl huser
  · right
    refine ⟨not_userPage hkern, ?_⟩
    intro s' new hedit
    exact (hk.of_edit hedit).mmAllocAt_refuses hedit.owned hd hkern flags

/-- `sys_mmap2` never reaches the kernel half. -/
theorem sysMmap2_spared
    {t : MmTask} (ho : Owned kernel s dirs) (hk : KernelHalf kernel kpt s dirs) (hd : t.pdir ∈ dirs)
    (addr length prot flags : BitVec 32) :
    KernelSpared kpt dirs t.pdir s
      (sysMmap2 s t addr length prot flags).2.1 := by
  rcases sysMmap2_cases ho hd
      (fun va _ k _ => hk.walk hd (protToPageFlags prot) va k) with
    ⟨s', hout, hedit⟩ | ⟨va, s', vmas, _, _, _, hout, hfill⟩
  · rw [hout]
    exact hedit.kernelSpared hk
  · rw [hout]
    exact hfill.edit.kernelSpared hk

/-- `sys_brk` never reaches the kernel half. -/
theorem sysBrk_spared
    {t : MmTask} (ho : Owned kernel s dirs) (hk : KernelHalf kernel kpt s dirs) (hd : t.pdir ∈ dirs)
    (addr : BitVec 32) :
    KernelSpared kpt dirs t.pdir s (sysBrk s t addr).2.1 := by
  obtain ⟨new, hedit⟩ := sysBrk_edit addr ho hd
    (fun k => hk.walk hd tableFlags _ k)
  exact hedit.kernelSpared hk

end Half

section Unmap

variable {kernel : Nat → Prop} {kpt : Nat → Nat} {dirs : List Nat} {d va : Nat} {s : State}

/-- `mm_unmap_at` writes nothing but zero. -/
theorem mmUnmapAt_mem_zero {f j : Nat} (h : s.mem f j = 0#32) :
    (mmUnmapAt s d va).2.mem f j = 0#32 := by
  unfold mmUnmapAt
  split
  · dsimp only
    split
    · rw [mem_setWord_mmFrameFree]
      unfold setWord
      dsimp only
      by_cases hf : f = entryFrame (s.mem d (pdIdx va))
      · subst hf
        rw [update_self]
        by_cases hj : j = ptIdx va
        · rw [hj, update_self]
        · rw [update_of_ne hj, h]
      · rw [update_of_ne hf, h]
    · exact h
  · exact h

theorem KernelHalf.mmUnmapAt_clears
    (hk : KernelHalf kernel kpt s dirs) (hd : d ∈ dirs) (hva : va / 4096 < 4096) :
    (mmUnmapAt s d va).2.mem (kpt (va / 4096 / 1024))
      (va / 4096 % 1024) = 0#32 := by
  have hi : va / 4096 / 1024 < 4 := by omega
  obtain ⟨hpres, hframe⟩ := hk.entryFrame_eq hd hi
  have hpte := hk.present_pte hd hva
  unfold pte at hpte
  rw [hframe] at hpte
  unfold mmUnmapAt
  rw [pdIdx_eq, ptIdx_eq, if_pos hpres]
  rw [hframe, if_pos hpte, mem_setWord_self, update_self]

theorem KernelHalf.undoRange_clears
    (hk : KernelHalf kernel kpt s dirs) (hd : d ∈ dirs) (hlt : va < 2 ^ 32) (hva : va / 4096 < 4096)
    (n : Nat) :
    (undoRange s d va (n + 1)).mem (kpt (va / 4096 / 1024))
      (va / 4096 % 1024) = 0#32 := by
  induction n with
  | zero =>
    have haddr : pageAddr va 0 = va := by
      unfold pageAddr
      rw [Nat.add_zero, Nat.mod_eq_of_lt hlt]
    rw [undoRange, haddr]
    exact hk.mmUnmapAt_clears hd hva
  | succ n ih => exact mmUnmapAt_mem_zero ih

end Unmap

section Protect

variable {kernel : Nat → Prop} {kpt : Nat → Nat} {dirs : List Nat} {d va : Nat} {s s' : State}
variable {flags : BitVec 32}

variable (hk : KernelHalf kernel kpt s dirs)
include hk

/-- The loop body of `sys_mprotect` on a page of the kernel half. -/
theorem KernelHalf.mprotectPage_eq (hd : d ∈ dirs) (hva : va / 4096 < 4096) (flags : BitVec 32) :
    mprotectPage s d va flags =
      setWord s (kpt (va / 4096 / 1024)) (va / 4096 % 1024)
        (mkEntry (va / 4096) flags) := by
  have hi : va / 4096 / 1024 < 4 := by omega
  obtain ⟨hpres, hframe⟩ := hk.entryFrame_eq hd hi
  have hget : mmGetPte s d va = mkEntry (va / 4096) tableFlags := by
    unfold mmGetPte
    rw [pdIdx_eq, if_pos hpres]
    exact hk.pte_eq hd hva
  unfold mprotectPage
  rw [hget, entryFrame_mkEntry hva tableFlags_lt,
    present_mkEntry hva tableFlags_lt, if_pos present_tableFlags, pdIdx_eq,
    hframe, ptIdx_eq]

theorem KernelHalf.mprotectPage_same (hd : d ∈ dirs) (hva : va / 4096 < 4096) :
    mprotectPage s d va tableFlags = s := by
  have hi : va / 4096 / 1024 < 4 := by omega
  have hword : s.mem (kpt (va / 4096 / 1024)) (va / 4096 % 1024) =
      mkEntry (va / 4096) tableFlags := by
    rw [← hk.pte_eq hd hva]
    unfold pte
    rw [(hk.entryFrame_eq hd hi).2]
  rw [hk.mprotectPage_eq hd hva, setWord, ← hword, update_eq_self, update_eq_self]

theorem KernelHalf.table_ne (ho : Owned kernel s dirs) (hd : d ∈ dirs) {pd i : Nat}
    (hpd : pd < dirSize) (hpres : present (s.mem d pd) = true) (hi : i < 4) :
    entryFrame (s.mem d pd) ∉ dirs ∧
      (pd ≠ i → entryFrame (s.mem d pd) ≠ kpt i) := by
  by_cases hlow : pd < 4
  · rw [(hk.entryFrame_eq hd hlow).2]
    exact ⟨hk.notDir pd hlow, hk.kpt_ne hlow hi⟩
  · have hlive : (Ref.table d pd).Live s dirs :=
      ⟨hd, by omega, hpd, hpres⟩
    refine ⟨ho.refDir _ hlive, ?_⟩
    rintro _ heq
    apply ho.refKernel _ hlive
    simp only [Ref.frame]
    rw [heq]
    exact hk.isKernel i hi

/-- A step at another page leaves the directory and the entry of page `n`. -/
theorem KernelHalf.mprotectPage_other (ho : Owned kernel s dirs) (hd : d ∈ dirs)
    (hdir : s'.mem d = s.mem d) (hlt : va < 2 ^ 32) {n : Nat} (hn : n < 4096) (flags : BitVec 32) :
    (mprotectPage s' d va flags).mem d = s.mem d ∧
      (va / 4096 ≠ n →
        (mprotectPage s' d va flags).mem (kpt (n / 1024)) (n % 1024) =
          s'.mem (kpt (n / 1024)) (n % 1024)) := by
  by_cases hpres : present (mmGetPte s' d va) = true
  · have hpde : present (s.mem d (pdIdx va)) = true := by
      by_contra hno
      unfold mmGetPte at hpres
      rw [hdir, if_neg hno] at hpres
      simp at hpres
    obtain ⟨hnd, hother⟩ := hk.table_ne (i := n / 1024) ho hd
      (pdIdx_lt hlt) hpde (by omega)
    unfold mprotectPage
    rw [if_pos hpres, hdir]
    refine ⟨?_, ?_⟩
    · rw [mem_setWord_of_ne, hdir]
      intro heq
      rw [← heq] at hnd
      exact hnd hd
    · intro hne
      by_cases hpd : pdIdx va = n / 1024
      · have hpt : n % 1024 ≠ ptIdx va := by
          rw [pdIdx_eq] at hpd
          rw [ptIdx_eq]
          omega
        have hlow : n / 1024 < 4 := by omega
        rw [hpd, (hk.entryFrame_eq hd hlow).2, mem_setWord_self, update_of_ne hpt]
      · rw [mem_setWord_of_ne _ _ _ (fun h => hother hpd h.symm)]
  · unfold mprotectPage
    rw [if_neg hpres]
    exact ⟨hdir, fun _ => rfl⟩

/-- A walk that starts in the kernel half leaves the new flags in its first entry. -/
theorem KernelHalf.mprotectRange_first (ho : Owned kernel s dirs) (hd : d ∈ dirs)
    (hva : va / 4096 < 4096) (n : Nat) (hle : va + (n + 1) * 4096 ≤ 2 ^ 32) :
    (mprotectRange s d va flags (n + 1)).mem d = s.mem d ∧
      (mprotectRange s d va flags (n + 1)).mem
        (kpt (va / 4096 / 1024)) (va / 4096 % 1024) =
          mkEntry (va / 4096) flags := by
  induction n with
  | zero =>
    have hlt : va < 2 ^ 32 := by omega
    rw [mprotectRange, mprotectRange, Nat.add_zero]
    refine ⟨(hk.mprotectPage_other ho hd rfl hlt hva flags).1, ?_⟩
    rw [hk.mprotectPage_eq hd hva, mem_setWord_self, update_self]
  | succ n ih =>
    obtain ⟨hdir, hword⟩ := ih (walk_le_of_succ hle)
    have hlt : va + (n + 1) * 4096 < 2 ^ 32 := by omega
    have hstep := hk.mprotectPage_other ho hd hdir hlt hva flags
    rw [mprotectRange]
    refine ⟨hstep.1, ?_⟩
    rw [hstep.2 (by omega), hword]

end Protect

section Calls

variable {kernel : Nat → Prop} {kpt : Nat → Nat} {dirs : List Nat} {s : State} {t : MmTask}

theorem range_walk_succ
    {addr length : BitVec 32} (h : ¬ rangeEnd addr length ≤ pageDown addr.toNat) :
    ∃ n, (rangeEnd addr length - pageDown addr.toNat) / 4096 = n + 1 := by
  unfold rangeEnd pageUp pageDown at *
  refine ⟨_, (Nat.succ_pred_eq_of_pos ?_).symm⟩
  omega

theorem range_start_kernel {addr : BitVec 32} (h : addr.toNat < 0x1000000) :
    pageDown addr.toNat / 4096 < 4096 := by
  unfold pageDown
  omega

theorem range_walk_user {addr length : BitVec 32} (h : 0x1000000 ≤ addr.toNat) (k : Nat)
    (hk : k < (rangeEnd addr length - pageDown addr.toNat) / 4096) :
    UserPage (pageNo (pageDown addr.toNat) k) := by
  have hle := range_walk_le addr length
  rw [pageNo_of_le hle hk]
  unfold UserPage pageDown at *
  omega

/-- `sys_munmap` spares the kernel half when its range does. -/
theorem sysMunmap_spared_iff
    (ho : Owned kernel s dirs) (hk : KernelHalf kernel kpt s dirs) (hd : t.pdir ∈ dirs)
    (addr length : BitVec 32) :
    KernelSpared kpt dirs t.pdir s (sysMunmap s t addr length).2.1 ↔
      rangeEnd addr length ≤ pageDown addr.toNat ∨
        0x1000000 ≤ addr.toNat := by
  have hrange : (sysMunmap s t addr length).2.1 =
      undoRange s t.pdir (pageDown addr.toNat)
        ((rangeEnd addr length - pageDown addr.toNat) / 4096) :=
    munmapRange_eq_undoRange (range_walk_le addr length)
  rw [hrange]
  constructor
  · intro hspared
    by_contra hno
    rw [not_or, Nat.not_le, Nat.not_le] at hno
    obtain ⟨hne, hlow⟩ := hno
    obtain ⟨n, hn⟩ := range_walk_succ (Nat.not_le.mpr hne)
    have hva := range_start_kernel hlow
    have hclear := hk.undoRange_clears hd (pageDown_lt addr) hva n
    rw [hn] at hspared
    rw [hspared.word_eq hk hd hva] at hclear
    have hpres := present_mkEntry hva tableFlags_lt
    rw [hclear] at hpres
    simp at hpres
  · rintro (hempty | hhigh)
    · have hzero :
          (rangeEnd addr length - pageDown addr.toNat) / 4096 = 0 := by
        omega
      rw [hzero]
      exact ho.userEdit_refl.kernelSpared hk
    · exact (undoRange_spec ho hd _
        (range_walk_user hhigh)).kernelSpared hk

theorem protToPageFlags_eq_tableFlags_iff (prot : BitVec 32) :
    protToPageFlags prot = tableFlags ↔ prot &&& protWrite ≠ 0#32 := by
  unfold protToPageFlags
  by_cases hzero : prot = 0#32
  · subst hzero
    decide
  · rw [if_neg hzero]
    by_cases hwrite : prot &&& protWrite = 0#32
    · simp only [hwrite]
      decide
    · simp only [hwrite, ne_eq]
      decide

/-- `sys_mprotect` spares the kernel half when its range does or it adds writing. -/
theorem sysMprotect_spared_iff
    (ho : Owned kernel s dirs) (hk : KernelHalf kernel kpt s dirs) (hd : t.pdir ∈ dirs)
    (addr length prot : BitVec 32) :
    KernelSpared kpt dirs t.pdir s (sysMprotect s t addr length prot).2.1 ↔
      rangeEnd addr length ≤ pageDown addr.toNat ∨
        0x1000000 ≤ addr.toNat ∨ prot &&& protWrite ≠ 0#32 := by
  have hle := range_walk_le addr length
  have hflags := protToPageFlags_lt prot
  rw [← protToPageFlags_eq_tableFlags_iff]
  constructor
  · intro hspared
    by_contra hno
    rw [not_or, not_or, Nat.not_le, Nat.not_le] at hno
    obtain ⟨hne, hlow, hprot⟩ := hno
    obtain ⟨n, hn⟩ := range_walk_succ (Nat.not_le.mpr hne)
    have hva := range_start_kernel hlow
    have hword := hspared.word_eq hk hd hva
    rw [hn] at hle
    unfold sysMprotect at hword
    dsimp only at hword
    rw [hn, (hk.mprotectRange_first ho hd hva n hle).2] at hword
    have hsame := congrArg entryFlags hword
    rw [entryFlags_mkEntry hva hflags, entryFlags_mkEntry hva tableFlags_lt] at hsame
    exact hprot hsame
  · intro hcond
    by_cases hempty : rangeEnd addr length ≤ pageDown addr.toNat
    · have hzero :
          (rangeEnd addr length - pageDown addr.toNat) / 4096 = 0 := by
        omega
      unfold sysMprotect
      dsimp only
      rw [hzero]
      exact ho.userEdit_refl.kernelSpared hk
    · refine (mprotectRange_spec ho hd hflags _ hle ?_).kernelSpared hk
      intro k hk'
      rcases userPage_or_kernel (pageDown addr.toNat) k with huser | hkern
      · exact Or.inl huser
      · right
        refine ⟨not_userPage hkern, ?_⟩
        intro s' new hedit
        rcases hcond with h | h | h
        · exact absurd h hempty
        · exact absurd (range_walk_user h k hk') (not_userPage hkern)
        · rw [h]
          apply (hk.of_edit hedit).mprotectPage_same hd
          rw [← pageAddr_of_le hle hk']
          exact hkern

/--
Which memory calls spare the shared kernel half: `sys_mmap2` and `sys_brk`
always, `sys_munmap` and `sys_mprotect` only under a condition on the range
that the source does not test.
-/
theorem memory_calls_spare_kernel_iff
    (ho : Owned kernel s dirs) (hk : KernelHalf kernel kpt s dirs) (hd : t.pdir ∈ dirs)
    (addr length prot flags : BitVec 32) :
    (KernelSpared kpt dirs t.pdir s (sysMunmap s t addr length).2.1 ↔
        rangeEnd addr length ≤ pageDown addr.toNat ∨
          0x1000000 ≤ addr.toNat) ∧
      (KernelSpared kpt dirs t.pdir s
          (sysMprotect s t addr length prot).2.1 ↔
        rangeEnd addr length ≤ pageDown addr.toNat ∨
          0x1000000 ≤ addr.toNat ∨ prot &&& protWrite ≠ 0#32) ∧
      KernelSpared kpt dirs t.pdir s
        (sysMmap2 s t addr length prot flags).2.1 ∧
      KernelSpared kpt dirs t.pdir s (sysBrk s t addr).2.1 :=
  ⟨sysMunmap_spared_iff ho hk hd addr length,
    sysMprotect_spared_iff ho hk hd addr length prot,
    sysMmap2_spared ho hk hd addr length prot flags,
    sysBrk_spared ho hk hd addr⟩

/-- Frame 0, four kernel tables and a directory, all set up as at boot. -/
def bootedSpace : State where
  frameBitmap := update (fun _ => 0) 0 0x3F
  mem := fun f i =>
    if 1 ≤ f ∧ f ≤ 4 then mkEntry ((f - 1) * dirSize + i) tableFlags
    else if f = 5 ∧ i < 4 then mkEntry (i + 1) tableFlags
    else 0#32

/-- The task of that directory, with an empty heap at 128 MiB. -/
def bootedTask : MmTask where
  pdir := 5
  brkStart := 0x8000000#32
  programBreak := 0x8000000#32
  vmas := .empty

theorem bootedSpace_start :
    MmStart (· < 5) bootedSpace [5] where
  kernelZero := by decide
  kernelUsed := by
    intro f hf
    have hcases : f = 0 ∨ f = 1 ∨ f = 2 ∨ f = 3 ∨ f = 4 := by omega
    rcases hcases with rfl | rfl | rfl | rfl | rfl
    all_goals decide
  dirUsed := by
    intro d hd
    obtain rfl : d = 5 := by simpa using hd
    decide
  empty := by
    intro d hd i hlo _
    obtain rfl : d = 5 := by simpa using hd
    have hi : ¬ i < 4 := by omega
    simp [bootedSpace, hi]

theorem bootedSpace_kernelHalf :
    KernelHalf (· < 5) (· + 1) bootedSpace [5] where
  isKernel := by
    intro i hi
    omega
  notDir := by
    intro i hi
    simp only [List.mem_singleton]
    omega
  lt := by
    intro i hi
    unfold identPages
    omega
  entry := by
    intro d hd i hi
    obtain rfl : d = 5 := by simpa using hd
    simp [bootedSpace, hi]
  ident := by
    intro i j hi hj
    have hlow : 1 ≤ i + 1 ∧ i + 1 ≤ 4 := by omega
    simp [bootedSpace, hlow]

/-- Unmapping at 1 GiB and growing the heap up to there spare the kernel half. -/
theorem memory_calls_spare_kernel_iff_booted :
    KernelSpared (· + 1) [5] 5 bootedSpace
      (sysMunmap bootedSpace bootedTask 0x40000000 0x1000).2.1 ∧
    KernelSpared (· + 1) [5] 5 bootedSpace
      (sysBrk bootedSpace bootedTask 0x40000000).2.1 := by
  have h := memory_calls_spare_kernel_iff (t := bootedTask)
    bootedSpace_start.owned bootedSpace_kernelHalf (by decide)
    0x40000000 0x1000 0 0
  exact ⟨h.1.mpr (Or.inr (by decide)), h.2.2.2⟩

/-- `munmap(0x100000, 0x1000)` clears a shared entry. -/
theorem sysMunmap_breaks_kernel :
    (sysMunmap bootedSpace bootedTask 0x100000 0x1000).1 = 0 ∧
      bootedSpace.mem 1 256 = mkEntry 256 tableFlags ∧
      (sysMunmap bootedSpace bootedTask 0x100000 0x1000).2.1.mem 1 256 =
        0#32 ∧
      ¬ KernelSpared (· + 1) [5] 5 bootedSpace
        (sysMunmap bootedSpace bootedTask 0x100000 0x1000).2.1 := by
  have hclear : (sysMunmap bootedSpace bootedTask
      0x100000 0x1000).2.1.mem 1 256 = 0#32 := by
    decide +kernel
  have hold : bootedSpace.mem 1 256 = mkEntry 256 tableFlags := by decide +kernel
  refine ⟨rfl, hold, hclear, ?_⟩
  intro hspared
  have hsame := hspared.tables 0 256 (by decide) (by decide)
  revert hsame
  decide

end Calls

end Mm
end Homunculos
