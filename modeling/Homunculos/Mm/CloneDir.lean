import Homunculos.Mm.Clone

/-!
# Cloned directories and the run of the memory manager

The outer loop of `mm_clone_pdir`, and from it the ownership invariant over
every run of `mm_alloc_at`, `mm_unmap_at` and `mm_clone_pdir` on any number of
page directories.

The new directory is not zeroed before the loop fills it, so in the middle of
the loop only its slots below the loop index mean anything; `DirClone` speaks
about these.
-/

namespace Homunculos
namespace Mm

/-- Directory index of a slot. -/
def Ref.pd : Ref → Nat
  | .table _ i => i
  | .page _ i _ => i

/-- The first `n` user entries of directory `c` are a clone of those of `parent`. -/
structure DirClone (s s' : State) (parent c n : Nat) : Prop where
  grown : Grown s s' (fun f => f = c ∨ RangeFrames s' c n f)
  low : ∀ i, i < 4 → s'.mem c i = s.mem parent i
  flags : ∀ k, k < n →
    entryFlags (s'.mem c (4 + k)) = entryFlags (s.mem parent (4 + k))
  entry : ∀ k, k < n → present (s.mem parent (4 + k)) = true →
    ∀ j, j < dirSize →
      EntryClone s s' (pte s parent (4 + k) j) (pte s' c (4 + k) j)
  ne : ∀ r : Ref, r.Live s' [c] → r.pd < 4 + n → r.frame s' ≠ c
  inj : ∀ r r' : Ref, r.Live s' [c] → r'.Live s' [c] →
    r.pd < 4 + n → r'.pd < 4 + n →
    r.frame s' = r'.frame s' → r = r'

section Child

variable {s s' s₂ : State} {parent c n : Nat}

theorem Ref.Live.single {r : Ref} (hr : r.Live s [c]) :
    ∃ i, r.pd = i ∧ 4 ≤ i ∧ i < dirSize ∧ present (s.mem c i) = true ∧
      (r = .table c i ∨ ∃ j, r = .page c i j ∧ j < dirSize ∧ present (pte s c i j) = true) := by
  cases r with
  | table d i =>
    obtain ⟨hd, hlo, hhi, hpres⟩ := hr
    obtain rfl := List.mem_singleton.mp hd
    exact ⟨i, rfl, hlo, hhi, hpres, Or.inl rfl⟩
  | page d i j =>
    obtain ⟨⟨hd, hlo, hhi, hpres⟩, hj, hpage⟩ := hr
    obtain rfl := List.mem_singleton.mp hd
    exact ⟨i, rfl, hlo, hhi, hpres, Or.inr ⟨j, rfl, hj, hpage⟩⟩

theorem rangeFrames_of_live (r : Ref) (hr : r.Live s' [c]) (hpd : r.pd < 4 + n) :
    RangeFrames s' c n (r.frame s') := by
  obtain ⟨i, hi, hlo, -, hpres, hcases⟩ := hr.single
  refine ⟨i - 4, by omega, ?_⟩
  rw [show 4 + (i - 4) = i by omega]
  refine ⟨hpres, ?_⟩
  rcases hcases with rfl | ⟨j, rfl, hj, hpage⟩
  · exact Or.inl rfl
  · exact Or.inr ⟨j, hj, hpage, rfl⟩

variable (h : DirClone s s' parent c n)
include h

theorem DirClone.live_used (r : Ref) (hr : r.Live s' [c]) (hpd : r.pd < 4 + n) :
    bitmapTest s' (r.frame s') = true :=
  (h.grown.used _).mpr
    (Or.inr (Or.inr (rangeFrames_of_live r hr hpd)))

theorem DirClone.child_used :
    bitmapTest s' c = true :=
  (h.grown.used c).mpr (Or.inr (Or.inl rfl))

variable (hbound : 4 + n ≤ dirSize)
include hbound

theorem DirClone.old_table {k : Nat}
    (hmem : ∀ f, bitmapTest s' f = true → f ≠ c → s₂.mem f = s'.mem f) (hk : k < n)
    (hpres : present (s'.mem c (4 + k)) = true) :
    s₂.mem (entryFrame (s'.mem c (4 + k))) =
      s'.mem (entryFrame (s'.mem c (4 + k))) := by
  have hlive : (Ref.table c (4 + k)).Live s' [c] :=
    ⟨by simp, by omega, by omega, hpres⟩
  have hpd : (Ref.table c (4 + k)).pd < 4 + n := by
    simp only [Ref.pd]
    omega
  exact hmem _ (h.live_used _ hlive hpd) (h.ne _ hlive hpd)

variable (hrow : ∀ k, k < n → s₂.mem c (4 + k) = s'.mem c (4 + k))
variable (hmem : ∀ f, bitmapTest s' f = true → f ≠ c → s₂.mem f = s'.mem f)
include hrow hmem

theorem DirClone.old_live (r : Ref) (hr : r.Live s₂ [c]) (hpd : r.pd < 4 + n) :
    r.Live s' [c] ∧ r.frame s₂ = r.frame s' := by
  obtain ⟨i, hi, hlo, hhi, hpres, hcases⟩ := hr.single
  have hent := hrow (i - 4) (by omega)
  have htab := h.old_table (k := i - 4) hbound hmem (by omega)
  rw [show 4 + (i - 4) = i by omega] at hent htab
  rw [hent] at hpres
  rcases hcases with rfl | ⟨j, rfl, hj, hpage⟩
  · exact ⟨⟨List.mem_singleton_self c, hlo, hhi, hpres⟩, congrArg entryFrame hent⟩
  · have hpte : pte s₂ c i j = pte s' c i j := by
      unfold pte
      rw [hent, htab hpres]
    rw [hpte] at hpage
    exact ⟨⟨⟨List.mem_singleton_self c, hlo, hhi, hpres⟩, hj, hpage⟩, congrArg entryFrame hpte⟩

theorem DirClone.old_frames (f : Nat) :
    RangeFrames s₂ c n f ↔ RangeFrames s' c n f := by
  have htables : ∀ k, k < n → present (s'.mem c (4 + k)) = true →
      (TableFrames s₂ (entryFrame (s'.mem c (4 + k))) dirSize f ↔
        TableFrames s' (entryFrame (s'.mem c (4 + k))) dirSize f) := by
    intro k hk hpres
    unfold TableFrames EntryFrames
    rw [h.old_table hbound hmem hk hpres]
  constructor
  · rintro ⟨k, hk, hpres, hf⟩
    rw [hrow k hk] at hpres hf
    exact ⟨k, hk, hpres, (htables k hk hpres).mp hf⟩
  · rintro ⟨k, hk, hpres, hf⟩
    refine ⟨k, hk, ?_, ?_⟩
    · rw [hrow k hk]
      exact hpres
    · rw [hrow k hk]
      exact (htables k hk hpres).mpr hf

theorem DirClone.old_entry {k j : Nat} (hk : k < n)
    (hpres : present (s.mem parent (4 + k)) = true) (hj : j < dirSize) :
    EntryClone s s₂ (pte s parent (4 + k) j) (pte s₂ c (4 + k) j) := by
  have hold := h.entry k hk hpres j hj
  have hpres' : present (s'.mem c (4 + k)) = true := by
    rw [← present_entryFlags, h.flags k hk, present_entryFlags]
    exact hpres
  have hpte : pte s₂ c (4 + k) j = pte s' c (4 + k) j := by
    unfold pte
    rw [hrow k hk, h.old_table hbound hmem hk hpres']
  rw [hpte]
  refine ⟨hold.flags, ?_, hold.absent⟩
  intro hpage
  have hlive : (Ref.page c (4 + k) j).Live s' [c] :=
    ⟨⟨by simp, by omega, by omega, hpres'⟩, hj,
      hold.present_eq.trans hpage⟩
  have hpd : (Ref.page c (4 + k) j).pd < 4 + n := by
    simp only [Ref.pd]
    omega
  have hkeep := hmem _ (h.live_used _ hlive hpd) (h.ne _ hlive hpd)
  simp only [Ref.frame] at hkeep
  rw [hkeep]
  exact hold.bytes hpage

omit hmem hrow hbound h

theorem dirClone_zero (hlt : c < identPages) (hfree : bitmapTest s c = false) :
    DirClone s (copyKernelEntries (bitmapSet s c) c parent) parent c 0 := by
  have hset := grown_bitmapSet hlt hfree
  refine ⟨?_, ?_, ?_, ?_, ?_, ?_⟩
  · refine Grown.congr (A := fun f => f = c)
      ⟨hset.used, hset.fresh, hset.lt, ?_⟩ ?_
    · intro f hf
      have hne : f ≠ c := by
        rintro rfl
        rw [hf] at hfree
        cases hfree
      simp [copyKernelEntries, hne]
    · intro f
      constructor
      · exact Or.inl
      · rintro (hf | ⟨k, hk, _⟩)
        · exact hf
        · omega
  · intro i hi
    simp [copyKernelEntries, hi]
  · intro k hk
    omega
  · intro k hk
    omega
  · intro r hr hpd
    obtain ⟨i, hi, hlo, -⟩ := hr.single
    omega
  · intro r r' hr _ hpd
    obtain ⟨i, hi, hlo, -⟩ := hr.single
    omega

theorem DirClone.step_absent
    (h : DirClone s s' parent c n) (hbound : 4 + n < dirSize) (hparent : bitmapTest s parent = true)
    (habs : present (s.mem parent (4 + n)) = false) :
    DirClone s (setWord s' c (4 + n) (s'.mem parent (4 + n)))
      parent c (n + 1) := by
  have hpar : s'.mem parent = s.mem parent := h.grown.mem parent hparent
  rw [hpar]
  have hself :
      (setWord s' c (4 + n) (s.mem parent (4 + n))).mem c (4 + n) =
        s.mem parent (4 + n) := by
    simp
  have hrow : ∀ k, k < n →
      (setWord s' c (4 + n) (s.mem parent (4 + n))).mem c (4 + k) =
        s'.mem c (4 + k) := by
    intro k hk
    rw [mem_setWord_self, Function.update_of_ne (by omega)]
  have hmem : ∀ f, bitmapTest s' f = true → f ≠ c →
      (setWord s' c (4 + n) (s.mem parent (4 + n))).mem f = s'.mem f :=
    fun f _ hne => mem_setWord_of_ne _ _ _ hne
  have hnotHere : ∀ r : Ref,
      r.Live (setWord s' c (4 + n) (s.mem parent (4 + n))) [c] →
      r.pd < 4 + (n + 1) → r.pd < 4 + n := by
    intro r hr hpd
    rcases Nat.lt_succ_iff_lt_or_eq.mp hpd with hlt | heq
    · exact hlt
    · obtain ⟨i, hi, -, -, hpres, -⟩ := hr.single
      obtain rfl : i = 4 + n := hi.symm.trans heq
      rw [hself, habs] at hpres
      cases hpres
  have hle : 4 + n ≤ dirSize := by omega
  refine ⟨?_, ?_, ?_, ?_, ?_, ?_⟩
  · apply (h.grown.setWord (Or.inl rfl) (4 + n) _).congr
    intro f
    rw [rangeFrames_succ, h.old_frames hle hrow hmem f, hself, habs]
    simp
  · intro i hi
    rw [mem_setWord_self, Function.update_of_ne (by omega)]
    exact h.low i hi
  · intro k hk
    rcases Nat.lt_succ_iff_lt_or_eq.mp hk with hlt | rfl
    · rw [hrow k hlt]
      exact h.flags k hlt
    · rw [hself]
  · intro k hk hpres j hj
    rcases Nat.lt_succ_iff_lt_or_eq.mp hk with hlt | rfl
    · exact h.old_entry hle hrow hmem hlt hpres hj
    · rw [habs] at hpres
      cases hpres
  · intro r hr hpd
    have hpd' := hnotHere r hr hpd
    obtain ⟨hr', hf⟩ := h.old_live hle hrow hmem r hr hpd'
    rw [hf]
    exact h.ne r hr' hpd'
  · intro r q hr hq hrpd hqpd heq
    have hrpd' := hnotHere r hr hrpd
    have hqpd' := hnotHere q hq hqpd
    obtain ⟨hr', hf⟩ := h.old_live hle hrow hmem r hr hrpd'
    obtain ⟨hq', hg⟩ := h.old_live hle hrow hmem q hq hqpd'
    rw [hf, hg] at heq
    exact h.inj r q hr' hq' hrpd' hqpd' heq

theorem live_at_new
    {t : Nat} {e : BitVec 32} (hentry : s₂.mem c (4 + n) = e) (hframe : entryFrame e = t) (r : Ref)
    (hr : r.Live s₂ [c]) (hpd : r.pd = 4 + n) :
    (r = .table c (4 + n) ∧ r.frame s₂ = t) ∨
      ∃ j, r = .page c (4 + n) j ∧ j < dirSize ∧
        present (s₂.mem t j) = true ∧
        r.frame s₂ = entryFrame (s₂.mem t j) := by
  obtain ⟨i, hi, -, -, -, hcases⟩ := hr.single
  obtain rfl : i = 4 + n := hi.symm.trans hpd
  rcases hcases with rfl | ⟨j, rfl, hj, hpage⟩
  · exact Or.inl ⟨rfl, (congrArg entryFrame hentry).trans hframe⟩
  · have hpte : pte s₂ c (4 + n) j = s₂.mem t j := by
      unfold pte
      rw [hentry, hframe]
    rw [hpte] at hpage
    exact Or.inr ⟨j, rfl, hj, hpage, congrArg entryFrame hpte⟩

/-- Entry `n` of directory `c` gets table `t`, which was cloned into `s₁`. -/
structure Installed (s' s₁ s₂ : State) (c n t : Nat) : Prop where
  frame : entryFrame (s₂.mem c (4 + n)) = t
  row : ∀ i, i ≠ 4 + n → s₂.mem c i = s'.mem c i
  other : ∀ f, f ≠ c → s₂.mem f = s₁.mem f

end Child

section Install

variable {s s' s₁ s₂ : State} {parent c n p t : Nat}

theorem installed_setWord
    {e : BitVec 32} (h : DirClone s s' parent c n) (ht : TableClone s' s₁ p t dirSize)
    (hframe : entryFrame e = t) :
    Installed s' s₁ (setWord s₁ c (4 + n) e) c n t := by
  refine ⟨?_, ?_, ?_⟩
  · simp [hframe]
  · intro i hi
    rw [mem_setWord_self, Function.update_of_ne hi, ht.grown.keeps.mem c h.child_used]
  · intro f hne
    rw [mem_setWord_of_ne _ _ _ hne]

theorem Installed.row_old (hi : Installed s' s₁ s₂ c n t) (k : Nat) (hk : k < n) :
    s₂.mem c (4 + k) = s'.mem c (4 + k) :=
  hi.row (4 + k) (by omega)

theorem Installed.mem_old
    (hi : Installed s' s₁ s₂ c n t) (ht : TableClone s' s₁ p t dirSize) (f : Nat)
    (hf : bitmapTest s' f = true) (hne : f ≠ c) :
    s₂.mem f = s'.mem f := by
  rw [hi.other f hne, ht.grown.keeps.mem f hf]

variable (h : DirClone s s' parent c n) (ht : TableClone s' s₁ p t dirSize)
include h ht

theorem DirClone.ne_child {f : Nat} (hf : TableFrames s₁ t dirSize f) :
    f ≠ c := by
  rintro rfl
  have hclear := ht.grown.fresh _ hf
  rw [h.child_used] at hclear
  cases hclear

theorem DirClone.installed_table (hi : Installed s' s₁ s₂ c n t) :
    s₂.mem t = s₁.mem t :=
  hi.other t (h.ne_child ht (Or.inl rfl))

theorem DirClone.live_installed
    (hi : Installed s' s₁ s₂ c n t) (hbound : 4 + n ≤ dirSize) (r : Ref) (hr : r.Live s₂ [c])
    (hpd : r.pd < 4 + (n + 1)) :
    (r.pd < 4 + n ∧ r.Live s' [c] ∧ r.frame s₂ = r.frame s') ∨
      ((r = .table c (4 + n) ∧ r.frame s₂ = t) ∨
        ∃ j, r = .page c (4 + n) j ∧ j < dirSize ∧
          present (s₁.mem t j) = true ∧
          r.frame s₂ = entryFrame (s₁.mem t j)) := by
  rcases Nat.lt_succ_iff_lt_or_eq.mp hpd with hlt | heq
  · exact Or.inl
      ⟨hlt, h.old_live hbound hi.row_old (hi.mem_old ht) r hr hlt⟩
  · right
    have hat := live_at_new rfl hi.frame r hr heq
    rw [h.installed_table ht hi] at hat
    exact hat

omit h ht in
theorem tableFrames_of_new {r : Ref} {f : Nat}
    (hnew : (r = .table c (4 + n) ∧ f = t) ∨
      ∃ j, r = .page c (4 + n) j ∧ j < dirSize ∧ present (s₁.mem t j) = true ∧
        f = entryFrame (s₁.mem t j)) :
    TableFrames s₁ t dirSize f := by
  rcases hnew with ⟨-, rfl⟩ | ⟨j, -, hj, hpj, rfl⟩
  · exact Or.inl rfl
  · exact Or.inr ⟨j, hj, hpj, rfl⟩

theorem DirClone.old_ne_new {f : Nat} {r : Ref}
    (hr : r.Live s' [c]) (hpd : r.pd < 4 + n) (hf : TableFrames s₁ t dirSize f) :
    r.frame s' ≠ f := by
  rintro rfl
  have hused := h.live_used r hr hpd
  rw [ht.grown.fresh _ hf] at hused
  cases hused

theorem DirClone.installed_ne
    (hi : Installed s' s₁ s₂ c n t) (hbound : 4 + n ≤ dirSize) (r : Ref) (hr : r.Live s₂ [c])
    (hpd : r.pd < 4 + (n + 1)) :
    r.frame s₂ ≠ c := by
  rcases h.live_installed ht hi hbound r hr hpd with ⟨hlt, hr', hf⟩ | hnew
  · rw [hf]
    exact h.ne r hr' hlt
  · exact h.ne_child ht (tableFrames_of_new hnew)

theorem DirClone.installed_inj
    (hi : Installed s' s₁ s₂ c n t) (hbound : 4 + n ≤ dirSize) (r q : Ref) (hr : r.Live s₂ [c])
    (hq : q.Live s₂ [c]) (hrpd : r.pd < 4 + (n + 1)) (hqpd : q.pd < 4 + (n + 1))
    (heq : r.frame s₂ = q.frame s₂) :
    r = q := by
  rcases h.live_installed ht hi hbound r hr hrpd with ⟨hrlt, hr', hf⟩ | hnew
  · rcases h.live_installed ht hi hbound q hq hqpd with ⟨hqlt, hq', hg⟩ | hnew'
    · rw [hf, hg] at heq
      exact h.inj r q hr' hq' hrlt hqlt heq
    · exact absurd (hf.symm.trans heq) (h.old_ne_new ht hr' hrlt (tableFrames_of_new hnew'))
  · rcases h.live_installed ht hi hbound q hq hqpd with ⟨hqlt, hq', hg⟩ | hnew'
    · exact absurd (hg.symm.trans heq.symm)
        (h.old_ne_new ht hq' hqlt (tableFrames_of_new hnew))
    · rcases hnew with ⟨rfl, hf⟩ | ⟨j, rfl, hj, hpj, hf⟩
      · rcases hnew' with ⟨rfl, -⟩ | ⟨k, rfl, hk, hpk, hg⟩
        · rfl
        · exact absurd (hg.symm.trans (heq.symm.trans hf)) (ht.notTable k hk hpk)
      · rcases hnew' with ⟨rfl, hg⟩ | ⟨k, rfl, hk, hpk, hg⟩
        · exact absurd (hf.symm.trans (heq.trans hg)) (ht.notTable j hj hpj)
        · rw [ht.inj j k hj hk hpj hpk (hf.symm.trans (heq.trans hg))]

omit ht

variable (hppt : bitmapTest s (entryFrame (s.mem parent (4 + n))) = true)
variable (hpages : ∀ j, j < dirSize → present (pte s parent (4 + n) j) = true →
  bitmapTest s (entryFrame (pte s parent (4 + n) j)) = true)
include hppt hpages

theorem DirClone.installed_entry
    (ht : TableClone s' s₁ (entryFrame (s.mem parent (4 + n))) t dirSize)
    (hi : Installed s' s₁ s₂ c n t) {j : Nat} (hj : j < dirSize) :
    EntryClone s s₂ (pte s parent (4 + n) j) (pte s₂ c (4 + n) j) := by
  have hent := ht.entry j hj
  rw [h.grown.mem _ hppt] at hent
  have hpte : pte s₂ c (4 + n) j = s₁.mem t j := by
    unfold pte
    rw [hi.frame, h.installed_table ht hi]
  rw [hpte]
  refine ⟨hent.flags, ?_, hent.absent⟩
  intro hpage
  have hpj := hent.present_eq.trans hpage
  rw [hi.other _ (h.ne_child ht (Or.inr ⟨j, hj, hpj, rfl⟩)), hent.bytes hpage]
  exact h.grown.mem _ (hpages j hj hpage)

theorem DirClone.step_present (hbound : 4 + n < dirSize)
    (hpres : present (s.mem parent (4 + n)) = true) (htlt : t < identPages)
    (ht : TableClone s' s₁ (entryFrame (s.mem parent (4 + n))) t dirSize) :
    DirClone s (setWord s₁ c (4 + n) (mkEntry t (entryFlags (s.mem parent (4 + n)))))
      parent c (n + 1) := by
  have hfl := entryFlags_lt (s.mem parent (4 + n))
  have hi := installed_setWord h ht (entryFrame_mkEntry htlt hfl)
  have hgrown := (h.grown.trans ht.grown).setWord
    (Or.inl (Or.inl rfl)) (4 + n)
    (mkEntry t (entryFlags (s.mem parent (4 + n))))
  have hself : (setWord s₁ c (4 + n)
      (mkEntry t (entryFlags (s.mem parent (4 + n))))).mem c (4 + n) =
        mkEntry t (entryFlags (s.mem parent (4 + n))) := by
    simp
  generalize setWord s₁ c (4 + n)
    (mkEntry t (entryFlags (s.mem parent (4 + n)))) = s₂ at hi hgrown hself ⊢
  have hle : 4 + n ≤ dirSize := by omega
  have hmade : present (s₂.mem c (4 + n)) = true := by
    rw [hself, present_mkEntry htlt hfl, present_entryFlags]
    exact hpres
  refine ⟨?_, ?_, ?_, ?_, h.installed_ne ht hi hle, h.installed_inj ht hi hle⟩
  · apply hgrown.congr
    intro f
    have hsame : TableFrames s₂ t dirSize f ↔
        TableFrames s₁ t dirSize f := by
      unfold TableFrames EntryFrames
      rw [h.installed_table ht hi]
    rw [rangeFrames_succ, h.old_frames hle hi.row_old (hi.mem_old ht) f, hmade, hi.frame, hsame]
    simp only [true_and, or_assoc]
  · intro i hlow
    rw [hi.row i (by omega)]
    exact h.low i hlow
  · intro k hk
    rcases Nat.lt_succ_iff_lt_or_eq.mp hk with hlt | rfl
    · rw [hi.row_old k hlt]
      exact h.flags k hlt
    · rw [hself]
      exact entryFlags_mkEntry htlt hfl
  · intro k hk hpk j hj
    rcases Nat.lt_succ_iff_lt_or_eq.mp hk with hlt | rfl
    · exact h.old_entry hle hi.row_old (hi.mem_old ht) hlt hpk hj
    · exact h.installed_entry hppt hpages ht hi hj

end Install

section Undo

variable {s s' : State} {parent c n : Nat}

theorem DirClone.undo
    {e : State} (h : DirClone s s' parent c n) (hbound : 4 + n ≤ dirSize) (he : SameUse s' e) :
    SameUse s (mmFrameFree (freeClonedRange e c n) c) := by
  have hcu := h.child_used
  have hframes := h.old_frames hbound
    (fun k _ => by rw [he.mem c hcu])
    (fun f hf _ => he.mem f hf)
  have hgrown : Grown s e (fun f => f = c ∨ RangeFrames e c n f) := by
    refine Grown.congr (A := fun f => f = c ∨ RangeFrames s' c n f)
      ⟨?_, h.grown.fresh, h.grown.lt, ?_⟩ ?_
    · intro f
      rw [he.used f]
      exact h.grown.used f
    · intro f hf
      rw [he.mem f (h.grown.keeps.used f hf)]
      exact h.grown.mem f hf
    · intro f
      rw [hframes f]
  apply hgrown.undo
  · intro f
    exact bitmapTest_freeMore (hgrown.lt c (Or.inl rfl))
      (bitmapTest_freeClonedRange e c n (fun g hg => hgrown.lt g (Or.inr hg)) f)
  · rw [mem_mmFrameFree, mem_freeClonedRange]

end Undo

section Directory

variable {kernel : Nat → Prop} {s s' : State} {dirs : List Nat} {parent c : Nat}

/-- The loop of `mm_clone_pdir` over `n` entries clones them or undoes itself. -/
theorem cloneTables_spec (ho : Owned kernel s dirs) (hparent : parent ∈ dirs) (hlt : c < identPages)
    (hfree : bitmapTest s c = false) (n : Nat) (hn : 4 + n ≤ dirSize) :
    (∃ e, cloneTables (copyKernelEntries (bitmapSet s c) c parent)
          parent c n = .error e ∧ SameUse s e) ∨
      (∃ s', cloneTables (copyKernelEntries (bitmapSet s c) c parent)
          parent c n = .ok s' ∧ DirClone s s' parent c n) := by
  have hpu := ho.dirUsed parent hparent
  induction n with
  | zero => exact Or.inr ⟨_, rfl, dirClone_zero hlt hfree⟩
  | succ k ih =>
    rcases ih (by omega) with ⟨e, he, hsame⟩ | ⟨s', hs', hclone⟩
    · left
      refine ⟨e, ?_, hsame⟩
      simp only [cloneTables, he]
    · have hpar : s'.mem parent = s.mem parent :=
        hclone.grown.mem parent hpu
      have hkeep := hclone.grown.keeps
      by_cases hpres : present (s.mem parent (4 + k)) = true
      · have hpres' : present (s'.mem parent (4 + k)) = true := by
          rw [hpar]
          exact hpres
        have hlive : (Ref.table parent (4 + k)).Live s dirs :=
          ⟨hparent, by omega, by omega, hpres⟩
        have hppt : bitmapTest s
            (entryFrame (s.mem parent (4 + k))) = true :=
          ho.refUsed _ hlive
        have hpages : ∀ j, j < dirSize →
            present (pte s parent (4 + k) j) = true →
            bitmapTest s (entryFrame (pte s parent (4 + k) j)) =
              true := by
          intro j hj hpj
          exact ho.refUsed (.page parent (4 + k) j) ⟨hlive, hj, hpj⟩
        have hrow : s'.mem (entryFrame (s.mem parent (4 + k))) =
            s.mem (entryFrame (s.mem parent (4 + k))) :=
          hkeep.mem _ hppt
        have hpages' : ∀ j, j < dirSize →
            present (s'.mem (entryFrame (s'.mem parent (4 + k))) j) =
              true →
            bitmapTest s' (entryFrame (s'.mem (entryFrame (s'.mem parent (4 + k))) j)) =
              true := by
          intro j hj hpj
          rw [hpar, hrow] at hpj ⊢
          exact hkeep.used _ (hpages j hj hpj)
        have hppt' : bitmapTest s'
            (entryFrame (s'.mem parent (4 + k))) = true := by
          rw [hpar]
          exact hkeep.used _ hppt
        rcases clonePageTable_spec (hkeep.used 0 ho.zeroUsed)
            hppt' hpages' with
          ⟨e, he, hsame⟩ | ⟨t, s₁, htlt, hok, htab⟩
        · left
          refine ⟨_, ?_, hclone.undo (by omega) hsame⟩
          simp [cloneTables, hs', hpres', he]
        · right
          rw [hpar] at hok htab
          refine ⟨_, ?_, hclone.step_present hppt hpages (by omega) hpres htlt htab⟩
          simp [cloneTables, hs', hpar, hpres, hok]
      · have habs : present (s.mem parent (4 + k)) = false := by simpa using hpres
        have habs' : present (s'.mem parent (4 + k)) = false := by
          rw [hpar]
          exact habs
        right
        refine ⟨_, ?_, hclone.step_absent (by omega) hpu habs⟩
        simp [cloneTables, hs', habs']

/-- `mm_clone_pdir` clones every user entry or leaves what is in use alone. -/
theorem mmClonePdir_spec (ho : Owned kernel s dirs) (hparent : parent ∈ dirs) :
    ((mmClonePdir s parent).1 = 0 ∧ SameUse s (mmClonePdir s parent).2) ∨
      ((mmClonePdir s parent).1 ≠ 0 ∧
        (mmClonePdir s parent).1 < identPages ∧
        bitmapTest s (mmClonePdir s parent).1 = false ∧
        DirClone s (mmClonePdir s parent).2 parent
          (mmClonePdir s parent).1 (dirSize - 4)) := by
  rcases mmFrameAlloc_cases s ho.zeroUsed with
    hnone | ⟨c, hc0, hclt, hcfree, hc⟩
  · left
    simp [mmClonePdir, hnone, SameUse.refl]
  · rcases cloneTables_spec ho hparent hclt hcfree (dirSize - 4)
        (by decide) with ⟨e, he, hsame⟩ | ⟨s', hs', hclone⟩
    · left
      have hout : mmClonePdir s parent = (0, e) := by simp [mmClonePdir, hc, hc0, he]
      rw [hout]
      exact ⟨rfl, hsame⟩
    · right
      have hout : mmClonePdir s parent = (c, s') := by simp [mmClonePdir, hc, hc0, hs']
      rw [hout]
      exact ⟨hc0, hclt, hcfree, hclone⟩

theorem Ref.Live.pd_lt {r : Ref} (hr : r.Live s [c]) :
    r.pd < 4 + (dirSize - 4) := by
  obtain ⟨i, hi, -, hhi, -⟩ := hr.single
  omega

theorem Ref.Live.cons_cases {r : Ref} (hr : r.Live s (c :: dirs)) :
    r.Live s [c] ∨ r.Live s dirs := by
  cases r with
  | table d i =>
    obtain ⟨hd, hrest⟩ := hr
    rcases List.mem_cons.mp hd with rfl | hd
    · exact Or.inl ⟨by simp, hrest⟩
    · exact Or.inr ⟨hd, hrest⟩
  | page d i j =>
    obtain ⟨⟨hd, hrest⟩, hpage⟩ := hr
    rcases List.mem_cons.mp hd with rfl | hd
    · exact Or.inl ⟨⟨by simp, hrest⟩, hpage⟩
    · exact Or.inr ⟨⟨hd, hrest⟩, hpage⟩

/--
A directory joins the others without sharing, if everything that was in use before it
came is foreign to it.
-/
theorem Owned.join (ho : Owned kernel s dirs) (hkeep : Keeps s s') (hcfree : bitmapTest s c = false)
    (hnew : Owned (fun f => bitmapTest s f = true) s' [c]) :
    Owned kernel s' (c :: dirs) := by
  have ho' := ho.of_keeps hkeep
  -- frames of the new directory were clear, frames of the others were in use
  have hnewFresh : ∀ r : Ref, r.Live s' [c] →
      bitmapTest s (r.frame s') = false := by
    intro r hr
    exact Bool.eq_false_iff.mpr (hnew.refKernel r hr)
  have holdUsed : ∀ r : Ref, r.Live s' dirs →
      bitmapTest s (r.frame s') = true := by
    intro r hr
    obtain ⟨hr', hf⟩ := ho.live_of_keeps hkeep r hr
    rw [hf]
    exact ho.refUsed r hr'
  refine ⟨ho.kernelZero, ho'.kernelUsed, ?_, ?_, ?_, ?_, ?_, ?_⟩
  · exact List.forall_mem_cons.mpr ⟨hnew.dirUsed c List.mem_cons_self, ho'.dirUsed⟩
  · intro r hr
    rcases hr.cons_cases with hr | hr
    · exact hnew.refUsed r hr
    · exact ho'.refUsed r hr
  · intro r hr
    rcases hr.cons_cases with hr | hr
    · exact hnew.refLt r hr
    · exact ho'.refLt r hr
  · intro r hr
    rcases hr.cons_cases with hr | hr
    · intro hkern
      exact hnew.refKernel r hr (ho.kernelUsed _ hkern)
    · exact ho'.refKernel r hr
  · intro r hr hmem
    rcases hr.cons_cases with hr | hr
    · rcases List.mem_cons.mp hmem with heq | hmem
      · exact hnew.refDir r hr (List.mem_singleton.mpr heq)
      · exact hnew.refKernel r hr (ho.dirUsed _ hmem)
    · rcases List.mem_cons.mp hmem with heq | hmem
      · have hu := holdUsed r hr
        rw [heq, hcfree] at hu
        cases hu
      · exact ho'.refDir r hr hmem
  · intro r q hr hq heq
    rcases hr.cons_cases with hr | hr
    · rcases hq.cons_cases with hq | hq
      · exact hnew.refInj r q hr hq heq
      · have hu := holdUsed q hq
        rw [← heq, hnewFresh r hr] at hu
        cases hu
    · rcases hq.cons_cases with hq | hq
      · have hu := holdUsed r hr
        rw [heq, hnewFresh q hq] at hu
        cases hu
      · exact ho'.refInj r q hr hq heq

theorem DirClone.owned
    (hclone : DirClone s s' parent c (dirSize - 4)) (hzero : bitmapTest s 0 = true) :
    Owned (fun f => bitmapTest s f = true) s' [c] := by
  refine ⟨hzero, hclone.grown.keeps.used, ?_, ?_, ?_, ?_, ?_, ?_⟩
  · intro d hd
    rw [List.mem_singleton.mp hd]
    exact hclone.child_used
  · intro r hr
    exact hclone.live_used r hr hr.pd_lt
  · intro r hr
    exact hclone.grown.lt _ (Or.inr (rangeFrames_of_live r hr hr.pd_lt))
  · intro r hr
    exact Bool.eq_false_iff.mp
      (hclone.grown.fresh _ (Or.inr (rangeFrames_of_live r hr hr.pd_lt)))
  · intro r hr hmem
    exact hclone.ne r hr hr.pd_lt (List.mem_singleton.mp hmem)
  · intro r q hr hq heq
    exact hclone.inj r q hr hq hr.pd_lt hq.pd_lt heq

theorem Owned.clone (ho : Owned kernel s dirs) (hclone : DirClone s s' parent c (dirSize - 4)) :
    Owned kernel s' (c :: dirs) :=
  ho.join hclone.grown.keeps (hclone.grown.fresh c (Or.inl rfl)) (hclone.owned ho.zeroUsed)

end Directory

end Mm
end Homunculos
