import Homunculos.Mm.MapSpec

/-!
# Cloning a page directory

Specification of `clone_page_table` and `mm_clone_pdir`.  Relative to the
state before the call, everything that the clone writes lies in frames that
were clear then; `Grown` records which frames were taken.  On success these
are the frames of the new tables and pages, each taken once; on failure the
two undo loops give back exactly these.
-/

namespace Homunculos
namespace Mm

/-- From `s` to `s'` exactly the clear frames in `A` were taken. -/
structure Grown (s s' : State) (A : Nat → Prop) : Prop where
  used : ∀ f, bitmapTest s' f = true ↔ bitmapTest s f = true ∨ A f
  fresh : ∀ f, A f → bitmapTest s f = false
  lt : ∀ f, A f → f < identPages
  mem : ∀ f, bitmapTest s f = true → s'.mem f = s.mem f

section Grown

variable {s s' : State} {A B : Nat → Prop}

theorem Grown.keeps (h : Grown s s' A) :
    Keeps s s' :=
  ⟨fun f hf => (h.used f).mpr (Or.inl hf), h.mem⟩

theorem Grown.clear {f : Nat} (h : Grown s s' A) (hf : bitmapTest s' f = false) :
    bitmapTest s f = false ∧ ¬ A f := by
  have hu := h.used f
  rw [hf] at hu
  simp only [Bool.false_eq_true, false_iff, not_or] at hu
  exact ⟨by simpa using hu.1, hu.2⟩

theorem Grown.congr (h : Grown s s' A) (hAB : ∀ f, A f ↔ B f) :
    Grown s s' B := by
  refine ⟨?_, ?_, ?_, h.mem⟩
  · intro f
    rw [← hAB f]
    exact h.used f
  · intro f hf
    exact h.fresh f ((hAB f).mpr hf)
  · intro f hf
    exact h.lt f ((hAB f).mpr hf)

theorem Grown.trans {s'' : State} (h1 : Grown s s' A) (h2 : Grown s' s'' B) :
    Grown s s'' (fun f => A f ∨ B f) := by
  refine ⟨?_, ?_, ?_, ?_⟩
  · intro f
    rw [h2.used f, h1.used f, or_assoc]
  · rintro f (hf | hf)
    · exact h1.fresh f hf
    · exact (h1.clear (h2.fresh f hf)).1
  · rintro f (hf | hf)
    · exact h1.lt f hf
    · exact h2.lt f hf
  · intro f hf
    rw [h2.mem f ((h1.used f).mpr (Or.inl hf)), h1.mem f hf]

theorem Grown.setWord
    {frame : Nat} (h : Grown s s' A) (hframe : A frame) (idx : Nat) (v : BitVec 32) :
    Grown s (setWord s' frame idx v) A := by
  refine ⟨h.used, h.fresh, h.lt, ?_⟩
  intro f hf
  have hne : f ≠ frame := by
    rintro rfl
    rw [h.fresh f hframe] at hf
    cases hf
  rw [mem_setWord_of_ne _ _ _ hne]
  exact h.mem f hf

theorem grown_bitmapSet {p : Nat} (hlt : p < identPages) (hfree : bitmapTest s p = false) :
    Grown s (bitmapSet s p) (fun f => f = p) := by
  refine ⟨?_, ?_, ?_, fun _ _ => rfl⟩
  · intro f
    simp [or_comm]
  · rintro f rfl
    exact hfree
  · rintro f rfl
    exact hlt

theorem Grown.undo {e : State} (h : Grown s s' A)
    (hused : ∀ f, bitmapTest e f = true ↔ bitmapTest s' f = true ∧ ¬ A f)
    (hmem : e.mem = s'.mem) :
    SameUse s e := by
  refine ⟨?_, ?_⟩
  · intro f
    apply Bool.eq_iff_iff.mpr
    rw [hused f, h.used f]
    constructor
    · rintro ⟨hf | hf, hnot⟩
      · exact hf
      · exact absurd hf hnot
    · intro hf
      refine ⟨Or.inl hf, ?_⟩
      intro hA
      rw [h.fresh f hA] at hf
      cases hf
  · intro f hf
    rw [hmem]
    exact h.mem f hf

end Grown

/-- The entry `e'` is the clone of the entry `e`: same flags, copied page. -/
structure EntryClone (s s' : State) (e e' : BitVec 32) : Prop where
  flags : entryFlags e' = entryFlags e
  bytes : present e = true → s'.mem (entryFrame e') = s.mem (entryFrame e)
  absent : present e = false → e' = e

theorem EntryClone.present_eq {s s' : State} {e e' : BitVec 32} (h : EntryClone s s' e e') :
    present e' = present e := by
  rw [← present_entryFlags e', h.flags, present_entryFlags]

/-- The first `n` entries of table `t` are a clone of those of `ppt`. -/
structure TableClone (s s' : State) (ppt t n : Nat) : Prop where
  grown : Grown s s' (TableFrames s' t n)
  entry : ∀ j, j < n → EntryClone s s' (s.mem ppt j) (s'.mem t j)
  notTable : ∀ j, j < n → present (s'.mem t j) = true →
    entryFrame (s'.mem t j) ≠ t
  inj : ∀ j k, j < n → k < n →
    present (s'.mem t j) = true → present (s'.mem t k) = true →
    entryFrame (s'.mem t j) = entryFrame (s'.mem t k) → j = k

section Table

variable {s s' : State} {ppt t : Nat}

theorem tableClone_zero (hlt : t < identPages) (hfree : bitmapTest s t = false) :
    TableClone s (bitmapSet s t) ppt t 0 := by
  refine ⟨?_, ?_, ?_, ?_⟩
  · apply (grown_bitmapSet hlt hfree).congr
    intro f
    constructor
    · exact Or.inl
    · rintro (hf | ⟨j, hj, _⟩)
      · exact hf
      · omega
  · intro j hj
    omega
  · intro j hj
    omega
  · intro j k hj
    omega

theorem entryFrames_congr
    {s2 : State} {n : Nat} (hold : ∀ j, j < n → s2.mem t j = s'.mem t j) (f : Nat) :
    EntryFrames s2 t n f ↔ EntryFrames s' t n f := by
  constructor
  · rintro ⟨j, hj, hpres, hframe⟩
    rw [hold j hj] at hpres hframe
    exact ⟨j, hj, hpres, hframe⟩
  · rintro ⟨j, hj, hpres, hframe⟩
    rw [← hold j hj] at hpres hframe
    exact ⟨j, hj, hpres, hframe⟩

theorem TableClone.extend {s2 : State} {n : Nat} (h : TableClone s s' ppt t n)
    (hgrown : Grown s s2 (TableFrames s2 t (n + 1))) (hold : ∀ j, j < n → s2.mem t j = s'.mem t j)
    (hpages : ∀ j, j < n → present (s'.mem t j) = true →
      s2.mem (entryFrame (s'.mem t j)) = s'.mem (entryFrame (s'.mem t j)))
    (hentry : EntryClone s s2 (s.mem ppt n) (s2.mem t n))
    (hnew : present (s2.mem t n) = true →
      entryFrame (s2.mem t n) ≠ t ∧
        ∀ j, j < n → present (s'.mem t j) = true →
          entryFrame (s'.mem t j) ≠ entryFrame (s2.mem t n)) :
    TableClone s s2 ppt t (n + 1) := by
  refine ⟨hgrown, ?_, ?_, ?_⟩
  · intro j hj
    rcases Nat.lt_succ_iff_lt_or_eq.mp hj with hlt | rfl
    · have hj' := h.entry j hlt
      rw [hold j hlt]
      refine ⟨hj'.flags, ?_, hj'.absent⟩
      intro hpres
      rw [hpages j hlt (hj'.present_eq.trans hpres)]
      exact hj'.bytes hpres
    · exact hentry
  · intro j hj hpres
    rcases Nat.lt_succ_iff_lt_or_eq.mp hj with hlt | rfl
    · rw [hold j hlt] at hpres ⊢
      exact h.notTable j hlt hpres
    · exact (hnew hpres).1
  · intro j k hj hk hpj hpk heq
    rcases Nat.lt_succ_iff_lt_or_eq.mp hj with hjlt | rfl
    · rw [hold j hjlt] at hpj heq
      rcases Nat.lt_succ_iff_lt_or_eq.mp hk with hklt | rfl
      · rw [hold k hklt] at hpk heq
        exact h.inj j k hjlt hklt hpj hpk heq
      · exact absurd heq ((hnew hpk).2 j hjlt hpj)
    · rcases Nat.lt_succ_iff_lt_or_eq.mp hk with hklt | rfl
      · rw [hold k hklt] at hpk heq
        exact absurd heq.symm ((hnew hpj).2 k hklt hpk)
      · rfl

theorem TableClone.step_absent
    {n : Nat} (h : TableClone s s' ppt t n) (hppt : bitmapTest s ppt = true)
    (habs : present (s.mem ppt n) = false) :
    TableClone s (setWord s' t n (s'.mem ppt n)) ppt t (n + 1) := by
  have hpar : s'.mem ppt = s.mem ppt := h.grown.mem ppt hppt
  rw [hpar]
  have hself : (setWord s' t n (s.mem ppt n)).mem t n = s.mem ppt n := by simp
  have hold : ∀ j, j < n →
      (setWord s' t n (s.mem ppt n)).mem t j = s'.mem t j := by
    intro j hj
    rw [mem_setWord_self, Function.update_of_ne (by omega)]
  refine h.extend ?_ hold ?_ ?_ ?_
  · apply (h.grown.setWord (Or.inl rfl) n _).congr
    intro f
    unfold TableFrames
    rw [entryFrames_succ, hself, habs, entryFrames_congr hold]
    simp
  · intro j hj hpres
    rw [mem_setWord_of_ne _ _ _ (h.notTable j hj hpres)]
  · rw [hself]
    refine ⟨rfl, ?_, fun _ => rfl⟩
    intro hpres
    rw [habs] at hpres
    cases hpres
  · intro hpres
    rw [hself, habs] at hpres
    cases hpres

theorem grown_copyFrame
    {p : Nat} (hlt : p < identPages) (hfree : bitmapTest s p = false) (src : Nat) :
    Grown s (copyFrame (bitmapSet s p) p src) (fun f => f = p) := by
  have hset := grown_bitmapSet hlt hfree
  refine ⟨hset.used, hset.fresh, hset.lt, ?_⟩
  intro f hf
  have hfp : f ≠ p := by
    rintro rfl
    rw [hf] at hfree
    cases hfree
  rw [mem_copyFrame_of_ne _ _ hfp, mem_bitmapSet]

theorem TableClone.step_present
    {n p : Nat} (h : TableClone s s' ppt t n) (hppt : bitmapTest s ppt = true)
    (hpres : present (s.mem ppt n) = true) (hpage : bitmapTest s (entryFrame (s.mem ppt n)) = true)
    (hlt : p < identPages) (hfree : bitmapTest s' p = false) :
    TableClone s
      (setWord
        (copyFrame (bitmapSet s' p) p (entryFrame (s'.mem ppt n)))
        t n (mkEntry p (entryFlags (s'.mem ppt n))))
      ppt t (n + 1) := by
  have hpar : s'.mem ppt = s.mem ppt := h.grown.mem ppt hppt
  rw [hpar]
  obtain ⟨_, hnotA⟩ := h.grown.clear hfree
  have hpt : p ≠ t := fun heq => hnotA (Or.inl heq)
  have hfl := entryFlags_lt (s.mem ppt n)
  have hframe := entryFrame_mkEntry hlt hfl
  have hmade : present (mkEntry p (entryFlags (s.mem ppt n))) = true := by
    rw [present_mkEntry hlt hfl, present_entryFlags]
    exact hpres
  have hself :
      (setWord (copyFrame (bitmapSet s' p) p (entryFrame (s.mem ppt n)))
        t n (mkEntry p (entryFlags (s.mem ppt n)))).mem t n =
      mkEntry p (entryFlags (s.mem ppt n)) := by
    simp
  have hold : ∀ j, j < n →
      (setWord (copyFrame (bitmapSet s' p) p (entryFrame (s.mem ppt n)))
        t n (mkEntry p (entryFlags (s.mem ppt n)))).mem t j =
      s'.mem t j := by
    intro j hj
    rw [mem_setWord_self, Function.update_of_ne (by omega),
      mem_copyFrame_of_ne _ _ hpt.symm, mem_bitmapSet]
  have hnotEntry : ∀ j, j < n → present (s'.mem t j) = true →
      entryFrame (s'.mem t j) ≠ p := by
    intro j hj hpj heq
    exact hnotA (Or.inr ⟨j, hj, hpj, heq⟩)
  refine h.extend ?_ hold ?_ ?_ ?_
  · have hcopy := grown_copyFrame hlt hfree (entryFrame (s.mem ppt n))
    have hboth := (h.grown.trans hcopy).setWord (Or.inl (Or.inl rfl)) n
      (mkEntry p (entryFlags (s.mem ppt n)))
    apply hboth.congr
    intro f
    unfold TableFrames
    rw [entryFrames_succ, hself, hframe, hmade, entryFrames_congr hold]
    simp only [true_and, or_assoc, eq_comm]
  · intro j hj hpj
    rw [mem_setWord_of_ne _ _ _ (h.notTable j hj hpj),
      mem_copyFrame_of_ne _ _ (hnotEntry j hj hpj), mem_bitmapSet]
  · rw [hself]
    refine ⟨entryFlags_mkEntry hlt hfl, ?_, ?_⟩
    · intro _
      rw [hframe, mem_setWord_of_ne _ _ _ hpt, mem_copyFrame_self]
      exact h.grown.mem _ hpage
    · intro habs
      rw [hpres] at habs
      cases habs
  · intro _
    rw [hself, hframe]
    exact ⟨hpt, hnotEntry⟩

/-- The loop of `clone_page_table`: a clone of the first `n` entries, or an undo. -/
theorem cloneEntries_spec (hzero : bitmapTest s 0 = true) (hppt : bitmapTest s ppt = true)
    (hpages : ∀ j, j < dirSize → present (s.mem ppt j) = true →
      bitmapTest s (entryFrame (s.mem ppt j)) = true)
    (hlt : t < identPages)
    (hfree : bitmapTest s t = false)
    (n : Nat)
    (hn : n ≤ dirSize) :
    (∃ e, cloneEntries (bitmapSet s t) ppt t n = .error e ∧ SameUse s e) ∨
      (∃ s', cloneEntries (bitmapSet s t) ppt t n = .ok s' ∧
        TableClone s s' ppt t n) := by
  induction n with
  | zero => exact Or.inr ⟨_, rfl, tableClone_zero hlt hfree⟩
  | succ k ih =>
    rcases ih (by omega) with ⟨e, he, hsame⟩ | ⟨s', hs', hclone⟩
    · left
      refine ⟨e, ?_, hsame⟩
      simp only [cloneEntries, he]
    · have hpar : s'.mem ppt = s.mem ppt := hclone.grown.mem ppt hppt
      have hzero' := hclone.grown.keeps.used 0 hzero
      by_cases hpres : present (s.mem ppt k) = true
      · have hpres' : present (s'.mem ppt k) = true := by
          rw [hpar]
          exact hpres
        rcases mmFrameAlloc_cases s' hzero' with
          hnone | ⟨p, hp0, hplt, hpfree, hp⟩
        · left
          refine ⟨freeTable s' t k, ?_, ?_⟩
          · simp [cloneEntries, hs', hpres', hnone]
          · exact hclone.grown.undo
              (bitmapTest_freeTable s' t k hclone.grown.lt)
              (mem_freeTable s' t k)
        · right
          refine ⟨_, ?_, hclone.step_present hppt hpres
            (hpages k (by omega) hpres) hplt hpfree⟩
          simp [cloneEntries, hs', hpres', hp, hp0]
      · have habs : present (s.mem ppt k) = false := by simpa using hpres
        have habs' : present (s'.mem ppt k) = false := by
          rw [hpar]
          exact habs
        right
        refine ⟨_, ?_, hclone.step_absent hppt habs⟩
        simp [cloneEntries, hs', habs']

/-- `clone_page_table` clones the whole table or leaves what is in use alone. -/
theorem clonePageTable_spec
    {pde : BitVec 32} (hzero : bitmapTest s 0 = true) (hppt : bitmapTest s (entryFrame pde) = true)
    (hpages : ∀ j, j < dirSize →
      present (s.mem (entryFrame pde) j) = true →
      bitmapTest s (entryFrame (s.mem (entryFrame pde) j)) = true) :
    (∃ e, clonePageTable s pde = .error e ∧ SameUse s e) ∨
      (∃ t s', t < identPages ∧
        clonePageTable s pde = .ok (mkEntry t (entryFlags pde), s') ∧
        TableClone s s' (entryFrame pde) t dirSize) := by
  rcases mmFrameAlloc_cases s hzero with hnone | ⟨t, ht0, htlt, htfree, ht⟩
  · left
    refine ⟨s, ?_, SameUse.refl s⟩
    simp [clonePageTable, hnone]
  · rcases cloneEntries_spec hzero hppt hpages htlt htfree
        dirSize (Nat.le_refl _) with ⟨e, he, hsame⟩ | ⟨s', hs', hclone⟩
    · left
      refine ⟨e, ?_, hsame⟩
      simp [clonePageTable, ht, ht0, he]
    · right
      refine ⟨t, s', htlt, ?_, hclone⟩
      simp [clonePageTable, ht, ht0, hs']

end Table

end Mm
end Homunculos
