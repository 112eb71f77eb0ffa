import Homunculos.Mm.PageTable

/-!
# Frame ownership

The abstract view of all address spaces: a family of page directories, each
entry of which from index 4 on may name a page table, each entry of which may
name a page.  A *reference* is one such slot; it is live when the entry is
present and then names one frame.

`Owned` is the no-sharing invariant over the two levels and all directories.
Every change that the memory manager makes to it is one of a few elementary
steps: grab a clear frame, install a table, install a page, drop a page, give
a loose frame back.  Each step has one lemma; the functions of the source are
then sequences of steps.
-/

namespace Homunculos
namespace Mm

/-- The entry of page table `i` of directory `d` at index `j`. -/
def pte (s : State) (d i j : Nat) : BitVec 32 :=
  s.mem (entryFrame (s.mem d i)) j

/-- A slot of the user half of some page directory. -/
inductive Ref where
  | table (dir pd : Nat)
  | page (dir pd pt : Nat)
deriving DecidableEq

/-- The slot holds a present entry. -/
def Ref.Live (s : State) (dirs : List Nat) : Ref → Prop
  | .table d i => d ∈ dirs ∧ 4 ≤ i ∧ i < dirSize ∧ present (s.mem d i) = true
  | .page d i j =>
    (d ∈ dirs ∧ 4 ≤ i ∧ i < dirSize ∧ present (s.mem d i) = true) ∧
      j < dirSize ∧ present (pte s d i j) = true

/-- The frame that the entry in the slot names. -/
def Ref.frame (s : State) : Ref → Nat
  | .table d i => entryFrame (s.mem d i)
  | .page d i j => entryFrame (pte s d i j)

/--
No sharing: kernel frames, directories and the frames of live references are
in use, and a frame is named by at most one live reference over all
directories.
-/
structure Owned (kernel : Nat → Prop) (s : State) (dirs : List Nat) : Prop where
  kernelZero : kernel 0
  kernelUsed : ∀ f, kernel f → bitmapTest s f = true
  dirUsed : ∀ d, d ∈ dirs → bitmapTest s d = true
  refUsed : ∀ r : Ref, r.Live s dirs → bitmapTest s (r.frame s) = true
  refLt : ∀ r : Ref, r.Live s dirs → r.frame s < identPages
  refKernel : ∀ r : Ref, r.Live s dirs → ¬ kernel (r.frame s)
  refDir : ∀ r : Ref, r.Live s dirs → r.frame s ∉ dirs
  refInj : ∀ r r' : Ref, r.Live s dirs → r'.Live s dirs →
    r.frame s = r'.frame s → r = r'

/-- A frame in use that nothing refers to. -/
structure Loose (kernel : Nat → Prop) (s : State) (dirs : List Nat) (p : Nat) : Prop where
  used : bitmapTest s p = true
  lt : p < identPages
  notKernel : ¬ kernel p
  notDir : p ∉ dirs
  notRef : ∀ r : Ref, r.Live s dirs → r.frame s ≠ p

/-- Take a clear frame: mark it and zero it. -/
def grab (s : State) (p : Nat) : State :=
  zeroFrame (bitmapSet s p) p

section Steps

variable {kernel : Nat → Prop} {s s' : State} {dirs : List Nat}

theorem Owned.zeroUsed (ho : Owned kernel s dirs) :
    bitmapTest s 0 = true :=
  ho.kernelUsed 0 ho.kernelZero

theorem Ref.Live.table {d i j : Nat} (h : (Ref.page d i j).Live s dirs) :
    (Ref.table d i).Live s dirs :=
  h.1

theorem live_of_mem_eq (hdir : ∀ d, d ∈ dirs → s'.mem d = s.mem d)
    (htable : ∀ d i, (Ref.table d i).Live s dirs →
      s'.mem (entryFrame (s.mem d i)) = s.mem (entryFrame (s.mem d i)))
    (r : Ref)
    (hr : r.Live s' dirs) :
    r.Live s dirs ∧ r.frame s' = r.frame s := by
  cases r with
  | table d i =>
    obtain ⟨hd, hlo, hhi, hpres⟩ := hr
    rw [hdir d hd] at hpres
    refine ⟨⟨hd, hlo, hhi, hpres⟩, ?_⟩
    simp only [Ref.frame, hdir d hd]
  | page d i j =>
    obtain ⟨⟨hd, hlo, hhi, hpres⟩, hj, hpage⟩ := hr
    rw [hdir d hd] at hpres
    have hlive : (Ref.table d i).Live s dirs := ⟨hd, hlo, hhi, hpres⟩
    have hpte : pte s' d i j = pte s d i j := by
      unfold pte
      rw [hdir d hd, htable d i hlive]
    rw [hpte] at hpage
    refine ⟨⟨hlive, hj, hpage⟩, ?_⟩
    simp only [Ref.frame, hpte]

/-- Dropping references and kernel frames and keeping the rest in use preserves ownership. -/
theorem Owned.of_sub {kernel' : Nat → Prop} (ho : Owned kernel s dirs)
    (hsub : ∀ f, kernel' f → kernel f) (hzero : kernel' 0)
    (hlive : ∀ r : Ref, r.Live s' dirs → r.Live s dirs ∧ r.frame s' = r.frame s)
    (hkernel : ∀ f, kernel' f → bitmapTest s' f = true)
    (hdir : ∀ d, d ∈ dirs → bitmapTest s' d = true)
    (hused : ∀ r : Ref, r.Live s' dirs → bitmapTest s' (r.frame s') = true) :
    Owned kernel' s' dirs := by
  refine ⟨hzero, hkernel, hdir, hused, ?_, ?_, ?_, ?_⟩
  · intro r hr
    obtain ⟨hr', hf⟩ := hlive r hr
    rw [hf]
    exact ho.refLt r hr'
  · intro r hr
    obtain ⟨hr', hf⟩ := hlive r hr
    rw [hf]
    exact fun hkern => ho.refKernel r hr' (hsub _ hkern)
  · intro r hr
    obtain ⟨hr', hf⟩ := hlive r hr
    rw [hf]
    exact ho.refDir r hr'
  · intro r q hr hq heq
    obtain ⟨hr', hf⟩ := hlive r hr
    obtain ⟨hq', hg⟩ := hlive q hq
    rw [hf, hg] at heq
    exact ho.refInj r q hr' hq' heq

variable {p : Nat}

theorem Owned.add (ho : Owned kernel s dirs) (r0 : Ref) (hp : Loose kernel s dirs p)
    (hlive : ∀ r : Ref, r.Live s' dirs →
      (r = r0 ∧ r.frame s' = p) ∨
        (r.Live s dirs ∧ r.frame s' = r.frame s))
    (hused : ∀ f, bitmapTest s f = true → bitmapTest s' f = true) :
    Owned kernel s' dirs := by
  have hframe : ∀ P : Nat → Prop, P p → (∀ r : Ref, r.Live s dirs → P (r.frame s)) →
      ∀ r : Ref, r.Live s' dirs → P (r.frame s') := by
    intro P hnew hold r hr
    rcases hlive r hr with ⟨_, hf⟩ | ⟨hr', hf⟩
    · rw [hf]
      exact hnew
    · rw [hf]
      exact hold r hr'
  refine ⟨ho.kernelZero, fun f hf => hused f (ho.kernelUsed f hf),
    fun d hd => hused d (ho.dirUsed d hd), ?_, hframe (· < identPages) hp.lt ho.refLt,
    hframe (¬ kernel ·) hp.notKernel ho.refKernel, hframe (· ∉ dirs) hp.notDir ho.refDir, ?_⟩
  · exact hframe (bitmapTest s' · = true) (hused p hp.used)
      fun r hr => hused _ (ho.refUsed r hr)
  · intro r q hr hq heq
    rcases hlive r hr with ⟨hr0, hf⟩ | ⟨hr', hf⟩
    · rcases hlive q hq with ⟨hq0, _⟩ | ⟨hq', hg⟩
      · rw [hr0, hq0]
      · rw [hf, hg] at heq
        exact absurd heq.symm (hp.notRef q hq')
    · rcases hlive q hq with ⟨_, hg⟩ | ⟨hq', hg⟩
      · rw [hf, hg] at heq
        exact absurd heq (hp.notRef r hr')
      · rw [hf, hg] at heq
        exact ho.refInj r q hr' hq' heq

/-- Nothing in use has changed: bits only grow, frames in use keep their words. -/
structure Keeps (s s' : State) : Prop where
  used : ∀ f, bitmapTest s f = true → bitmapTest s' f = true
  mem : ∀ f, bitmapTest s f = true → s'.mem f = s.mem f

theorem Keeps.trans {s1 s2 s3 : State} (h1 : Keeps s1 s2) (h2 : Keeps s2 s3) :
    Keeps s1 s3 := by
  refine ⟨fun f hf => h2.used f (h1.used f hf), ?_⟩
  intro f hf
  rw [h2.mem f (h1.used f hf), h1.mem f hf]

variable (ho : Owned kernel s dirs)
include ho

theorem Owned.live_of_keeps (hk : Keeps s s') (r : Ref) (hr : r.Live s' dirs) :
    r.Live s dirs ∧ r.frame s' = r.frame s :=
  live_of_mem_eq
    (fun d hd => hk.mem d (ho.dirUsed d hd))
    (fun d i h => hk.mem _ (ho.refUsed (.table d i) h))
    r hr

theorem Owned.of_keeps (hk : Keeps s s') :
    Owned kernel s' dirs := by
  refine ho.of_sub (fun _ => id) ho.kernelZero (ho.live_of_keeps hk)
    (fun f hf => hk.used f (ho.kernelUsed f hf))
    (fun d hd => hk.used d (ho.dirUsed d hd)) ?_
  intro r hr
  obtain ⟨hr', hf⟩ := ho.live_of_keeps hk r hr
  rw [hf]
  exact hk.used _ (ho.refUsed r hr')

theorem Owned.shrink {kernel' : Nat → Prop} (hsub : ∀ f, kernel' f → kernel f)
    (hzero : kernel' 0) (hkernel : ∀ f, kernel' f → bitmapTest s' f = true)
    (hmem : ∀ f, bitmapTest s f = true → s'.mem f = s.mem f)
    (hfreed : ∀ f, bitmapTest s f = true → bitmapTest s' f = false → kernel f ∧ f ∉ dirs) :
    Owned kernel' s' dirs := by
  have hlive : ∀ r : Ref, r.Live s' dirs → r.Live s dirs ∧ r.frame s' = r.frame s :=
    live_of_mem_eq (fun d hd => hmem d (ho.dirUsed d hd))
      (fun d i h => hmem _ (ho.refUsed (.table d i) h))
  refine ho.of_sub hsub hzero hlive hkernel ?_ ?_
  · intro d hd
    by_contra hfree
    exact (hfreed d (ho.dirUsed d hd) (Bool.eq_false_iff.mpr hfree)).2 hd
  · intro r hr
    obtain ⟨hr', hf⟩ := hlive r hr
    by_contra hfree
    rw [hf] at hfree
    exact ho.refKernel r hr'
      (hfreed _ (ho.refUsed r hr') (Bool.eq_false_iff.mpr hfree)).1

theorem Owned.loose_of_keeps (hk : Keeps s s') (hp : Loose kernel s dirs p) :
    Loose kernel s' dirs p := by
  refine ⟨hk.used p hp.used, hp.lt, hp.notKernel, hp.notDir, ?_⟩
  intro r hr
  obtain ⟨hr', hf⟩ := ho.live_of_keeps hk r hr
  rw [hf]
  exact hp.notRef r hr'

omit ho

theorem keeps_grab (hfree : bitmapTest s p = false) :
    Keeps s (grab s p) := by
  refine ⟨?_, ?_⟩
  · intro f hf
    simp [grab, hf]
  · intro f hf
    have hne : f ≠ p := by
      rintro rfl
      rw [hf] at hfree
      cases hfree
    unfold grab
    rw [mem_zeroFrame_of_ne _ hne, mem_bitmapSet]

theorem freeFrames_grab (hlt : p < identPages) (hfree : bitmapTest s p = false) :
    freeFrames (grab s p) + 1 = freeFrames s :=
  Bitmap.zeros_set hlt hfree (fun f => by simp [grab])

variable (ho : Owned kernel s dirs)
include ho

theorem Owned.loose_of_fresh (hk : Keeps s s') (hlt : p < identPages)
    (hfree : bitmapTest s p = false) (hused : bitmapTest s' p = true) :
    Loose kernel s' dirs p := by
  refine ⟨hused, hlt, ?_, ?_, ?_⟩
  · intro hkern
    rw [ho.kernelUsed p hkern] at hfree
    cases hfree
  · intro hdir
    rw [ho.dirUsed p hdir] at hfree
    cases hfree
  · intro r hr heq
    obtain ⟨hr', hf⟩ := ho.live_of_keeps hk r hr
    have hu := ho.refUsed r hr'
    rw [← hf, heq, hfree] at hu
    cases hu

theorem Owned.loose_grab (hlt : p < identPages) (hfree : bitmapTest s p = false) :
    Loose kernel (grab s p) dirs p :=
  ho.loose_of_fresh (keeps_grab hfree) hlt hfree (by simp [grab])

theorem Owned.mem_dir_setWord {d i d' : Nat} (ht : (Ref.table d i).Live s dirs) (hd' : d' ∈ dirs)
    (j : Nat) (v : BitVec 32) :
    (setWord s (entryFrame (s.mem d i)) j v).mem d' = s.mem d' := by
  apply mem_setWord_of_ne
  rintro rfl
  exact ho.refDir (.table d i) ht hd'

theorem Owned.pte_setWord {d i d' i' : Nat} (ht : (Ref.table d i).Live s dirs)
    (ht' : (Ref.table d' i').Live s dirs) (j j' : Nat) (v : BitVec 32) :
    pte (setWord s (entryFrame (s.mem d i)) j v) d' i' j' =
      if d' = d ∧ i' = i ∧ j' = j then v else pte s d' i' j' := by
  have hdir := ho.mem_dir_setWord ht ht'.1 j v
  unfold pte
  rw [hdir]
  by_cases hsame : d' = d ∧ i' = i
  · obtain ⟨rfl, rfl⟩ := hsame
    by_cases hj : j' = j
    · subst hj
      simp
    · simp [hj]
  · have hne : entryFrame (s.mem d' i') ≠ entryFrame (s.mem d i) := by
      intro heq
      have hrefs := ho.refInj (.table d' i') (.table d i) ht' ht heq
      simp only [Ref.table.injEq] at hrefs
      exact hsame hrefs
    rw [mem_setWord_of_ne _ _ _ hne]
    have hcond : ¬ (d' = d ∧ i' = i ∧ j' = j) :=
      fun h => hsame ⟨h.1, h.2.1⟩
    rw [if_neg hcond]

theorem Owned.live_setWord {d i : Nat} (ht : (Ref.table d i).Live s dirs) (j : Nat)
    (v : BitVec 32) (r : Ref) (hr : r.Live (setWord s (entryFrame (s.mem d i)) j v) dirs) :
    (r = .page d i j ∧ present v = true ∧
        r.frame (setWord s (entryFrame (s.mem d i)) j v) =
          entryFrame v) ∨
      (r ≠ .page d i j ∧ r.Live s dirs ∧
        r.frame (setWord s (entryFrame (s.mem d i)) j v) =
          r.frame s) := by
  cases r with
  | table d' i' =>
    obtain ⟨hd, hlo, hhi, hpres⟩ := hr
    have hdir := ho.mem_dir_setWord ht hd j v
    rw [hdir] at hpres
    right
    refine ⟨by simp, ⟨hd, hlo, hhi, hpres⟩, ?_⟩
    simp only [Ref.frame, hdir]
  | page d' i' j' =>
    obtain ⟨⟨hd, hlo, hhi, hpres⟩, hj', hpage⟩ := hr
    have hdir := ho.mem_dir_setWord ht hd j v
    rw [hdir] at hpres
    have ht' : (Ref.table d' i').Live s dirs := ⟨hd, hlo, hhi, hpres⟩
    have hpte := ho.pte_setWord ht ht' j j' v
    rw [hpte] at hpage
    by_cases hsame : d' = d ∧ i' = i ∧ j' = j
    · rw [if_pos hsame] at hpte hpage
      obtain ⟨rfl, rfl, rfl⟩ := hsame
      left
      refine ⟨rfl, hpage, ?_⟩
      simp only [Ref.frame, hpte]
    · rw [if_neg hsame] at hpte hpage
      right
      refine ⟨?_, ⟨ht', hj', hpage⟩, ?_⟩
      · intro heq
        simp only [Ref.page.injEq] at heq
        exact hsame heq
      · simp only [Ref.frame, hpte]

variable {flags : BitVec 32}

theorem Owned.installPage {d i p : Nat} (ht : (Ref.table d i).Live s dirs)
    (hp : Loose kernel s dirs p) (hflags : flags.toNat < 4096) (j : Nat) :
    Owned kernel
      (setWord s (entryFrame (s.mem d i)) j (mkEntry p flags)) dirs := by
  refine ho.add (.page d i j) hp ?_ (fun _ h => h)
  intro r hr
  rcases ho.live_setWord ht j _ r hr with ⟨hr0, _, hf⟩ | ⟨_, hr', hf⟩
  · rw [entryFrame_mkEntry hp.lt hflags] at hf
    exact Or.inl ⟨hr0, hf⟩
  · exact Or.inr ⟨hr', hf⟩

theorem Owned.rewritePage {d i j : Nat} {v : BitVec 32} (hpage : (Ref.page d i j).Live s dirs)
    (hframe : entryFrame v = entryFrame (pte s d i j)) :
    Owned kernel (setWord s (entryFrame (s.mem d i)) j v) dirs := by
  have hlive : ∀ r : Ref,
      r.Live (setWord s (entryFrame (s.mem d i)) j v) dirs →
      r.Live s dirs ∧
        r.frame (setWord s (entryFrame (s.mem d i)) j v) =
          r.frame s := by
    intro r hr
    rcases ho.live_setWord hpage.table j v r hr with
      ⟨rfl, _, hf⟩ | ⟨_, hr', hf⟩
    · exact ⟨hpage, hf.trans hframe⟩
    · exact ⟨hr', hf⟩
  refine ho.of_sub (fun _ => id) ho.kernelZero hlive ho.kernelUsed ho.dirUsed ?_
  intro r hr
  obtain ⟨hr', hf⟩ := hlive r hr
  rw [hf]
  exact ho.refUsed r hr'

theorem Owned.dropPage {d i j : Nat} (hpage : (Ref.page d i j).Live s dirs) :
    Owned kernel
      (setWord (mmFrameFree s (entryFrame (pte s d i j)))
        (entryFrame (s.mem d i)) j 0#32) dirs := by
  have hcleared := ho.live_setWord hpage.table j 0#32
  have hlive : ∀ r : Ref,
      r.Live (setWord (mmFrameFree s (entryFrame (pte s d i j)))
        (entryFrame (s.mem d i)) j 0#32) dirs →
      (r ≠ .page d i j ∧ r.Live s dirs) ∧
        r.frame (setWord (mmFrameFree s (entryFrame (pte s d i j)))
          (entryFrame (s.mem d i)) j 0#32) = r.frame s := by
    intro r hr
    have hsame := live_of_mem_eq
      (s := setWord s (entryFrame (s.mem d i)) j 0#32)
      (fun d' _ => by simp only [setWord, mem_mmFrameFree])
      (fun d' i' _ => by simp only [setWord, mem_mmFrameFree]) r hr
    obtain ⟨hr1, hf1⟩ := hsame
    rcases hcleared r hr1 with ⟨_, hno, _⟩ | ⟨hne, hr', hf⟩
    · simp at hno
    · exact ⟨⟨hne, hr'⟩, hf1.trans hf⟩
  have hother : ∀ f, f ≠ entryFrame (pte s d i j) →
      bitmapTest s f = true →
      bitmapTest (setWord (mmFrameFree s (entryFrame (pte s d i j)))
        (entryFrame (s.mem d i)) j 0#32) f = true := by
    intro f hne hf
    rw [bitmapTest_setWord, bitmapTest_mmFrameFree_of_ne _ hne]
    exact hf
  refine ho.of_sub (fun _ => id) ho.kernelZero (fun r hr => ⟨(hlive r hr).1.2, (hlive r hr).2⟩)
    ?_ ?_ ?_
  · intro f hf
    apply hother f _ (ho.kernelUsed f hf)
    rintro rfl
    exact ho.refKernel _ hpage hf
  · intro d' hd'
    apply hother d' _ (ho.dirUsed d' hd')
    rintro rfl
    exact ho.refDir _ hpage hd'
  · intro r hr
    obtain ⟨⟨hne, hr'⟩, hf⟩ := hlive r hr
    rw [hf]
    apply hother _ _ (ho.refUsed r hr')
    intro heq
    exact hne (ho.refInj r (.page d i j) hr' hpage heq)

variable {d i t : Nat} (hd : d ∈ dirs) (ht : Loose kernel s dirs t) (hzero : ∀ j, s.mem t j = 0#32)
variable (hflags : flags.toNat < 4096)
include hd ht hzero hflags

theorem Owned.live_installTable (r : Ref) (hr : r.Live (setWord s d i (mkEntry t flags)) dirs) :
    (r = .table d i ∧ r.frame (setWord s d i (mkEntry t flags)) = t) ∨
      (r.Live s dirs ∧
        r.frame (setWord s d i (mkEntry t flags)) = r.frame s) := by
  have hframe := entryFrame_mkEntry ht.lt hflags
  have htd : t ≠ d := by
    rintro rfl
    exact ht.notDir hd
  have hentry : ∀ d' i', ¬ (d' = d ∧ i' = i) →
      (setWord s d i (mkEntry t flags)).mem d' i' = s.mem d' i' := by
    intro d' i' hother
    by_cases hdd : d' = d
    · subst hdd
      have hii : i' ≠ i := fun h => hother ⟨rfl, h⟩
      rw [mem_setWord_self, Function.update_of_ne hii]
    · rw [mem_setWord_of_ne _ _ _ hdd]
  cases r with
  | table d' i' =>
    obtain ⟨hd', hlo, hhi, hpres⟩ := hr
    by_cases hsame : d' = d ∧ i' = i
    · obtain ⟨rfl, rfl⟩ := hsame
      left
      refine ⟨rfl, ?_⟩
      simp [Ref.frame, hframe]
    · rw [hentry d' i' hsame] at hpres
      right
      refine ⟨⟨hd', hlo, hhi, hpres⟩, ?_⟩
      simp only [Ref.frame, hentry d' i' hsame]
  | page d' i' j' =>
    obtain ⟨⟨hd', hlo, hhi, hpres⟩, hj', hpage⟩ := hr
    by_cases hsame : d' = d ∧ i' = i
    · obtain ⟨rfl, rfl⟩ := hsame
      -- the fresh table is all zero, so it has no live page
      exfalso
      unfold pte at hpage
      rw [mem_setWord_self, Function.update_self, hframe,
        mem_setWord_of_ne _ _ _ htd, hzero] at hpage
      simp at hpage
    · rw [hentry d' i' hsame] at hpres
      have hlive : (Ref.table d' i').Live s dirs := ⟨hd', hlo, hhi, hpres⟩
      have htable : entryFrame (s.mem d' i') ≠ d := by
        rintro rfl
        exact ho.refDir _ hlive hd
      have hpte : pte (setWord s d i (mkEntry t flags)) d' i' j' =
          pte s d' i' j' := by
        unfold pte
        rw [hentry d' i' hsame, mem_setWord_of_ne _ _ _ htable]
      rw [hpte] at hpage
      right
      refine ⟨⟨hlive, hj', hpage⟩, ?_⟩
      simp only [Ref.frame, hpte]

theorem Owned.installTable :
    Owned kernel (setWord s d i (mkEntry t flags)) dirs :=
  ho.add (.table d i) ht
    (ho.live_installTable hd ht hzero hflags) (fun _ h => h)

theorem Owned.loose_installTable {p : Nat} (hp : Loose kernel s dirs p) (hpt : p ≠ t) :
    Loose kernel (setWord s d i (mkEntry t flags)) dirs p := by
  refine ⟨hp.used, hp.lt, hp.notKernel, hp.notDir, ?_⟩
  intro r hr heq
  rcases ho.live_installTable hd ht hzero hflags r hr with
    ⟨_, hf⟩ | ⟨hr', hf⟩
  · exact hpt (heq.symm.trans hf)
  · exact hp.notRef r hr' (hf.symm.trans heq)

end Steps

end Mm
end Homunculos
