import Homunculos.Mm.Owner

/-!
# What mapping and unmapping one page do

One specification for each of `mm_alloc_at` and `mm_unmap_at`, stated on the
slots of the address spaces: which slot changes, that no other slot of any
directory does, which frame is taken or given back, and that ownership is
kept.  Later modules never look inside the two functions.
-/

namespace Homunculos
namespace Mm

open Function

/-- The entry that a walk through directory `d` finds, 0 without a table. -/
def slot (s : State) (d i j : Nat) : BitVec 32 :=
  if present (s.mem d i) then pte s d i j else 0#32

theorem mmGetPte_eq_slot (s : State) (d va : Nat) :
    mmGetPte s d va = slot s d (pdIdx va) (ptIdx va) := rfl

theorem slot_eq_of_mem_eq {s s' : State} (h : s'.mem = s.mem) (d i j : Nat) :
    slot s' d i j = slot s d i j := by
  unfold slot pte
  rw [h]

theorem mem_setWord_mmFrameFree (s : State) (f frame idx : Nat) (v : BitVec 32) :
    (setWord (mmFrameFree s f) frame idx v).mem =
      (setWord s frame idx v).mem := by
  unfold setWord
  rw [mem_mmFrameFree]

/-- The frames that a page of table `i` needs: its own, and one for a table that is not there. -/
def pageCost (s : State) (d i : Nat) : Nat :=
  if present (s.mem d i) then 1 else 2

/-- The same frames are in use and they hold the same words. -/
structure SameUse (s s' : State) : Prop where
  used : ∀ f, bitmapTest s' f = bitmapTest s f
  mem : ∀ f, bitmapTest s f = true → s'.mem f = s.mem f

theorem SameUse.refl (s : State) :
    SameUse s s :=
  ⟨fun _ => rfl, fun _ _ => rfl⟩

theorem SameUse.keeps {s s' : State} (h : SameUse s s') :
    Keeps s s' := by
  refine ⟨?_, h.mem⟩
  intro f hf
  rw [h.used f]
  exact hf

theorem sameUse_grab_free
    {s : State} {p : Nat} (hlt : p < identPages) (hfree : bitmapTest s p = false) :
    SameUse s (mmFrameFree (grab s p) p) := by
  refine ⟨?_, ?_⟩
  · intro f
    rw [bitmapTest_mmFrameFree _ hlt]
    by_cases hfp : f = p
    · subst hfp
      simp [hfree]
    · simp [grab, hfp]
  · intro f hf
    rw [mem_mmFrameFree]
    exact (keeps_grab hfree).mem f hf

section Cases

variable {s : State} {d va : Nat} (flags : BitVec 32)

theorem mmMapAt_newTable {p t : Nat} (hpde : present (s.mem d (pdIdx va)) = false)
    (ht : mmFrameAlloc s = (t, bitmapSet s t)) (ht0 : t ≠ 0) (htlt : t < identPages) (htd : t ≠ d) :
    mmMapAt s d va p flags =
      (0, setWord
        (setWord (grab s t) d (pdIdx va) (mkEntry t tableFlags))
        t (ptIdx va) (mkEntry p flags)) := by
  have hframe := entryFrame_mkEntry htlt tableFlags_lt
  have hrow : (setWord (grab s t) d (pdIdx va)
      (mkEntry t tableFlags)).mem t = fun _ => 0#32 := by
    rw [mem_setWord_of_ne _ _ _ htd]
    simp [grab]
  have hunfold : mmMapAt s d va p flags =
      mapEntry
        (setWord (grab s t) d (pdIdx va) (mkEntry t tableFlags))
        t (ptIdx va) p flags := by
    unfold mmMapAt
    rw [hpde, ht]
    simp [ht0, grab, hframe]
  rw [hunfold, mapEntry, hrow]
  simp

/--
Everything `mm_alloc_at` can do: fail at a present page or for want of frames
and change nothing in use; put a fresh page into a table that is there; or
install a fresh table first.
-/
theorem mmAllocAt_cases (hzero : bitmapTest s 0 = true) (hdir : bitmapTest s d = true)
    (htable : present (s.mem d (pdIdx va)) = true →
      bitmapTest s (entryFrame (s.mem d (pdIdx va))) = true) :
    ((mmAllocAt s d va flags).1 = 0 ∧
        SameUse s (mmAllocAt s d va flags).2 ∧
        (present (slot s d (pdIdx va) (ptIdx va)) = true ∨
          freeFrames s < pageCost s d (pdIdx va))) ∨
      (∃ p, p < identPages ∧ bitmapTest s p = false ∧
        present (s.mem d (pdIdx va)) = true ∧
        present (pte s d (pdIdx va) (ptIdx va)) = false ∧
        mmAllocAt s d va flags =
          (va, setWord (grab s p) (entryFrame (s.mem d (pdIdx va))) (ptIdx va) (mkEntry p flags))) ∨
      (∃ p t, p < identPages ∧ bitmapTest s p = false ∧
        t < identPages ∧ bitmapTest (grab s p) t = false ∧
        present (s.mem d (pdIdx va)) = false ∧
        mmAllocAt s d va flags =
          (va, setWord
            (setWord (grab (grab s p) t) d (pdIdx va) (mkEntry t tableFlags))
            t (ptIdx va) (mkEntry p flags))) := by
  rcases mmFrameAlloc_cases s hzero with hnone | ⟨p, hp0, hplt, hpfree, hp⟩
  · left
    have hcost : freeFrames s < pageCost s d (pdIdx va) := by
      rw [freeFrames_eq_zero s hzero hnone]
      unfold pageCost
      split
      · decide
      · decide
    simp [mmAllocAt, hnone, SameUse.refl, hcost]
  have hkeep := keeps_grab hpfree
  have hgfree := freeFrames_grab hplt hpfree
  have hgd : (grab s p).mem d = s.mem d := hkeep.mem d hdir
  simp only [mmAllocAt, hp, if_neg hp0, show zeroFrame (bitmapSet s p) p = grab s p from rfl]
  by_cases hpde : present (s.mem d (pdIdx va)) = true
  · have hgt : (grab s p).mem (entryFrame (s.mem d (pdIdx va))) =
        s.mem (entryFrame (s.mem d (pdIdx va))) :=
      hkeep.mem _ (htable hpde)
    have hmap : mmMapAt (grab s p) d va p flags =
        if present (pte s d (pdIdx va) (ptIdx va)) then
          (-1, grab s p)
        else
          (0, setWord (grab s p) (entryFrame (s.mem d (pdIdx va)))
            (ptIdx va) (mkEntry p flags)) := by
      have hpde' : present ((grab s p).mem d (pdIdx va)) = true := by
        rw [hgd]
        exact hpde
      rw [mmMapAt, if_pos hpde', mapEntry, hgd, hgt]
      rfl
    by_cases hpte : present (pte s d (pdIdx va) (ptIdx va)) = true
    · left
      have hslot : present (slot s d (pdIdx va) (ptIdx va)) = true := by
        unfold slot
        rw [if_pos hpde]
        exact hpte
      rw [hmap, if_pos hpte]
      exact ⟨by simp, sameUse_grab_free hplt hpfree, Or.inl hslot⟩
    · right
      left
      refine ⟨p, hplt, hpfree, hpde, by simpa using hpte, ?_⟩
      rw [hmap, if_neg hpte]
      simp
  · have hgzero : bitmapTest (grab s p) 0 = true := hkeep.used 0 hzero
    have habs : present ((grab s p).mem d (pdIdx va)) = false := by
      rw [hgd]
      simpa using hpde
    rcases mmFrameAlloc_cases (grab s p) hgzero with
      hnone | ⟨t, ht0, htlt, htfree, ht⟩
    · left
      have hmap : mmMapAt (grab s p) d va p flags = (-1, grab s p) := by simp [mmMapAt, habs, hnone]
      have hnone' := freeFrames_eq_zero _ hgzero hnone
      have hcost : pageCost s d (pdIdx va) = 2 := if_neg hpde
      rw [hmap]
      exact ⟨by simp, sameUse_grab_free hplt hpfree, Or.inr (by omega)⟩
    · right
      right
      have htd : t ≠ d := by
        rintro rfl
        rw [hkeep.used t hdir] at htfree
        cases htfree
      refine ⟨p, t, hplt, hpfree, htlt, htfree, by simpa using hpde, ?_⟩
      rw [mmMapAt_newTable flags habs ht ht0 htlt htd]
      simp

end Cases

section Slots

variable {kernel : Nat → Prop} {s s' : State} {dirs : List Nat}

theorem Owned.slot_of_keeps
    {d i : Nat} (ho : Owned kernel s dirs) (hk : Keeps s s') (hd : d ∈ dirs) (hlo : 4 ≤ i)
    (hhi : i < dirSize) (j : Nat) :
    slot s' d i j = slot s d i j := by
  have hdir := hk.mem d (ho.dirUsed d hd)
  unfold slot
  rw [hdir]
  by_cases hpres : present (s.mem d i) = true
  · have hlive : (Ref.table d i).Live s dirs := ⟨hd, hlo, hhi, hpres⟩
    have htable := hk.mem _ (ho.refUsed _ hlive)
    simp only [Ref.frame] at htable
    unfold pte
    rw [hdir, htable]
  · rw [if_neg hpres, if_neg hpres]

theorem Owned.slot_setWord
    {d i d' i' : Nat} (ho : Owned kernel s dirs) (ht : (Ref.table d i).Live s dirs)
    (hd' : d' ∈ dirs) (hlo : 4 ≤ i') (hhi : i' < dirSize) (j j' : Nat) (v : BitVec 32) :
    slot (setWord s (entryFrame (s.mem d i)) j v) d' i' j' =
      if d' = d ∧ i' = i ∧ j' = j then v else slot s d' i' j' := by
  have hdir := ho.mem_dir_setWord ht hd' j v
  unfold slot
  rw [hdir]
  by_cases hpres : present (s.mem d' i') = true
  · rw [if_pos hpres, if_pos hpres]
    exact ho.pte_setWord ht ⟨hd', hlo, hhi, hpres⟩ j j' v
  · have hno : ¬ (d' = d ∧ i' = i ∧ j' = j) := by
      rintro ⟨rfl, rfl, _⟩
      exact hpres ht.2.2.2
    rw [if_neg hpres, if_neg hno, if_neg hpres]

theorem Owned.slot_installTable
    {d i t : Nat} (ho : Owned kernel s dirs) (hd : d ∈ dirs) (hpde : present (s.mem d i) = false)
    (ht : Loose kernel s dirs t) (hzero : ∀ j, s.mem t j = 0#32) {d' i' : Nat} (hd' : d' ∈ dirs)
    (hlo : 4 ≤ i') (hhi : i' < dirSize) (j' : Nat) :
    slot (setWord s d i (mkEntry t tableFlags)) d' i' j' =
      slot s d' i' j' := by
  have hframe := entryFrame_mkEntry ht.lt tableFlags_lt
  have htd : t ≠ d := by
    rintro rfl
    exact ht.notDir hd
  by_cases hsame : d' = d ∧ i' = i
  · obtain ⟨rfl, rfl⟩ := hsame
    unfold slot pte
    rw [mem_setWord_self, update_self, hframe, mem_setWord_of_ne _ _ _ htd, hzero, hpde]
    simp
  · have hentry :
        (setWord s d i (mkEntry t tableFlags)).mem d' i' = s.mem d' i' := by
      by_cases hdd : d' = d
      · subst hdd
        have hii : i' ≠ i := fun h => hsame ⟨rfl, h⟩
        rw [mem_setWord_self, update_of_ne hii]
      · rw [mem_setWord_of_ne _ _ _ hdd]
    unfold slot
    rw [hentry]
    by_cases hpres : present (s.mem d' i') = true
    · have hlive : (Ref.table d' i').Live s dirs := ⟨hd', hlo, hhi, hpres⟩
      have htable : entryFrame (s.mem d' i') ≠ d := by
        rintro rfl
        exact ho.refDir _ hlive hd
      unfold pte
      rw [hentry, mem_setWord_of_ne _ _ _ htable]
    · rw [if_neg hpres, if_neg hpres]

/-- A frame that no directory, table or kernel code change can touch. -/
def Apart (s : State) (dirs : List Nat) (f : Nat) : Prop :=
  bitmapTest s f = true ∧ f ∉ dirs ∧
    ∀ d i, (Ref.table d i).Live s dirs → entryFrame (s.mem d i) ≠ f

/-- The effect of a successful `mm_alloc_at` on all address spaces. -/
structure Mapped (kernel : Nat → Prop) (s s' : State) (dirs : List Nat) (d i j p : Nat)
    (flags : BitVec 32) : Prop where
  owned : Owned kernel s' dirs
  lt : p < identPages
  fresh : bitmapTest s p = false
  used : ∀ f, bitmapTest s f = true → bitmapTest s' f = true
  left : freeFrames s = freeFrames s' + pageCost s d i
  tables : ∀ i', present (s'.mem d i') = true ↔ i' = i ∨ present (s.mem d i') = true
  was : present (slot s d i j) = false
  slot : ∀ d' i' j', d' ∈ dirs → 4 ≤ i' → i' < dirSize →
    slot s' d' i' j' =
      if d' = d ∧ i' = i ∧ j' = j then mkEntry p flags
      else slot s d' i' j'
  low : ∀ d' i', d' ∈ dirs → i' < 4 → s'.mem d' i' = s.mem d' i'
  apart : ∀ f, Apart s dirs f → s'.mem f = s.mem f

/-- The effect of a successful `mm_unmap_at` on all address spaces. -/
structure Unmapped (kernel : Nat → Prop) (s s' : State) (dirs : List Nat) (d i j : Nat) : Prop where
  owned : Owned kernel s' dirs
  was : present (slot s d i j) = true
  used : ∀ f, bitmapTest s' f = true ↔
    bitmapTest s f = true ∧ f ≠ entryFrame (slot s d i j)
  slot : ∀ d' i' j', d' ∈ dirs → 4 ≤ i' → i' < dirSize →
    slot s' d' i' j' =
      if d' = d ∧ i' = i ∧ j' = j then 0#32 else slot s d' i' j'
  low : ∀ d' i', d' ∈ dirs → i' < 4 → s'.mem d' i' = s.mem d' i'
  apart : ∀ f, Apart s dirs f → s'.mem f = s.mem f

variable (ho : Owned kernel s dirs)
include ho

theorem mapped_oldTable {d i j p : Nat} {flags : BitVec 32}
    (ht : (Ref.table d i).Live s dirs) (hflags : flags.toNat < 4096) (hplt : p < identPages)
    (hpfree : bitmapTest s p = false) (hpte : present (pte s d i j) = false) :
    Mapped kernel s
      (setWord (grab s p) (entryFrame (s.mem d i)) j (mkEntry p flags))
      dirs d i j p flags := by
  have hk := keeps_grab hpfree
  have hg := ho.of_keeps hk
  have hentry : (grab s p).mem d i = s.mem d i := by
    rw [hk.mem d (ho.dirUsed d ht.1)]
  have htg : (Ref.table d i).Live (grab s p) dirs := by
    refine ⟨ht.1, ht.2.1, ht.2.2.1, ?_⟩
    rw [hentry]
    exact ht.2.2.2
  have hinst := hg.installPage htg (ho.loose_grab hplt hpfree) hflags j
  rw [hentry] at hinst
  have hdirs : ∀ d' ∈ dirs,
      (setWord (grab s p) (entryFrame (s.mem d i)) j (mkEntry p flags)).mem d' = s.mem d' := by
    intro d' hd'
    have h := hg.mem_dir_setWord htg hd' j (mkEntry p flags)
    rw [hentry] at h
    rw [h, hk.mem d' (ho.dirUsed d' hd')]
  refine ⟨hinst, hplt, hpfree, ?_, ?_, ?_, ?_, ?_, fun d' i' hd' _ => by rw [hdirs d' hd'], ?_⟩
  · intro f hf
    exact hk.used f hf
  · have hleft := freeFrames_grab hplt hpfree
    have hcost : pageCost s d i = 1 := if_pos ht.2.2.2
    rw [freeFrames_setWord]
    omega
  · intro i'
    rw [hdirs d ht.1]
    exact ⟨Or.inr, fun h => h.elim (fun heq => heq ▸ ht.2.2.2) id⟩
  · unfold slot
    rw [if_pos ht.2.2.2]
    exact hpte
  · intro d' i' j' hd' hlo hhi
    have h := hg.slot_setWord htg hd' hlo hhi j j' (mkEntry p flags)
    rw [hentry] at h
    rw [h, ho.slot_of_keeps hk hd' hlo hhi]
  · rintro f ⟨hf, _, hntab⟩
    rw [mem_setWord_of_ne _ _ _ (fun h => hntab d i ht h.symm)]
    exact hk.mem f hf

theorem mapped_newTable {d i j p t : Nat} {flags : BitVec 32} (hd : d ∈ dirs) (hlo : 4 ≤ i)
    (hhi : i < dirSize) (hflags : flags.toNat < 4096) (hplt : p < identPages)
    (hpfree : bitmapTest s p = false) (htlt : t < identPages)
    (htfree : bitmapTest (grab s p) t = false) (hpde : present (s.mem d i) = false) :
    Mapped kernel s
      (setWord
        (setWord (grab (grab s p) t) d i (mkEntry t tableFlags))
        t j (mkEntry p flags))
      dirs d i j p flags := by
  have hk1 := keeps_grab hpfree
  have hk2 := keeps_grab htfree
  have hk := hk1.trans hk2
  have ho2 := ho.of_keeps hk
  have hp1 := ho.loose_grab hplt hpfree
  have hp2 : Loose kernel (grab (grab s p) t) dirs p :=
    (ho.of_keeps hk1).loose_of_keeps hk2 hp1
  have ht2 : Loose kernel (grab (grab s p) t) dirs t :=
    (ho.of_keeps hk1).loose_grab htlt htfree
  have hpt : p ≠ t := by
    rintro rfl
    rw [hp1.used] at htfree
    cases htfree
  have hzero : ∀ k, (grab (grab s p) t).mem t k = 0#32 := by
    intro k
    simp [grab]
  have hentry : (grab (grab s p) t).mem d i = s.mem d i := by
    rw [hk.mem d (ho.dirUsed d hd)]
  have hpde2 : present ((grab (grab s p) t).mem d i) = false := by
    rw [hentry]
    exact hpde
  have ho3 := ho2.installTable (i := i) hd ht2 hzero tableFlags_lt
  have hframe := entryFrame_mkEntry htlt tableFlags_lt
  have hnew :
      (setWord (grab (grab s p) t) d i (mkEntry t tableFlags)).mem d i =
        mkEntry t tableFlags := by
    rw [mem_setWord_self, update_self]
  have ht3 : (Ref.table d i).Live
      (setWord (grab (grab s p) t) d i (mkEntry t tableFlags)) dirs := by
    refine ⟨hd, hlo, hhi, ?_⟩
    rw [hnew, present_mkEntry htlt tableFlags_lt]
    exact present_tableFlags
  have hp3 := ho2.loose_installTable (i := i) hd ht2 hzero
    tableFlags_lt hp2 hpt
  have hinst := ho3.installPage ht3 hp3 hflags j
  rw [hnew, hframe] at hinst
  have hdirs : ∀ d' ∈ dirs, ∀ i', d' ≠ d ∨ i' ≠ i →
      (setWord (setWord (grab (grab s p) t) d i (mkEntry t tableFlags)) t j
        (mkEntry p flags)).mem d' i' = s.mem d' i' := by
    intro d' hd' i' hne
    have h := ho3.mem_dir_setWord ht3 hd' j (mkEntry p flags)
    rw [hnew, hframe] at h
    rw [h]
    by_cases hdd : d' = d
    · subst hdd
      rw [mem_setWord_self, update_of_ne (hne.resolve_left (fun h => h rfl)),
        hk.mem d' (ho.dirUsed d' hd')]
    · rw [mem_setWord_of_ne _ _ _ hdd, hk.mem d' (ho.dirUsed d' hd')]
  refine ⟨hinst, hplt, hpfree, ?_, ?_, ?_, ?_, ?_,
    fun d' i' hd' hlow => hdirs d' hd' i' (Or.inr (by omega)), ?_⟩
  · intro f hf
    exact hk.used f hf
  · have hleft1 := freeFrames_grab hplt hpfree
    have hleft2 := freeFrames_grab htlt htfree
    have hcost : pageCost s d i = 2 := if_neg (by simp [hpde])
    rw [freeFrames_setWord, freeFrames_setWord]
    omega
  · intro i'
    by_cases hi : i' = i
    · subst hi
      have h := ho3.mem_dir_setWord ht3 hd j (mkEntry p flags)
      rw [hnew, hframe] at h
      rw [h, hnew, present_mkEntry htlt tableFlags_lt]
      simp
    · rw [hdirs d hd i' (Or.inr hi)]
      simp [hi]
  · simp [slot, hpde]
  · intro d' i' j' hd' hlo' hhi'
    have h := ho3.slot_setWord ht3 hd' hlo' hhi' j j' (mkEntry p flags)
    rw [hnew, hframe] at h
    rw [h, ho2.slot_installTable hd hpde2 ht2 hzero hd' hlo' hhi',
      ho.slot_of_keeps hk hd' hlo' hhi']
  · rintro f ⟨hf, hfd, _⟩
    have hft : f ≠ t := by
      rintro rfl
      rw [hk1.used f hf] at htfree
      cases htfree
    have hfdir : f ≠ d := by
      rintro rfl
      exact hfd hd
    rw [mem_setWord_of_ne _ _ _ hft, mem_setWord_of_ne _ _ _ hfdir]
    exact hk.mem f hf

/-- `mm_alloc_at` on a user address fails without effect or maps one page. -/
theorem mmAllocAt_spec {d va : Nat} {flags : BitVec 32} (hd : d ∈ dirs) (hlo : 4 ≤ pdIdx va)
    (hva : va < 2 ^ 32) (hflags : flags.toNat < 4096) :
    ((mmAllocAt s d va flags).1 = 0 ∧
        SameUse s (mmAllocAt s d va flags).2 ∧
        (present (slot s d (pdIdx va) (ptIdx va)) = true ∨
          freeFrames s < pageCost s d (pdIdx va))) ∨
      ((mmAllocAt s d va flags).1 = va ∧
        ∃ p, Mapped kernel s (mmAllocAt s d va flags).2 dirs
          d (pdIdx va) (ptIdx va) p flags) := by
  have hhi := pdIdx_lt hva
  have htable : present (s.mem d (pdIdx va)) = true →
      bitmapTest s (entryFrame (s.mem d (pdIdx va))) = true := by
    intro hpres
    exact ho.refUsed (.table d (pdIdx va)) ⟨hd, hlo, hhi, hpres⟩
  rcases mmAllocAt_cases flags ho.zeroUsed
      (ho.dirUsed d hd) htable with
    hfail | ⟨p, hplt, hpfree, hpde, hpte, hout⟩ |
      ⟨p, t, hplt, hpfree, htlt, htfree, hpde, hout⟩
  · exact Or.inl hfail
  · right
    rw [hout]
    exact ⟨rfl, p, mapped_oldTable ho ⟨hd, hlo, hhi, hpde⟩ hflags hplt hpfree hpte⟩
  · right
    rw [hout]
    exact ⟨rfl, p, mapped_newTable ho hd hlo hhi hflags hplt hpfree htlt htfree hpde⟩

/-- `mm_unmap_at` on a user address fails without effect or drops one page. -/
theorem mmUnmapAt_spec {d va : Nat} (hd : d ∈ dirs) (hlo : 4 ≤ pdIdx va) (hva : va < 2 ^ 32) :
    (present (slot s d (pdIdx va) (ptIdx va)) = false ∧ mmUnmapAt s d va = (-1, s)) ∨
      ((mmUnmapAt s d va).1 = 0 ∧
        Unmapped kernel s (mmUnmapAt s d va).2 dirs
          d (pdIdx va) (ptIdx va)) := by
  have hhi := pdIdx_lt hva
  by_cases hpde : present (s.mem d (pdIdx va)) = true
  · have ht : (Ref.table d (pdIdx va)).Live s dirs := ⟨hd, hlo, hhi, hpde⟩
    by_cases hpte : present (pte s d (pdIdx va) (ptIdx va)) = true
    · right
      have hpage : (Ref.page d (pdIdx va) (ptIdx va)).Live s dirs :=
        ⟨ht, ptIdx_lt va, hpte⟩
      have hslot : slot s d (pdIdx va) (ptIdx va) =
          pte s d (pdIdx va) (ptIdx va) := if_pos hpde
      have hout : mmUnmapAt s d va =
          (0, setWord
            (mmFrameFree s (entryFrame (pte s d (pdIdx va) (ptIdx va))))
            (entryFrame (s.mem d (pdIdx va))) (ptIdx va) 0#32) := by
        unfold mmUnmapAt
        rw [if_pos hpde]
        exact if_pos hpte
      rw [hout]
      refine ⟨rfl, ho.dropPage hpage, ?_, ?_, ?_, ?_, ?_⟩
      · rw [hslot]
        exact hpte
      · intro f
        have hlt : entryFrame (pte s d (pdIdx va) (ptIdx va)) <
            identPages := ho.refLt _ hpage
        rw [hslot, bitmapTest_setWord, bitmapTest_mmFrameFree _ hlt]
        simp only [Bool.and_eq_true, Bool.not_eq_true', decide_eq_false_iff_not]
        exact and_comm
      · intro d' i' j' hd' hlo' hhi'
        rw [slot_eq_of_mem_eq (mem_setWord_mmFrameFree s _ _ _ _)]
        exact ho.slot_setWord ht hd' hlo' hhi' (ptIdx va) j' 0#32
      · intro d' i' hd' _
        rw [mem_setWord_mmFrameFree, ho.mem_dir_setWord ht hd' (ptIdx va) 0#32]
      · rintro f ⟨_, _, hntab⟩
        rw [mem_setWord_of_ne _ _ _ (fun h => hntab d (pdIdx va) ht h.symm), mem_mmFrameFree]
    · left
      refine ⟨?_, ?_⟩
      · unfold slot
        rw [if_pos hpde]
        simpa using hpte
      · unfold mmUnmapAt
        rw [if_pos hpde]
        exact if_neg hpte
  · left
    refine ⟨?_, ?_⟩
    · simp [slot, hpde]
    · unfold mmUnmapAt
      rw [if_neg hpde]

end Slots

end Mm
end Homunculos
