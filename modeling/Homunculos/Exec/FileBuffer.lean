import Homunculos.Mm.MapSpec

/-!
# The frames of the file buffer

`sys_exec` takes the frames of its file buffer one by one from
`mm_frame_alloc`, but keeps only the first one and uses as many frames from
there on as the file has pages.  Both its exits give back these frames.  Here is
what the loop takes, what the exits release, and when the two agree.
-/

namespace Homunculos
namespace Exec

open Mm

/-- The loop that takes `n` frames; it stops when `mm_frame_alloc` fails. -/
def allocBuffer : Nat → State → List Nat × State
  | 0, s => ([], s)
  | n + 1, s =>
    let page := mmFrameAlloc s
    if page.1 = 0 then
      ([], page.2)
    else
      let rest := allocBuffer n page.2
      (page.1 :: rest.1, rest.2)

/-- The frames of the addresses `elf_buf + i * 0x1000` for the first `n` pages. -/
def bufferFrames (elfBuf n : Nat) : List Nat :=
  (List.range n).map (fun i => (elfBuf + i) % 2 ^ 20)

/-- `mm_frame_free` of one frame after the other. -/
def freeAll (s : State) (frames : List Nat) : State :=
  frames.foldl mmFrameFree s

theorem mem_bufferFrames {elfBuf n f : Nat} :
    f ∈ bufferFrames elfBuf n ↔ ∃ i, i < n ∧ (elfBuf + i) % 2 ^ 20 = f := by
  simp [bufferFrames]

theorem bitmapTest_freeAll (s : State) (frames : List Nat) (f : Nat) :
    bitmapTest (freeAll s frames) f = true ↔
      bitmapTest s f = true ∧ ¬ (f ∈ frames ∧ f < identPages) := by
  induction frames generalizing s with
  | nil => simp [freeAll]
  | cons g frames ih =>
    have hstep : freeAll s (g :: frames) = freeAll (mmFrameFree s g) frames := rfl
    rw [hstep, ih]
    by_cases hg : g < identPages
    · rw [bitmapTest_mmFrameFree s hg]
      simp only [Bool.and_eq_true, Bool.not_eq_true', decide_eq_false_iff_not, List.mem_cons]
      constructor
      · rintro ⟨⟨hne, hused⟩, hno⟩
        exact ⟨hused, fun h => h.1.elim hne (fun hmem => hno ⟨hmem, h.2⟩)⟩
      · rintro ⟨hused, hno⟩
        exact ⟨⟨fun heq => hno ⟨Or.inl heq, heq ▸ hg⟩, hused⟩, fun h => hno ⟨Or.inr h.1, h.2⟩⟩
    · have hsame : mmFrameFree s g = s := if_neg hg
      rw [hsame, List.mem_cons]
      have hne : f < identPages → f ≠ g := fun hf heq => hg (heq ▸ hf)
      tauto

/-- The frames below the one that `mm_frame_alloc` returns are in use. -/
theorem mmFrameAlloc_least {s : State} {g : Nat} (hg : g < (mmFrameAlloc s).1) :
    bitmapTest s g = true := by
  unfold mmFrameAlloc at hg
  cases hfind : Bitmap.firstZero (bitmapTest s) identPages with
  | none =>
    rw [hfind] at hg
    exact absurd hg (Nat.not_lt_zero g)
  | some f =>
    rw [hfind] at hg
    exact Bitmap.firstZero_least hfind hg

/-- What the loop has taken when it ends. -/
structure Taken (n : Nat) (s s' : State) (taken : List Nat) : Prop where
  length_le : taken.length ≤ n
  nodup : taken.Nodup
  lt : ∀ f ∈ taken, f < identPages
  free : ∀ f ∈ taken, bitmapTest s f = false
  used : ∀ f, bitmapTest s' f = true ↔ bitmapTest s f = true ∨ f ∈ taken
  mem : s'.mem = s.mem
  left : freeFrames s = freeFrames s' + taken.length
  first : ∀ g, g < taken.headD 0 → bitmapTest s g = true
  least : ∀ f ∈ taken, ∀ g, g < f → bitmapTest s g = false → g ∈ taken
  full : taken.length < n → ∀ f, f < identPages → bitmapTest s' f = true

section Loop

variable {s : State} {n : Nat}

theorem allocBuffer_taken (hzero : bitmapTest s 0 = true) (n : Nat) :
    Taken n s (allocBuffer n s).2 (allocBuffer n s).1 := by
  induction n generalizing s with
  | zero =>
    refine ⟨Nat.le_refl _, List.nodup_nil, ?_, ?_, ?_, rfl, (Nat.add_zero _).symm, ?_, ?_, ?_⟩
    all_goals simp [allocBuffer]
  | succ n ih =>
    rcases mmFrameAlloc_cases s hzero with hnone | ⟨p, hp0, hplt, hpfree, hp⟩
    · have hnone' : allocBuffer (n + 1) s = ([], s) := by
        rw [allocBuffer, hnone]
        rfl
      have hfull : ∀ f, f < identPages → bitmapTest s f = true :=
        (Bitmap.zeros_eq_zero_iff _ _).mp (freeFrames_eq_zero s hzero hnone)
      rw [hnone']
      refine ⟨Nat.zero_le _, List.nodup_nil, ?_, ?_, ?_, rfl, (Nat.add_zero _).symm, ?_, ?_,
        fun _ => hfull⟩
      all_goals simp
    · have hnext : bitmapTest (bitmapSet s p) 0 = true := by simp [hzero]
      have hrest := ih hnext
      have hsome : allocBuffer (n + 1) s =
          (p :: (allocBuffer n (bitmapSet s p)).1, (allocBuffer n (bitmapSet s p)).2) := by
        rw [allocBuffer, hp]
        exact if_neg hp0
      have hnot : ∀ f ∈ (allocBuffer n (bitmapSet s p)).1, f ≠ p ∧ bitmapTest s f = false := by
        intro f hf
        have hfree := hrest.free f hf
        simp only [bitmapTest_bitmapSet, Bool.or_eq_false_iff, decide_eq_false_iff_not] at hfree
        exact hfree
      have hleast : ∀ g, g < p → bitmapTest s g = true := by
        intro g hg
        exact mmFrameAlloc_least (by rw [hp]; exact hg)
      rw [hsome]
      have hgrab : freeFrames s = freeFrames (bitmapSet s p) + 1 :=
        (freeFrames_grab hplt hpfree).symm
      refine ⟨Nat.succ_le_succ hrest.length_le, ?_, ?_, ?_, ?_, ?_, ?_, hleast, ?_, ?_⟩
      · exact List.nodup_cons.mpr ⟨fun hmem => (hnot p hmem).1 rfl, hrest.nodup⟩
      · intro f hf
        rcases List.mem_cons.mp hf with rfl | hf
        · exact hplt
        · exact hrest.lt f hf
      · intro f hf
        rcases List.mem_cons.mp hf with rfl | hf
        · exact hpfree
        · exact (hnot f hf).2
      · intro f
        rw [hrest.used f]
        simp only [bitmapTest_bitmapSet, Bool.or_eq_true, decide_eq_true_eq, List.mem_cons]
        rw [or_assoc]
        exact or_left_comm
      · exact hrest.mem.trans (mem_bitmapSet s p)
      · rw [hgrab, hrest.left, List.length_cons, Nat.add_assoc]
      · intro f hf g hg hgfree
        rcases List.mem_cons.mp hf with rfl | hf
        · rw [hleast g hg] at hgfree
          cases hgfree
        · by_cases hgp : g = p
          · exact hgp ▸ List.mem_cons_self
          · refine List.mem_cons_of_mem _ (hrest.least f hf g hg ?_)
            simp [hgp, hgfree]
      · intro hlen
        exact hrest.full (Nat.lt_of_succ_lt_succ hlen)

end Loop

section Region

variable {s s' : State} {n b : Nat} {rest : List Nat}

/-- Every frame of the region into which the file is read was taken for it. -/
def RegionTaken (n b : Nat) (taken : List Nat) : Prop :=
  ∀ i, i < n → b + i ∈ taken

/-- The frames that the exits release for the buffer are those taken for it. -/
def ReleasesTaken (released taken : List Nat) : Prop :=
  ∀ f, f < identPages → (f ∈ released ↔ f ∈ taken)

theorem Taken.bound (h : Taken n s s' (b :: rest)) :
    b < identPages :=
  h.lt b List.mem_cons_self

theorem Taken.not_below (h : Taken n s s' (b :: rest)) {f : Nat} (hf : f ∈ b :: rest) :
    b ≤ f := by
  by_contra hlt
  have hused := h.first f (Nat.not_le.mp hlt)
  rw [h.free f hf] at hused
  cases hused

theorem RegionTaken.mem_iff
    (h : Taken n s s' (b :: rest)) (hregion : RegionTaken n b (b :: rest)) (f : Nat) :
    f ∈ b :: rest ↔ b ≤ f ∧ f < b + n := by
  constructor
  · intro hf
    refine ⟨h.not_below hf, ?_⟩
    by_contra hge
    -- the region and one frame more would be too many
    have hsub : f :: List.range' b n ⊆ b :: rest := by
      intro g hg
      rcases List.mem_cons.mp hg with rfl | hg
      · exact hf
      · obtain ⟨i, hi, rfl⟩ := List.mem_range'.mp hg
        have hmem := hregion i hi
        rwa [Nat.one_mul]
    have hnodup : (f :: List.range' b n).Nodup := by
      refine List.nodup_cons.mpr ⟨?_, List.nodup_range'⟩
      intro hmem
      rw [List.mem_range'_1] at hmem
      omega
    have hlen := (hnodup.subperm hsub).length_le
    have hle := h.length_le
    rw [List.length_cons, List.length_range'] at hlen
    omega
  · rintro ⟨hlo, hhi⟩
    have hmem := hregion (f - b) (by omega)
    rwa [Nat.add_sub_cancel' hlo] at hmem

theorem RegionTaken.length_ge (hregion : RegionTaken n b (b :: rest)) :
    n ≤ (b :: rest).length := by
  have hnodup : (List.range' b n).Nodup := List.nodup_range'
  have hall : List.range' b n ⊆ b :: rest := by
    intro g hg
    rw [List.mem_range'_1] at hg
    have hmem := hregion (g - b) (by omega)
    rwa [Nat.add_sub_cancel' hg.1] at hmem
  have hlen := (hnodup.subperm hall).length_le
  rwa [List.length_range'] at hlen

variable (h : Taken n s s' (b :: rest))
include h

theorem Taken.region_of_free
    (hfree : ∀ i, i < n → b + i < identPages ∧ bitmapTest s (b + i) = false) :
    RegionTaken n b (b :: rest) := by
  intro i hi
  by_contra hnot
  obtain ⟨hlt, hclear⟩ := hfree i hi
  rcases Nat.lt_or_ge (b :: rest).length n with hshort | hlong
  · -- a loop that stopped early has taken every free frame
    rcases (h.used (b + i)).mp (h.full hshort _ hlt) with hused | hmem
    · rw [hclear] at hused
      cases hused
    · exact hnot hmem
  · have hsub : b :: rest ⊆ List.range' b i := by
      intro f hf
      rw [List.mem_range'_1]
      refine ⟨h.not_below hf, ?_⟩
      by_contra hge
      rcases Nat.lt_or_eq_of_le (Nat.not_lt.mp hge) with hgt | heq
      · exact hnot (h.least f hf _ hgt hclear)
      · exact hnot (heq ▸ hf)
    have hlen := (h.nodup.subperm hsub).length_le
    rw [List.length_range'] at hlen
    omega

theorem Taken.region_iff :
    RegionTaken n b (b :: rest) ↔
      ∀ i, i < n → b + i < identPages ∧ bitmapTest s (b + i) = false :=
  ⟨fun hregion i hi => ⟨h.lt _ (hregion i hi), h.free _ (hregion i hi)⟩, h.region_of_free⟩

theorem RegionTaken.releases (hregion : RegionTaken n b (b :: rest)) :
    ReleasesTaken (bufferFrames b n) (b :: rest) := by
  intro f _
  rw [hregion.mem_iff h, mem_bufferFrames]
  have hwrap : ∀ i, i < n → (b + i) % 2 ^ 20 = b + i := by
    intro i hi
    have hlt := h.lt _ (hregion i hi)
    unfold identPages at hlt
    exact Nat.mod_eq_of_lt (by omega)
  constructor
  · rintro ⟨i, hi, rfl⟩
    rw [hwrap i hi]
    omega
  · rintro ⟨hlo, hhi⟩
    refine ⟨f - b, by omega, ?_⟩
    rw [hwrap _ (by omega), Nat.add_sub_cancel' hlo]

/-- A loop that stopped early: the exit releases what was taken exactly when
the free frames were those from the first one to the end of memory. -/
theorem Taken.releases_iff_of_short (hzero : bitmapTest s 0 = true)
    (hshort : (b :: rest).length < n) :
    ReleasesTaken (bufferFrames b n) (b :: rest) ↔
      identPages < b + n ∧ b + n ≤ 2 ^ 20 ∧
        ∀ f, b ≤ f → f < identPages → bitmapTest s f = false := by
  have hfree : ∀ f, f < identPages → (f ∈ b :: rest ↔ bitmapTest s f = false) := by
    intro f hf
    refine ⟨h.free f, fun hclear => ?_⟩
    rcases (h.used f).mp (h.full hshort f hf) with hused | hmem
    · rw [hclear] at hused
      cases hused
    · exact hmem
  have hb := h.bound
  have hident : identPages = 4096 := rfl
  constructor
  · intro hrel
    have hwrap : b + n ≤ 2 ^ 20 := by
      by_contra hover
      have h0 : 0 ∈ bufferFrames b n :=
        mem_bufferFrames.mpr ⟨2 ^ 20 - b, by omega, by
          rw [Nat.add_sub_cancel' (by omega)]
          decide⟩
      have hclear := (hfree 0 (by decide)).mp ((hrel 0 (by decide)).mp h0)
      rw [hzero] at hclear
      cases hclear
    have hmem : ∀ i, i < n → b + i < identPages → b + i ∈ b :: rest := by
      intro i hi hlt
      refine (hrel _ hlt).mp (mem_bufferFrames.mpr ⟨i, hi, ?_⟩)
      exact Nat.mod_eq_of_lt (by omega)
    have hover : identPages < b + n := by
      by_contra hle
      -- otherwise the whole region was free, and the loop would have gone on
      have hregion : RegionTaken n b (b :: rest) :=
        fun i hi => hmem i hi (by omega)
      have hlen := hregion.length_ge
      omega
    refine ⟨hover, hwrap, ?_⟩
    intro f hlo hhi
    have hf := hmem (f - b) (by omega) (by omega)
    rw [Nat.add_sub_cancel' hlo] at hf
    exact h.free f hf
  · rintro ⟨hover, hwrap, hclear⟩ f hf
    rw [mem_bufferFrames]
    constructor
    · rintro ⟨i, hi, rfl⟩
      exact (hfree _ hf).mpr (hclear _ (by omega) hf)
    · intro hmem
      have hlo := h.not_below hmem
      exact ⟨f - b, by omega, by rw [Nat.add_sub_cancel' hlo]; exact Nat.mod_eq_of_lt (by omega)⟩

omit h

/--
Memory in which the buffer comes out right: no frame is needed or none is
there; or, from the first free frame on, all frames of the region are free, or
all frames to the end of memory are free and the region goes beyond it.
-/
def BufferFits (s : State) (n : Nat) : Prop :=
  n = 0 ∨ (∀ f, f < identPages → bitmapTest s f = true) ∨
    ∃ b, bitmapTest s b = false ∧ (∀ g, g < b → bitmapTest s g = true) ∧
      ((∀ i, i < n → b + i < identPages ∧ bitmapTest s (b + i) = false) ∨
        (identPages < b + n ∧ b + n ≤ 2 ^ 20 ∧
          ∀ f, b ≤ f → f < identPages → bitmapTest s f = false))

theorem Taken.bufferFits_iff (h : Taken n s s' (b :: rest)) :
    BufferFits s n ↔
      (∀ i, i < n → b + i < identPages ∧ bitmapTest s (b + i) = false) ∨
        (identPages < b + n ∧ b + n ≤ 2 ^ 20 ∧
          ∀ f, b ≤ f → f < identPages → bitmapTest s f = false) := by
  have hclear := h.free b List.mem_cons_self
  constructor
  · rintro (hn | hfull | ⟨b', hfree, hfirst, hrun⟩)
    · have hle := h.length_le
      rw [hn] at hle
      cases hle
    · rw [hfull b h.bound] at hclear
      cases hclear
    · have heq : b' = b := by
        rcases Nat.lt_trichotomy b' b with hlt | heq | hgt
        · rw [h.first b' hlt] at hfree
          cases hfree
        · exact heq
        · rw [hfirst b hgt] at hclear
          cases hclear
      exact heq ▸ hrun
  · intro hrun
    exact Or.inr (Or.inr ⟨b, hclear, h.first, hrun⟩)

/-- When the buffer comes out right: what is read into was taken, and what is
released was taken. -/
theorem Taken.right_iff (h : Taken n s s' (b :: rest)) (hzero : bitmapTest s 0 = true) :
    (((b :: rest).length = n → RegionTaken n b (b :: rest)) ∧
        ReleasesTaken (bufferFrames b n) (b :: rest)) ↔ BufferFits s n := by
  rw [h.bufferFits_iff]
  rcases Nat.lt_or_eq_of_le h.length_le with hshort | hfull
  · rw [h.releases_iff_of_short hzero hshort]
    constructor
    · intro hright
      exact Or.inr hright.2
    · rintro (hfree | hrun)
      · -- a free region would have been taken as a whole
        have hlen := (h.region_of_free hfree).length_ge
        omega
      · exact ⟨fun heq => absurd heq (by omega), hrun⟩
  · constructor
    · intro hright
      exact Or.inl (h.region_iff.mp (hright.1 hfull))
    · rintro (hfree | ⟨hover, _, hclear⟩)
      · have hregion := h.region_of_free hfree
        exact ⟨fun _ => hregion, hregion.releases h⟩
      · -- too few frames up to the end of memory for a loop that took them all
        have hsub : b :: rest ⊆ List.range' b (identPages - b) := by
          intro f hf
          rw [List.mem_range'_1]
          have hlo := h.not_below hf
          have hhi := h.lt f hf
          omega
        have hlen := (h.nodup.subperm hsub).length_le
        rw [List.length_range'] at hlen
        have hb := h.bound
        omega

end Region

end Exec
end Homunculos
