import Homunculos.Mm.CloneDir
import Homunculos.Lib.Run

/-!
# Families of address spaces

Page directories change by `mm_alloc_at`, `mm_unmap_at` and `mm_clone_pdir`
on user addresses. From a start state without user mappings every run keeps
each page and each page table in use and named by one slot of one directory.
A clone that succeeds repeats the parent; one that fails frees what it took.
-/

namespace Homunculos
namespace Mm

/-- One call of the memory manager on a family of page directories. -/
inductive MmStep : State × List Nat → State × List Nat → Prop
  | allocAt
      (s : State) (dirs : List Nat) (d va : Nat) (flags : BitVec 32)
      (hd : d ∈ dirs)
      (hlo : 4 ≤ pdIdx va)
      (hva : va < 2 ^ 32)
      (hpres : present flags = true)
      (hflags : flags.toNat < 4096) :
      MmStep (s, dirs) ((mmAllocAt s d va flags).2, dirs)
  | unmapAt
      (s : State) (dirs : List Nat) (d va : Nat)
      (hd : d ∈ dirs)
      (hlo : 4 ≤ pdIdx va)
      (hva : va < 2 ^ 32) :
      MmStep (s, dirs) ((mmUnmapAt s d va).2, dirs)
  | clonePdir
      (s : State) (dirs : List Nat) (d : Nat)
      (hd : d ∈ dirs) :
      MmStep (s, dirs)
        ((mmClonePdir s d).2,
          if (mmClonePdir s d).1 = 0 then dirs
          else (mmClonePdir s d).1 :: dirs)

/--
A start state: kernel frames, frame 0 among them, and the directories are
marked used, and no user directory entry is present.
-/
structure MmStart (kernel : Nat → Prop) (s : State) (dirs : List Nat) : Prop where
  kernelZero : kernel 0
  kernelUsed : ∀ f, kernel f → bitmapTest s f = true
  dirUsed : ∀ d, d ∈ dirs → bitmapTest s d = true
  empty : ∀ d, d ∈ dirs → ∀ i, 4 ≤ i → i < dirSize →
    present (s.mem d i) = false

/-- The child has the parent's flags and bytes and the parent is as before. -/
structure ClonedSpace (s s' : State) (parent child : Nat) : Prop where
  flags : ∀ i j, 4 ≤ i → i < dirSize → j < dirSize →
    entryFlags (slot s' child i j) = entryFlags (slot s parent i j)
  bytes : ∀ i j, 4 ≤ i → i < dirSize → j < dirSize →
    present (slot s parent i j) = true →
    s'.mem (entryFrame (slot s' child i j)) =
      s.mem (entryFrame (slot s parent i j))
  parentDir : s'.mem parent = s.mem parent
  parentFrames : ∀ r : Ref, r.Live s [parent] →
    s'.mem (r.frame s) = s.mem (r.frame s)

section Run

variable {kernel : Nat → Prop} {s s' : State} {dirs : List Nat}

theorem MmStart.owned (h : MmStart kernel s dirs) :
    Owned kernel s dirs := by
  have hnone : ∀ r : Ref, ¬ r.Live s dirs := by
    intro r hr
    cases r with
    | table d i =>
      obtain ⟨hd, hlo, hhi, hpres⟩ := hr
      rw [h.empty d hd i hlo hhi] at hpres
      cases hpres
    | page d i j =>
      obtain ⟨⟨hd, hlo, hhi, hpres⟩, _⟩ := hr
      rw [h.empty d hd i hlo hhi] at hpres
      cases hpres
  exact ⟨h.kernelZero, h.kernelUsed, h.dirUsed,
    fun r hr => absurd hr (hnone r), fun r hr => absurd hr (hnone r),
    fun r hr => absurd hr (hnone r), fun r hr => absurd hr (hnone r),
    fun r _ hr => absurd hr (hnone r)⟩

theorem MmStep.owned {x y : State × List Nat} (hstep : MmStep x y) (ho : Owned kernel x.1 x.2) :
    Owned kernel y.1 y.2 := by
  cases hstep with
  | allocAt s dirs d va flags hd hlo hva hpres hflags =>
    dsimp only at ho ⊢
    rcases mmAllocAt_spec ho hd hlo hva hflags with
      ⟨_, hsame, _⟩ | ⟨_, p, hmap⟩
    · exact ho.of_keeps hsame.keeps
    · exact hmap.owned
  | unmapAt s dirs d va hd hlo hva =>
    rcases mmUnmapAt_spec ho hd hlo hva with ⟨_, hout⟩ | ⟨_, hun⟩
    · rw [hout]
      exact ho
    · exact hun.owned
  | clonePdir s dirs d hd =>
    dsimp only at ho ⊢
    rcases mmClonePdir_spec ho hd with ⟨hz, hsame⟩ | ⟨hnz, _, _, hcl⟩
    · rw [if_pos hz]
      exact ho.of_keeps hsame.keeps
    · rw [if_neg hnz]
      exact ho.clone hcl

theorem owned_of_run
    {x y : State × List Nat} (ho : Owned kernel x.1 x.2) (hrun : Relation.ReflTransGen MmStep x y) :
    Owned kernel y.1 y.2 :=
  Run.Keeps.run (P := fun z => Owned kernel z.1 z.2)
    (fun _ _ hstep hs => hstep.owned hs) hrun ho

theorem DirClone.clonedSpace {parent c : Nat} (ho : Owned kernel s dirs) (hparent : parent ∈ dirs)
    (h : DirClone s s' parent c (dirSize - 4)) :
    ClonedSpace s s' parent c := by
  have hpres : ∀ i, 4 ≤ i → i < dirSize →
      present (s'.mem c i) = present (s.mem parent i) := by
    intro i hlo hhi
    have hf := h.flags (i - 4) (by omega)
    rw [show 4 + (i - 4) = i by omega] at hf
    rw [← present_entryFlags, hf, present_entryFlags]
  have hentry : ∀ i j, 4 ≤ i → i < dirSize → j < dirSize →
      present (s.mem parent i) = true →
      EntryClone s s' (pte s parent i j) (pte s' c i j) := by
    intro i j hlo hhi hj hp
    have he := h.entry (i - 4) (by omega)
    rw [show 4 + (i - 4) = i by omega] at he
    exact he hp j hj
  refine ⟨?_, ?_, h.grown.mem parent (ho.dirUsed parent hparent), ?_⟩
  · intro i j hlo hhi hj
    unfold slot
    rw [hpres i hlo hhi]
    by_cases hp : present (s.mem parent i) = true
    · rw [if_pos hp, if_pos hp]
      exact (hentry i j hlo hhi hj hp).flags
    · rw [if_neg hp, if_neg hp]
  · intro i j hlo hhi hj hpage
    unfold slot at hpage ⊢
    rw [hpres i hlo hhi]
    by_cases hp : present (s.mem parent i) = true
    · rw [if_pos hp] at hpage
      rw [if_pos hp, if_pos hp]
      exact (hentry i j hlo hhi hj hp).bytes hpage
    · rw [if_neg hp] at hpage
      simp at hpage
  · intro r hr
    apply h.grown.mem
    apply ho.refUsed r
    cases r with
    | table d i =>
      obtain ⟨hd, hrest⟩ := hr
      have hdp : d = parent := by simpa using hd
      subst hdp
      exact ⟨hparent, hrest⟩
    | page d i j =>
      obtain ⟨⟨hd, hrest⟩, hpage⟩ := hr
      have hdp : d = parent := by simpa using hd
      subst hdp
      exact ⟨⟨hparent, hrest⟩, hpage⟩

theorem SameUse.frameBitmap_eq (h : SameUse s s') :
    s'.frameBitmap = s.frameBitmap :=
  Bitmap.words_ext (by decide) h.used

/--
Along every run each user page and page table is in use and named once, a
successful clone repeats its parent, and a failed one restores the bitmap.
-/
theorem spaces_disjoint_and_clone_exact
    {s₀ : State} {dirs₀ : List Nat} (hstart : MmStart kernel s₀ dirs₀)
    (hrun : Relation.ReflTransGen MmStep (s₀, dirs₀) (s, dirs)) :
    (∀ r : Ref, r.Live s dirs →
        bitmapTest s (r.frame s) = true ∧
          ∀ q : Ref, q.Live s dirs → q.frame s = r.frame s → q = r) ∧
      ∀ parent, parent ∈ dirs →
        ((mmClonePdir s parent).1 ≠ 0 →
          ClonedSpace s (mmClonePdir s parent).2 parent
            (mmClonePdir s parent).1) ∧
        ((mmClonePdir s parent).1 = 0 →
          (mmClonePdir s parent).2.frameBitmap = s.frameBitmap) := by
  have ho : Owned kernel s dirs := owned_of_run hstart.owned hrun
  refine ⟨?_, ?_⟩
  · intro r hr
    refine ⟨ho.refUsed r hr, ?_⟩
    intro q hq heq
    exact ho.refInj q r hq hr heq
  · intro parent hparent
    rcases mmClonePdir_spec ho hparent with
      ⟨hz, hsame⟩ | ⟨hnz, _, _, hclone⟩
    · exact ⟨fun h => absurd hz h, fun _ => hsame.frameBitmap_eq⟩
    · exact ⟨fun _ => hclone.clonedSpace ho hparent, fun h => absurd h hnz⟩

/-- Frame 0 and the directory in frame 1 are used, all memory is zero. -/
def oneDirectory : State where
  frameBitmap := Function.update (fun _ => 0) 0 3
  mem := fun _ _ => 0

theorem oneDirectory_start :
    MmStart (fun f => f = 0) oneDirectory [1] where
  kernelZero := rfl
  kernelUsed := by
    rintro f rfl
    decide
  dirUsed := by
    intro d hd
    obtain rfl : d = 1 := by simpa using hd
    decide
  empty := by
    intro d _ i _ _
    exact present_zero

/-- One page is mapped in the directory. -/
def onePage : State :=
  (mmAllocAt oneDirectory 1 0x40000000 7).2

theorem onePage_step :
    MmStep (oneDirectory, [1]) (onePage, [1]) :=
  .allocAt oneDirectory [1] 1 0x40000000 7 (by decide) (by decide)
    (by decide) (by decide) (by decide)

theorem onePage_live :
    (Ref.page 1 256 0).Live onePage [1] := by
  refine ⟨⟨by decide, by decide, by decide, ?_⟩, by decide, ?_⟩
  · decide +kernel
  · decide +kernel

/-- The mapped page is in use and no other slot names its frame. -/
theorem spaces_disjoint_and_clone_exact_onePage :
    bitmapTest onePage ((Ref.page 1 256 0).frame onePage) = true ∧
      ∀ q : Ref, q.Live onePage [1] →
        q.frame onePage = (Ref.page 1 256 0).frame onePage →
        q = .page 1 256 0 :=
  (spaces_disjoint_and_clone_exact oneDirectory_start
    (Relation.ReflTransGen.single onePage_step)).1 _ onePage_live

end Run

end Mm
end Homunculos
