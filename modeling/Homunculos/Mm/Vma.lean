import Mathlib

/-!
# The table of memory areas of a task

`vma_find_gap`, `vma_add`, `vma_remove` and `vma_update_prot` of
`kernel/syscall.c`.  The areas in use are the first `vma_count` entries of a
fixed array; they are a list here whose length is bounded by the array size.

`vma_remove` runs downwards and fills each hole with the last area.  Its
result is, up to the order of the areas, the table without the areas that the
range touches.
-/

namespace Homunculos
namespace Mm

def maxVma : Nat := 16

def mmapBase : Nat := 0x40000000

/-- `struct vm_area`; `stop` is its field `end`. -/
structure VmArea where
  start : Nat
  stop : Nat
  prot : BitVec 32
  flags : BitVec 32
deriving DecidableEq, Repr

/-- `lo < v->end && hi > v->start`. -/
def VmArea.overlaps (v : VmArea) (lo hi : Nat) : Bool :=
  decide (lo < v.stop) && decide (v.start < hi)

theorem VmArea.overlaps_iff (v : VmArea) (lo hi : Nat) :
    v.overlaps lo hi = true ↔ lo < v.stop ∧ v.start < hi := by
  simp [VmArea.overlaps]

theorem VmArea.overlaps_iff_meet {v : VmArea} {lo hi : Nat} (hv : v.start < v.stop) (h : lo < hi) :
    v.overlaps lo hi = true ↔ ∃ x, lo ≤ x ∧ x < hi ∧ v.start ≤ x ∧ x < v.stop := by
  rw [VmArea.overlaps_iff]
  constructor
  · rintro ⟨hlo, hhi⟩
    exact ⟨max lo v.start, by omega, by omega, by omega, by omega⟩
  · rintro ⟨x, hx⟩
    omega

/-- The fields `vmas` and `vma_count` of a task. -/
structure VmaTable where
  areas : List VmArea
  bound : areas.length ≤ maxVma

/-- The table of a new task. -/
def VmaTable.empty : VmaTable where
  areas := []
  bound := by decide

section FindGap

variable {areas : List VmArea}

theorem areas_above_lt
    {v : VmArea} {lo hi : Nat} (h : areas.find? (·.overlaps lo hi) = some v) :
    (areas.filter (fun a => v.stop < a.stop)).length <
      (areas.filter (fun a => lo < a.stop)).length := by
  have hmem := List.mem_of_find?_eq_some h
  have hover := List.find?_some h
  rw [VmArea.overlaps_iff] at hover
  have hsub : areas.filter (fun a => v.stop < a.stop) =
      (areas.filter (fun a => lo < a.stop)).filter
        (fun a => v.stop < a.stop) := by
    rw [List.filter_filter]
    apply List.filter_congr
    intro a _
    have himp : v.stop < a.stop → lo < a.stop := fun ha => hover.1.trans ha
    by_cases ha : v.stop < a.stop
    · simp [himp ha]
    · simp [ha]
  rw [hsub]
  apply List.length_filter_lt_length_iff_exists.mpr
  refine ⟨v, List.mem_filter.mpr ⟨hmem, by simpa using hover.1⟩, ?_⟩
  simp

/-- The loop of `vma_find_gap`; it returns 0 when the address wraps. -/
def vmaFindGapFrom (areas : List VmArea) (length candidate : Nat) : Nat :=
  if (candidate + length) % 2 ^ 32 < candidate then
    0
  else
    match h : areas.find?
        (·.overlaps candidate ((candidate + length) % 2 ^ 32)) with
    | none => candidate
    | some v =>
      if (v.stop + length) % 2 ^ 32 < v.stop then 0
      else vmaFindGapFrom areas length v.stop
termination_by (areas.filter (fun a => candidate < a.stop)).length
decreasing_by exact areas_above_lt h

def vmaFindGap (t : VmaTable) (length : Nat) : Nat :=
  vmaFindGapFrom t.areas length mmapBase

/--
A gap starts at the candidate or at the end of an area, does not wrap around
and is free.
-/
theorem vmaFindGapFrom_spec
    {length : Nat} (hareas : ∀ v ∈ areas, v.stop < 2 ^ 32)
    (hlen : length < 2 ^ 32) (candidate : Nat) (hc : candidate < 2 ^ 32) :
    vmaFindGapFrom areas length candidate = 0 ∨
      (candidate ≤ vmaFindGapFrom areas length candidate ∧
        vmaFindGapFrom areas length candidate + length < 2 ^ 32 ∧
        (vmaFindGapFrom areas length candidate = candidate ∨
          ∃ v ∈ areas, vmaFindGapFrom areas length candidate = v.stop) ∧
        ∀ v ∈ areas, v.overlaps
          (vmaFindGapFrom areas length candidate)
          (vmaFindGapFrom areas length candidate + length) = false) := by
  fun_induction vmaFindGapFrom areas length candidate with
  | case1 c hwrap => exact Or.inl rfl
  | case2 c hwrap hnone =>
    have hend : (c + length) % 2 ^ 32 = c + length := by omega
    right
    refine ⟨le_refl c, by omega, Or.inl rfl, ?_⟩
    intro v hv
    rw [hend] at hnone
    simpa using List.find?_eq_none.mp hnone v hv
  | case3 c hwrap v hsome hwrap' => exact Or.inl rfl
  | case4 c hwrap v hsome hwrap' ih =>
    have hover := List.find?_some hsome
    rw [VmArea.overlaps_iff] at hover
    have hmem := List.mem_of_find?_eq_some hsome
    rcases ih (hareas v hmem) with hz | ⟨hle, hlt, hfrom, hfree⟩
    · exact Or.inl hz
    · refine Or.inr ⟨by omega, hlt, Or.inr ?_, hfree⟩
      rcases hfrom with hv | hw
      · exact ⟨v, hmem, hv⟩
      · exact hw

/-- No gap is passed over: every free place from the candidate on is at or above the result. -/
theorem vmaFindGapFrom_le {length c : Nat} (hfits : c + length < 2 ^ 32)
    (hfree : ∀ v ∈ areas, v.overlaps c (c + length) = false) (candidate : Nat)
    (hc : candidate ≤ c) :
    vmaFindGapFrom areas length candidate ≤ c ∧
      (0 < candidate → 0 < vmaFindGapFrom areas length candidate) := by
  -- an area in the way of the candidate ends at or below `c`
  have hstop : ∀ d v, d ≤ c → areas.find? (·.overlaps d ((d + length) % 2 ^ 32)) = some v →
      d < v.stop ∧ v.stop ≤ c := by
    intro d v hd hsome
    have hover := List.find?_some hsome
    have hclear := hfree v (List.mem_of_find?_eq_some hsome)
    rw [VmArea.overlaps_iff] at hover
    rw [← Bool.not_eq_true, VmArea.overlaps_iff] at hclear
    omega
  fun_induction vmaFindGapFrom areas length candidate with
  | case1 d hwrap => omega
  | case2 d hwrap hnone => exact ⟨hc, id⟩
  | case3 d hwrap v hsome hwrap' =>
    have hv := hstop d v hc hsome
    omega
  | case4 d hwrap v hsome hwrap' ih =>
    obtain ⟨hlt, hle⟩ := hstop d v hc hsome
    obtain ⟨hres, hpos⟩ := ih hle
    exact ⟨hres, fun _ => hpos (by omega)⟩

/-- A place for `length` bytes from `MMAP_BASE` on that meets no area. -/
structure Gap (t : VmaTable) (length c : Nat) : Prop where
  base : mmapBase ≤ c
  fits : c + length < 2 ^ 32
  free : ∀ v ∈ t.areas, ∀ x, c ≤ x → x < c + length → ¬ (v.start ≤ x ∧ x < v.stop)

theorem gap_iff {t : VmaTable} {length c : Nat} (hareas : ∀ v ∈ t.areas, v.start < v.stop)
    (hpos : 0 < length) :
    Gap t length c ↔ mmapBase ≤ c ∧ c + length < 2 ^ 32 ∧
      ∀ v ∈ t.areas, v.overlaps c (c + length) = false := by
  have hmeet : ∀ v ∈ t.areas, (∀ x, c ≤ x → x < c + length → ¬ (v.start ≤ x ∧ x < v.stop)) ↔
      v.overlaps c (c + length) = false := by
    intro v hv
    rw [← Bool.not_eq_true, VmArea.overlaps_iff_meet (hareas v hv) (by omega)]
    push Not
    rfl
  exact ⟨fun h => ⟨h.base, h.fits, fun v hv => (hmeet v hv).mp (h.free v hv)⟩,
    fun h => ⟨h.1, h.2.1, fun v hv => (hmeet v hv).mpr (h.2.2 v hv)⟩⟩

/-- `vma_find_gap` returns the least gap, and 0 exactly if there is none. -/
theorem vmaFindGap_least
    (t : VmaTable) (hareas : ∀ v ∈ t.areas, v.start < v.stop ∧ v.stop < 2 ^ 32)
    (length : Nat) (hpos : 0 < length) (hlen : length < 2 ^ 32) :
    ((∃ c, Gap t length c) → IsLeast {c | Gap t length c} (vmaFindGap t length)) ∧
      (vmaFindGap t length = 0 ↔ ¬ ∃ c, Gap t length c) := by
  have hiff : ∀ c, Gap t length c ↔ _ := fun c => gap_iff (fun v hv => (hareas v hv).1) hpos
  have hbelow : ∀ c, Gap t length c → vmaFindGap t length ≤ c ∧ 0 < vmaFindGap t length := by
    intro c hc
    obtain ⟨hbase, hfits, hfree⟩ := (hiff c).mp hc
    obtain ⟨hle, hne⟩ := vmaFindGapFrom_le hfits hfree mmapBase hbase
    exact ⟨hle, hne (by decide)⟩
  have hspec := vmaFindGapFrom_spec (fun v hv => (hareas v hv).2) hlen mmapBase (by decide)
  have hgap : vmaFindGap t length ≠ 0 → Gap t length (vmaFindGap t length) := by
    intro hne
    obtain ⟨hle, hfits, -, hfree⟩ := hspec.resolve_left hne
    exact (hiff _).mpr ⟨hle, hfits, hfree⟩
  refine ⟨?_, ?_, ?_⟩
  · rintro ⟨c, hc⟩
    exact ⟨hgap (hbelow c hc).2.ne', fun c' hc' => (hbelow c' hc').1⟩
  · rintro hzero ⟨c, hc⟩
    have hlt := (hbelow c hc).2
    omega
  · intro hnone
    by_contra hne
    exact hnone ⟨_, hgap hne⟩

/-- Two adjacent areas, the upper one first. -/
def adjacentAreas : VmaTable where
  areas := [⟨0x40001000, 0x40002000, 1#32, 34#32⟩, ⟨0x40000000, 0x40001000, 3#32, 34#32⟩]
  bound := by decide

theorem vmaFindGap_least_adjacent :
    IsLeast {c | Gap adjacentAreas 4096 c} (vmaFindGap adjacentAreas 4096) := by
  refine (vmaFindGap_least adjacentAreas (by decide) 4096 (by decide) (by decide)).1 ?_
  exact ⟨0x40002000, (gap_iff (by decide) (by decide)).mpr ⟨by decide, by decide, by decide⟩⟩

end FindGap

/-- `vma_add`; `none` is the return value `-1` of a full table. -/
def vmaAdd (t : VmaTable) (start stop : Nat) (prot flags : BitVec 32) : Option VmaTable :=
  if h : t.areas.length ≥ maxVma then
    none
  else
    some
      { areas := t.areas ++ [⟨start, stop, prot, flags⟩]
        bound := by
          rw [List.length_append, List.length_singleton]
          omega }

theorem vmaAdd_areas {t t' : VmaTable} {start stop : Nat} {prot flags : BitVec 32}
    (h : vmaAdd t start stop prot flags = some t') :
    t'.areas = t.areas ++ [⟨start, stop, prot, flags⟩] := by
  unfold vmaAdd at h
  split at h
  · cases h
  · rw [← Option.some.inj h]

section Remove

/-- Clear area `i`, move the last area there and shorten the table. -/
def dropArea (areas : List VmArea) (i : Nat) : List VmArea :=
  let cleared := areas.set i ⟨0, 0, 0#32, 0#32⟩
  (cleared.set i (cleared.getLastD ⟨0, 0, 0#32, 0#32⟩)).dropLast

/-- The downward loop of `vma_remove` over the first `i` areas. -/
def vmaRemoveLoop (lo hi : Nat) (areas : List VmArea) : Nat → List VmArea
  | 0 => areas
  | i + 1 =>
    match areas[i]? with
    | none => vmaRemoveLoop lo hi areas i
    | some v =>
      if v.overlaps lo hi then
        vmaRemoveLoop lo hi (dropArea areas i) i
      else
        vmaRemoveLoop lo hi areas i

theorem dropArea_append (pre rest : List VmArea) (x : VmArea) :
    ∃ rest', dropArea (pre ++ x :: rest) pre.length = pre ++ rest' ∧
      rest'.Perm rest := by
  rcases List.eq_nil_or_concat rest with rfl | ⟨r, y, rfl⟩
  · refine ⟨[], ?_, List.Perm.refl _⟩
    simp [dropArea]
  · have hset : ∀ v z : VmArea,
        (pre ++ v :: (r ++ [y])).set pre.length z =
          (pre ++ z :: r) ++ [y] := by
      intro v z
      simp
    refine ⟨y :: r, ?_, ?_⟩
    · unfold dropArea
      dsimp only
      rw [List.concat_eq_append, hset, List.getLastD_concat,
        List.append_assoc, List.cons_append, hset, List.dropLast_concat]
    · rw [List.concat_eq_append]
      exact (List.perm_append_singleton y r).symm

/-- The loop over the areas `pre` filters them; `rest` has been filtered. -/
theorem vmaRemoveLoop_perm (lo hi : Nat) (pre rest : List VmArea) :
    (vmaRemoveLoop lo hi (pre ++ rest) pre.length).Perm
      (pre.filter (fun v => !v.overlaps lo hi) ++ rest) := by
  induction pre using List.reverseRecOn generalizing rest with
  | nil => exact List.Perm.refl _
  | append_singleton pre x ih =>
    have hlen : (pre ++ [x]).length = pre.length + 1 := by simp
    rw [hlen, vmaRemoveLoop]
    by_cases hover : x.overlaps lo hi = true
    · obtain ⟨rest', hdrop, hperm⟩ := dropArea_append pre rest x
      have hout := (ih rest').trans (hperm.append_left _)
      simpa [hover, hdrop] using hout
    · have hout := ih (x :: rest)
      simpa [hover] using hout

theorem vmaRemoveLoop_all (lo hi : Nat) (areas : List VmArea) :
    (vmaRemoveLoop lo hi areas areas.length).Perm (areas.filter (fun v => !v.overlaps lo hi)) := by
  have hperm := vmaRemoveLoop_perm lo hi areas []
  rwa [List.append_nil, List.append_nil] at hperm

def vmaRemove (t : VmaTable) (lo hi : Nat) : VmaTable where
  areas := vmaRemoveLoop lo hi t.areas t.areas.length
  bound := by
    rw [(vmaRemoveLoop_all lo hi t.areas).length_eq]
    exact (List.length_filter_le _ _).trans t.bound

theorem mem_vmaRemove (t : VmaTable) (lo hi : Nat) (v : VmArea) :
    v ∈ (vmaRemove t lo hi).areas ↔
      v ∈ t.areas ∧ v.overlaps lo hi = false := by
  unfold vmaRemove
  rw [(vmaRemoveLoop_all lo hi t.areas).mem_iff]
  simp

/-- `vma_remove` keeps exactly the areas that do not meet the range, each as often as it was
there. -/
theorem vmaRemove_exact (t : VmaTable) {start stop : Nat} (h : start < stop) :
    (vmaRemove t start stop).areas.Perm (t.areas.filter (fun v => !v.overlaps start stop)) ∧
      ∀ v : VmArea, v.start < v.stop → (v.overlaps start stop = true ↔
        ∃ x, start ≤ x ∧ x < stop ∧ v.start ≤ x ∧ x < v.stop) :=
  ⟨vmaRemoveLoop_all start stop t.areas, fun _ hv => VmArea.overlaps_iff_meet hv h⟩

/-- The upper of the adjacent areas goes and the lower one stays. -/
theorem vmaRemove_exact_adjacent :
    (vmaRemove adjacentAreas 0x40001FFF 0x40003000).areas.Perm
      [⟨0x40000000, 0x40001000, 3#32, 34#32⟩] :=
  (vmaRemove_exact adjacentAreas (by decide)).1

end Remove

/-- The loop body of `vma_update_prot`. -/
def VmArea.reprotect (lo hi : Nat) (prot : BitVec 32) (v : VmArea) : VmArea :=
  if v.overlaps lo hi then { v with prot := prot } else v

@[simp] theorem VmArea.start_reprotect (lo hi : Nat) (prot : BitVec 32) (v : VmArea) :
    (v.reprotect lo hi prot).start = v.start := by
  unfold VmArea.reprotect
  split
  · rfl
  · rfl

@[simp] theorem VmArea.stop_reprotect (lo hi : Nat) (prot : BitVec 32) (v : VmArea) :
    (v.reprotect lo hi prot).stop = v.stop := by
  unfold VmArea.reprotect
  split
  · rfl
  · rfl

def vmaUpdateProt (t : VmaTable) (lo hi : Nat) (prot : BitVec 32) : VmaTable where
  areas := t.areas.map (VmArea.reprotect lo hi prot)
  bound := by
    rw [List.length_map]
    exact t.bound

theorem mem_vmaUpdateProt (t : VmaTable) (lo hi : Nat) (prot : BitVec 32) (v : VmArea) :
    v ∈ (vmaUpdateProt t lo hi prot).areas ↔
      ∃ w ∈ t.areas, w.reprotect lo hi prot = v :=
  List.mem_map

end Mm
end Homunculos
