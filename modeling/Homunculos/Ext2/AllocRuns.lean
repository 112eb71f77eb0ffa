import Homunculos.Ext2.Numbering
import Homunculos.Lib.GroupAlloc
import Homunculos.Lib.Run

/-!
# Runs of the allocators

In their own numbering the four functions are two allocators on one disk.  In
every run the free counts stay right, an allocation fails only when nothing is
free, and a number is given out once until it is given back.
-/

namespace Homunculos
namespace Ext2

open Bytes Block Bitmap GroupAlloc

/-- The bits and counts of one kind. -/
def groups (k : Kind) (fs : Ext2Fs) : Groups where
  bits := bit k fs
  free := fun g => k.groupFree (fs.desc g)
  total := k.sbFree fs.sb

/-- The numbers in use: block `g * blocks_per_group + i`, inode one more. -/
def usedNumbers (k : Kind) (fs : Ext2Fs) : Set Nat :=
  used fs.bgdescCount (maxBits k fs) (k.perGroup fs.sb) k.first (groups k fs)

/-- Every free count is the number of clear valid bits. -/
def Consistent (fs : Ext2Fs) : Prop :=
  ∀ k, Counted fs.bgdescCount (maxBits k fs) (groups k fs)

/-- A call of one of the four functions. -/
inductive Op where
  | alloc (k : Kind)
  | free (k : Kind) (n : Nat)
deriving DecidableEq

/-- The number returned and the state after the call. -/
def Op.run (fs : Ext2Fs) : Op → Nat × Ext2Fs
  | .alloc .block => ext2AllocBlock fs
  | .alloc .inode => ext2AllocInode fs
  | .free .block n => (0, ext2FreeBlock fs n)
  | .free .inode n => (0, ext2FreeInode fs n)

/-- Only numbers that are in use get freed. -/
def Op.Legal (fs : Ext2Fs) : Op → Prop
  | .alloc _ => True
  | .free k n => n ∈ usedNumbers k fs

/-- The state after a sequence of calls. -/
def runOps (fs : Ext2Fs) (ops : List Op) : Ext2Fs :=
  ops.foldl (fun fs op => (op.run fs).2) fs

/-- Every call of the sequence is legal when it is made. -/
def LegalRun (fs : Ext2Fs) (ops : List Op) : Prop :=
  Run.Allowed (fun fs op => (op.run fs).2) (fun fs op => op.Legal fs) fs ops

/-- A file system in order, on a device without errors. -/
structure InOrder (fs : Ext2Fs) : Prop where
  layout : Layout fs
  geometry : ∀ k, Geometry k fs
  healthy : fs.dev.Healthy
  consistent : Consistent fs

section Edits

variable {k : Kind} {v : Bool} {g i : Nat} {fs fs' : Ext2Fs}

theorem Edit.maxBits_eq (h : Edit k v g i fs fs') (k' : Kind) :
    maxBits k' fs' = maxBits k' fs := by
  funext g'
  unfold maxBits
  rw [h.bgdescCount, h.count k', h.perGroup k']

theorem Edit.geometry (h : Edit k v g i fs fs') {k' : Kind} (hgeo : Geometry k' fs) :
    Geometry k' fs' := by
  have hper := h.perGroup k'
  have hcount := h.count k'
  refine ⟨?_, ?_, ?_, ?_⟩
  · rw [hper]
    exact hgeo.pos
  · rw [hper, h.blockSize]
    exact hgeo.fits
  · rw [hper, hcount, h.bgdescCount]
    exact hgeo.lower
  · rw [hper, hcount, h.bgdescCount]
    exact hgeo.upper

theorem Edit.layout (h : Edit k v g i fs fs') (hl : Layout fs) :
    Layout fs' := by
  have hvalid : ∀ a : Area, a.Valid fs' ↔ a.Valid fs := by
    intro a
    cases a with
    | superblock => exact Iff.rfl
    | descs j =>
      unfold Area.Valid
      rw [h.bgdescCount, h.blockSize]
    | bitmap k' g' =>
      unfold Area.Valid
      rw [h.bgdescCount]
  have hblock : ∀ a : Area, a.Valid fs → a.blockNo fs' = a.blockNo fs := by
    intro a ha
    cases a with
    | superblock =>
      unfold Area.blockNo Ext2Fs.sbBlock
      rw [h.blockSize]
    | descs j =>
      unfold Area.blockNo
      rw [h.bgdescBlock]
    | bitmap k' g' => exact h.bitmapNo k' g' ha
  have hlba : ∀ nr, fs'.blockLba nr = fs.blockLba nr := by
    intro nr
    unfold Ext2Fs.blockLba
    rw [h.blockSize]
  refine ⟨?_, ?_⟩
  · unfold BlockSizeOk
    rw [h.blockSize]
    exact hl.blockSize
  · intro a b ha hb heq
    have ha' := (hvalid a).mp ha
    have hb' := (hvalid b).mp hb
    rw [hlba, hlba, hblock a ha', hblock b hb'] at heq
    exact hl.distinct a b ha' hb' heq

theorem Geometry.sum_maxBits (hgeo : Geometry k fs) :
    ∑ g ∈ Finset.range fs.bgdescCount, maxBits k fs g = k.count fs.sb := by
  cases hG : fs.bgdescCount with
  | zero =>
    have hupper := hgeo.upper
    rw [hG] at hupper
    rw [Finset.range_zero, Finset.sum_empty]
    omega
  | succ m =>
    have hfull : ∀ g ∈ Finset.range m, maxBits k fs g = k.perGroup fs.sb := by
      intro g hg
      have hgm := Finset.mem_range.mp hg
      rw [hgeo.maxBits_eq (by omega), if_neg (by omega)]
    have hlast : maxBits k fs m = k.count fs.sb - m * k.perGroup fs.sb := by
      rw [hgeo.maxBits_eq (by omega), if_pos (by omega)]
    have hstart : m * k.perGroup fs.sb ≤ k.count fs.sb :=
      hgeo.start_le (by omega)
    rw [Finset.sum_range_succ, Finset.sum_congr rfl hfull, Finset.sum_const,
      Finset.card_range, smul_eq_mul]
    omega

theorem bump_mod {modulus count : Nat} (hlt : count < modulus) (htake : v = true → 0 < count)
    (hgive : v = false → count + 1 < modulus) :
    bump v modulus count % modulus =
      if v then count - 1 else count + 1 := by
  cases v with
  | true =>
    have hpos := htake rfl
    have hsum : count + (modulus - 1) = count - 1 + modulus := by omega
    rw [bump, if_pos rfl, if_pos rfl, hsum, Nat.add_mod_right,
      Nat.mod_eq_of_lt (by omega)]
  | false =>
    rw [bump, if_neg (by decide), if_neg (by decide),
      Nat.mod_eq_of_lt (hgive rfl)]

theorem Layout.blockSize_le (h : Layout fs) :
    fs.blockSize ≤ 4096 := by
  rcases h.blockSize with hs | hs | hs
  · omega
  · omega
  · omega

theorem Edit.put (h : Edit k v g i fs fs') (hgeo : Geometry k fs) (hg : g < fs.bgdescCount)
    (hi : i < maxBits k fs g) :
    Put fs.bgdescCount (maxBits k fs) v g i (groups k fs) (groups k fs') := by
  refine ⟨hg, hi, ?_⟩
  intro g' j hg' hj
  have hj' : j < 8 * fs.blockSize :=
    lt_of_lt_of_le hj ((hgeo.maxBits_le hg').trans hgeo.fits)
  have hbit := h.bit k g' j hg' hj'
  simp only [true_and] at hbit
  exact hbit

section Bumps

variable (hgeo : Geometry k fs) (hcounted : Counted fs.bgdescCount (maxBits k fs) (groups k fs))
variable (hg : g < fs.bgdescCount) (hi : i < maxBits k fs g) (hold : Ext2.bit k fs g i = !v)
include hgeo hcounted hg hi hold

theorem groupFree_bump (hl : Layout fs) :
    bump v (2 ^ 16) ((groups k fs).free g) % 2 ^ 16 =
      if v then (groups k fs).free g - 1 else (groups k fs).free g + 1 := by
  have hle : (groups k fs).free g ≤ maxBits k fs g := by
    rw [hcounted.free_eq g hg]
    exact zeros_le _ _
  have hsize := (hgeo.maxBits_le hg).trans hgeo.fits
  have hblock := hl.blockSize_le
  refine bump_mod (by omega) ?_ (fun _ => by omega)
  rintro rfl
  exact hcounted.free_pos hg hi hold

theorem sbFree_bump :
    bump v (2 ^ 32) (groups k fs).total % 2 ^ 32 =
      if v then (groups k fs).total - 1 else (groups k fs).total + 1 := by
  have hcount := count_lt k fs.sb
  refine bump_mod ?_ ?_ ?_
  · cases k with
    | block => exact u32_lt _ _
    | inode => exact u32_lt _ _
  · rintro rfl
    exact lt_of_lt_of_le (hcounted.free_pos hg hi hold)
      (hcounted.free_le_total hg)
  · rintro rfl
    have hlt := hcounted.total_lt hg hi hold
    rw [hgeo.sum_maxBits] at hlt
    omega

theorem Edit.change (h : Edit k v g i fs fs') (hl : Layout fs) :
    Change fs.bgdescCount (maxBits k fs) v g i (groups k fs) (groups k fs') := by
  refine ⟨h.put hgeo hg hi, hold, ?_, ?_⟩
  · intro g' hg'
    have hfree := h.groupFree k g' hg'
    simp only [true_and] at hfree
    refine hfree.trans ?_
    by_cases hgg : g' = g
    · rw [if_pos hgg, if_pos hgg]
      exact groupFree_bump hgeo hcounted hg hi hold hl
    · rw [if_neg hgg, if_neg hgg]
      rfl
  · have hsb := h.sbFree k
    rw [if_pos rfl] at hsb
    exact hsb.trans (sbFree_bump hgeo hcounted hg hi hold)

end Bumps

variable (h : Edit k v g i fs fs')
include h

theorem Edit.other_kind {k' : Kind} (hne : k' ≠ k) (hgeo : Geometry k' fs) :
    (∀ g' j, g' < fs.bgdescCount → j < maxBits k' fs g' →
      (groups k' fs').bits g' j = (groups k' fs).bits g' j) ∧
    (∀ g', g' < fs.bgdescCount → (groups k' fs').free g' = (groups k' fs).free g') ∧
    (groups k' fs').total = (groups k' fs).total := by
  refine ⟨?_, ?_, ?_⟩
  · intro g' j hg' hj
    have hj' : j < 8 * fs.blockSize :=
      lt_of_lt_of_le hj ((hgeo.maxBits_le hg').trans hgeo.fits)
    exact (h.bit k' g' j hg' hj').trans (if_neg (fun hx => hne hx.1))
  · intro g' hg'
    exact (h.groupFree k' g' hg').trans (if_neg (fun hx => hne hx.1))
  · exact (h.sbFree k').trans (if_neg hne)

variable (hgeo : ∀ k', Geometry k' fs) (hg : g < fs.bgdescCount) (hi : i < maxBits k fs g)
include hgeo hg hi

theorem Edit.consistent
    (hl : Layout fs) (hcons : Consistent fs) (hold : Ext2.bit k fs g i = !v) :
    Consistent fs' := by
  intro k'
  rw [h.bgdescCount, h.maxBits_eq k']
  by_cases hk : k' = k
  · subst hk
    exact (hcons k').change
      (h.change (hgeo k') (hcons k') hg hi hold hl)
  · obtain ⟨hbits, hfree, htotal⟩ := h.other_kind hk (hgeo k')
    exact (hcons k').congr hbits hfree htotal

theorem Edit.used_eq (k' : Kind) :
    usedNumbers k' fs' =
      if k' = k then
        if v then insert (number k fs g i) (usedNumbers k fs)
        else usedNumbers k fs \ {number k fs g i}
      else
        usedNumbers k' fs := by
  have hnumber := (hgeo k).number_eq hg hi
  unfold usedNumbers
  rw [h.bgdescCount, h.maxBits_eq k', h.perGroup k']
  by_cases hk : k' = k
  · subst hk
    have hc := h.put (hgeo k') hg hi
    have hsize : ∀ g, g < fs.bgdescCount →
        maxBits k' fs g ≤ k'.perGroup fs.sb :=
      fun g hg => (hgeo k').maxBits_le hg
    rw [if_pos rfl, hnumber]
    cases v with
    | true => exact used_take hsize hc
    | false => exact used_give hsize hc
  · rw [if_neg hk]
    exact used_congr (h.other_kind hk (hgeo k')).1

end Edits

section Steps

variable {k : Kind} {fs : Ext2Fs}

theorem InOrder.edit
    (h : InOrder fs) {v : Bool} {g i : Nat} {fs' : Ext2Fs} (hedit : Edit k v g i fs fs')
    (hhealthy : fs'.dev.Healthy) (hg : g < fs.bgdescCount) (hi : i < maxBits k fs g)
    (hold : bit k fs g i = !v) :
    InOrder fs' :=
  ⟨hedit.layout h.layout, fun k' => hedit.geometry (h.geometry k'), hhealthy,
    hedit.consistent h.geometry hg hi h.layout h.consistent hold⟩

theorem InOrder.number_mem_iff
    (h : InOrder fs) {g i : Nat} (hg : g < fs.bgdescCount) (hi : i < maxBits k fs g) :
    number k fs g i ∈ usedNumbers k fs ↔ bit k fs g i = true := by
  rw [(h.geometry k).number_eq hg hi]
  exact mem_used_iff (fun _ hg' => (h.geometry k).maxBits_le hg') hg hi

theorem InOrder.set_of_full
    (h : InOrder fs) {g i : Nat} (hg : g < fs.bgdescCount) (hi : i < maxBits k fs g)
    (hfull : GroupFull k fs g) :
    bit k fs g i = true := by
  rcases hfull with hfree | hset
  · have hzeros := (h.consistent k).free_eq g hg
    exact (zeros_eq_zero_iff _ _).mp (hzeros.symm.trans hfree) i hi
  · exact hset i hi

theorem InOrder.all_used
    (h : InOrder fs) (hset : ∀ g i, g < fs.bgdescCount → i < maxBits k fs g → bit k fs g i = true)
    {n : Nat} (hfirst : k.first ≤ n) (hlt : n < k.count fs.sb + k.first) :
    n ∈ usedNumbers k fs := by
  obtain ⟨m, rfl⟩ : ∃ m, n = m + k.first := ⟨n - k.first, by omega⟩
  obtain ⟨hg, hi⟩ := (h.geometry k).bit_of_index (show m < k.count fs.sb by omega)
  refine ⟨m / k.perGroup fs.sb, m % k.perGroup fs.sb, hg, hi, ?_, hset _ _ hg hi⟩
  rw [Nat.div_add_mod']

theorem run_alloc (k : Kind) (fs : Ext2Fs) :
    (Op.alloc k).run fs = allocLoop k fs.bgdescCount 0 fs := by
  cases k with
  | block => rfl
  | inode => rfl

theorem alloc_spec (k : Kind) (h : InOrder fs) :
    InOrder ((Op.alloc k).run fs).2 ∧
    ((((Op.alloc k).run fs).1 = 0 ∧
        (∀ k', usedNumbers k' ((Op.alloc k).run fs).2 = usedNumbers k' fs) ∧
        ∀ g i, g < fs.bgdescCount → i < maxBits k fs g →
          bit k fs g i = true) ∨
      (k.first ≤ ((Op.alloc k).run fs).1 ∧
        ((Op.alloc k).run fs).1 ∉ usedNumbers k fs ∧
        ∀ k', usedNumbers k' ((Op.alloc k).run fs).2 =
          if k' = k then
            insert ((Op.alloc k).run fs).1 (usedNumbers k fs)
          else
            usedNumbers k' fs)) := by
  rw [run_alloc]
  rcases alloc_ready h.layout (h.geometry k) h.healthy with
    ⟨hzero, ⟨buf', hout⟩, hfull⟩ | ⟨g, i, buf', hg, hi, hbit, -, hout, hready, hhealthy⟩
  · rw [hout]
    refine ⟨⟨h.layout.withBuf buf', fun k' => ?_, h.healthy, h.consistent⟩,
      Or.inl ⟨hzero, fun _ => rfl, ?_⟩⟩
    · have hgeo := h.geometry k'
      exact ⟨hgeo.pos, hgeo.fits, hgeo.lower, hgeo.upper⟩
    · intro g i hg hi
      exact h.set_of_full hg hi (hfull g hg)
  · have hedit := hready.edit.of_withBuf
    rw [hout]
    refine ⟨h.edit hedit hhealthy hg hi hbit, Or.inr ⟨?_, ?_, ?_⟩⟩
    · rw [(h.geometry k).number_eq hg hi]
      exact Nat.le_add_left _ _
    · rw [h.number_mem_iff hg hi, hbit]
      decide
    · exact hedit.used_eq h.geometry hg hi

theorem alloc_least
    (h : InOrder fs) {n : Nat} (hfirst : k.first ≤ n) (hlt : n < ((Op.alloc k).run fs).1) :
    n ∈ usedNumbers k fs := by
  have hgeo := h.geometry k
  rw [run_alloc] at hlt
  rcases alloc_ready h.layout hgeo h.healthy with
    ⟨hzero, -, -⟩ | ⟨g, i, buf', hg, hi, hbit, ⟨hskip, hleast⟩, hout, -, -⟩
  · omega
  · rw [hout] at hlt
    rw [hgeo.number_eq hg hi] at hlt
    obtain ⟨m, rfl⟩ : ∃ m, n = m + k.first := ⟨n - k.first, by omega⟩
    have hm : m < k.count fs.sb := (show m < g * k.perGroup fs.sb + i by omega).trans
      (hgeo.index_lt hg hi)
    obtain ⟨hg', hi'⟩ := hgeo.bit_of_index hm
    have hparts := Nat.div_add_mod' m (k.perGroup fs.sb)
    refine ⟨m / k.perGroup fs.sb, m % k.perGroup fs.sb, hg', hi', by omega, ?_⟩
    rcases Nat.lt_trichotomy (m / k.perGroup fs.sb) g with hbefore | hsame | hafter
    · exact h.set_of_full hg' hi' (hskip h.healthy _ (Nat.zero_le _) hbefore)
    · rw [hsame] at hparts ⊢
      exact hleast _ (by omega)
    · have hmul := Nat.mul_le_mul_right (k.perGroup fs.sb) hafter
      rw [Nat.succ_mul] at hmul
      have hper := hgeo.maxBits_le hg
      omega

theorem run_free (k : Kind) (fs : Ext2Fs) (m : Nat) :
    (Op.free k (m + k.first)).run fs =
      (0, freeBit k fs (m / k.perGroup fs.sb) (m % k.perGroup fs.sb)) := by
  cases k with
  | block => rfl
  | inode => rfl

theorem free_spec {n : Nat} (h : InOrder fs) (hn : n ∈ usedNumbers k fs) :
    InOrder ((Op.free k n).run fs).2 ∧
    ∀ k', usedNumbers k' ((Op.free k n).run fs).2 =
      if k' = k then usedNumbers k fs \ {n} else usedNumbers k' fs := by
  obtain ⟨g, i, hg, hi, rfl, hbit⟩ := hn
  have hgeo := h.geometry k
  have hfit : i < 8 * fs.blockSize :=
    lt_of_lt_of_le hi ((hgeo.maxBits_le hg).trans hgeo.fits)
  obtain ⟨hedit, hhealthy⟩ :=
    freeBit_healthy h.layout h.healthy hg hfit (k := k)
  obtain ⟨hdiv, hmod⟩ := hgeo.parts hg hi
  rw [run_free, hdiv, hmod, ← hgeo.number_eq hg hi]
  refine ⟨h.edit hedit hhealthy hg hi hbit, ?_⟩
  intro k'
  exact hedit.used_eq h.geometry hg hi k'

theorem InOrder.step {op : Op} (h : InOrder fs) (hlegal : op.Legal fs) :
    InOrder (op.run fs).2 := by
  cases op with
  | alloc k => exact (alloc_spec k h).1
  | free k n => exact (free_spec h hlegal).1

theorem mem_used_step
    {op : Op} {n : Nat} (h : InOrder fs) (hlegal : op.Legal fs) (hkeep : op ≠ .free k n)
    (hn : n ∈ usedNumbers k fs) :
    n ∈ usedNumbers k (op.run fs).2 := by
  cases op with
  | alloc k' =>
    rcases (alloc_spec k' h).2 with ⟨_, hused, _⟩ | ⟨_, _, hused⟩
    · rw [hused k]
      exact hn
    · rw [hused k]
      split
      next heq =>
        subst heq
        exact Set.mem_insert_of_mem _ hn
      next =>
        exact hn
  | free k' m =>
    rw [(free_spec h hlegal).2 k]
    split
    next heq =>
      subst heq
      refine ⟨hn, ?_⟩
      rintro rfl
      exact hkeep rfl
    next =>
      exact hn

end Steps

section Runs

variable {k : Kind} {fs : Ext2Fs} {ops : List Op} {n : Nat}

variable (h : InOrder fs)
include h

theorem InOrder.run (hlegal : LegalRun fs ops) :
    InOrder (runOps fs ops) :=
  hlegal.invariant h (fun _ _ _ hop hs => hs.step hop)

theorem mem_used_run (hlegal : LegalRun fs ops) (hkeep : Op.free k n ∉ ops)
    (hn : n ∈ usedNumbers k fs) :
    n ∈ usedNumbers k (runOps fs ops) := by
  have hboth : InOrder (runOps fs ops) ∧ n ∈ usedNumbers k (runOps fs ops) := by
    refine Run.Allowed.invariant
      (P := fun s => InOrder s ∧ n ∈ usedNumbers k s) hlegal ⟨h, hn⟩ ?_
    rintro s op hop hlegal' ⟨hs, hmem⟩
    have hother : op ≠ .free k n := by
      rintro rfl
      exact hkeep hop
    exact ⟨hs.step hlegal', mem_used_step hs hlegal' hother hmem⟩
  exact hboth.2

theorem alloc_fresh (hne : ((Op.alloc k).run fs).1 ≠ 0) :
    ((Op.alloc k).run fs).1 ∉ usedNumbers k fs ∧
      ((Op.alloc k).run fs).1 ∈ usedNumbers k ((Op.alloc k).run fs).2 := by
  rcases (alloc_spec k h).2 with ⟨hzero, _, _⟩ | ⟨_, hfresh, hused⟩
  · exact absurd hzero hne
  · refine ⟨hfresh, ?_⟩
    rw [hused k, if_pos rfl]
    exact Set.mem_insert _ _

theorem alloc_zero (hblock : 0 ∈ usedNumbers .block fs) (hzero : ((Op.alloc k).run fs).1 = 0)
    {g i : Nat} (hg : g < fs.bgdescCount) (hi : i < maxBits k fs g) :
    bit k fs g i = true := by
  rcases (alloc_spec k h).2 with ⟨_, _, hfull⟩ | ⟨hfirst, hfresh, _⟩
  · exact hfull g i hg hi
  · rw [hzero] at hfirst hfresh
    cases k with
    | block => exact absurd hblock hfresh
    | inode => exact absurd hfirst (by decide)

theorem alloc_not_again {pre mid : List Op} (hlegal : LegalRun fs (pre ++ .alloc k :: mid))
    (hreturned : ((Op.alloc k).run (runOps fs pre)).1 = n) (hne : n ≠ 0)
    (hkeep : Op.free k n ∉ mid) :
    ((Op.alloc k).run (runOps fs (pre ++ .alloc k :: mid))).1 ≠ n := by
  obtain ⟨hpre, hrest⟩ := Run.Allowed.append hlegal
  have hstart := h.run hpre
  have hused : n ∈ usedNumbers k ((Op.alloc k).run (runOps fs pre)).2 := by
    have hfresh := (alloc_fresh (k := k) hstart (hreturned ▸ hne)).2
    rw [hreturned] at hfresh
    exact hfresh
  have hafter := hstart.step hrest.1
  have hstill := mem_used_run hafter hrest.2 hkeep hused
  intro hagain
  have hend := h.run hlegal
  refine (alloc_fresh hend (hagain ▸ hne)).1 ?_
  rw [hagain, runOps, List.foldl_append]
  exact hstill

omit h

/--
From a file system in order, on a device without errors, with block 0 in use:
after every legal sequence of allocations and releases the free counts of the
groups and of the superblock are the numbers of clear valid bits; the next
allocation returns 0 only when every valid bit is set (block 0 itself must not
have been freed); a number that it returns was free and is in use now; and it
is no number that was returned before and not freed since.
-/
theorem allocators_exact
    (h : InOrder fs) (hblock : 0 ∈ usedNumbers .block fs) (hlegal : LegalRun fs ops) :
    Consistent (runOps fs ops) ∧
    ∀ k,
      (Op.free .block 0 ∉ ops →
        ((Op.alloc k).run (runOps fs ops)).1 = 0 →
        ∀ g i, g < (runOps fs ops).bgdescCount →
          i < maxBits k (runOps fs ops) g →
          bit k (runOps fs ops) g i = true) ∧
      (((Op.alloc k).run (runOps fs ops)).1 ≠ 0 →
        ((Op.alloc k).run (runOps fs ops)).1 ∉ usedNumbers k (runOps fs ops) ∧
        ((Op.alloc k).run (runOps fs ops)).1 ∈
          usedNumbers k ((Op.alloc k).run (runOps fs ops)).2) ∧
      (∀ pre mid n, ops = pre ++ .alloc k :: mid →
        ((Op.alloc k).run (runOps fs pre)).1 = n → n ≠ 0 →
        Op.free k n ∉ mid →
        ((Op.alloc k).run (runOps fs ops)).1 ≠ n) := by
  have hend := h.run hlegal
  refine ⟨hend.consistent, fun k => ⟨?_, alloc_fresh hend, ?_⟩⟩
  · intro hkeep hzero g i hg hi
    exact alloc_zero hend (mem_used_run h hlegal hkeep hblock) hzero hg hi
  · rintro pre mid n rfl hreturned hne hkeep
    exact alloc_not_again h hlegal hreturned hne hkeep

end Runs

theorem smallFs_inOrder :
    InOrder smallFs := by
  refine ⟨smallFs_layout, smallFs_geometry, smallFs_healthy, ?_⟩
  intro k
  cases k with
  | block => exact ⟨by decide +kernel, by decide +kernel⟩
  | inode => exact ⟨by decide +kernel, by decide +kernel⟩

/-- A block is taken and given back and an inode is taken, on the small image. -/
theorem allocators_exact_small :
    InOrder smallFs ∧
      LegalRun smallFs [.alloc .block, .alloc .inode, .free .block 10] ∧
      Consistent
        (runOps smallFs [.alloc .block, .alloc .inode, .free .block 10]) := by
  have hblock : 0 ∈ usedNumbers .block smallFs :=
    ⟨0, 0, by decide +kernel, by decide +kernel, rfl, by decide +kernel⟩
  have hlegal :
      LegalRun smallFs [.alloc .block, .alloc .inode, .free .block 10] :=
    ⟨trivial, trivial,
      ⟨0, 10, by decide +kernel, by decide +kernel, by decide +kernel,
        by decide +kernel⟩, trivial⟩
  exact ⟨smallFs_inOrder, hlegal, (allocators_exact smallFs_inOrder hblock hlegal).1⟩

end Ext2
end Homunculos
