import Homunculos.Mm.Areas

/-!
# The heap of a task

`sys_brk` maps the pages between the old and the new break.  It unmaps nothing: a break
that moves down leaves its pages, and so does a growth that stops halfway.  The next call
that grows the heap then meets pages that are present and fails.
-/

namespace Homunculos
namespace Mm

/-- The memory and the task after a call of `sys_brk`. -/
def brkStep (x : State × MmTask) (addr : BitVec 32) : State × MmTask :=
  (sysBrk x.1 x.2 addr).2

/-- From `brk_start` to `MMAP_BASE`, the pages below the break are mapped and no others. -/
def HeapExact (x : State × MmTask) : Prop :=
  ∀ n, x.2.brkStart.toNat ≤ n * 4096 → n * 4096 < mmapBase →
    (Shown x.1 x.2.pdir n ↔ n * 4096 < pageUp x.2.programBreak.toNat)

/-- The heap of the task begins in the user half, and its break is below `MMAP_BASE`. -/
structure HeapTask (kernel : Nat → Prop) (dirs : List Nat) (x : State × MmTask) : Prop where
  owned : Owned kernel x.1 dirs
  dir : x.2.pdir ∈ dirs
  user : 4096 * 4096 ≤ x.2.brkStart.toNat
  start : x.2.brkStart.toNat ≤ x.2.programBreak.toNat
  top : x.2.programBreak.toNat < mmapBase

/-- The pages between the break and the one that a call aims at. -/
def heapPages (t : MmTask) (addr : BitVec 32) : List Nat :=
  walkPages (pageUp t.programBreak.toNat)
    ((pageUp (brkTarget t addr).toNat - pageUp t.programBreak.toNat) / 4096)

/-- The call moves the break down by no page, and the free frames suffice for all the pages
that it wants or not even for the first. -/
def GrowsWhole (x : State × MmTask) (addr : BitVec 32) : Prop :=
  addr ≠ 0#32 →
    pageUp x.2.programBreak.toNat ≤ pageUp (brkTarget x.2 addr).toNat ∧
      (framesFor x.1 x.2.pdir (heapPages x.2 addr) ≤ freeFrames x.1 ∨
        freeFrames x.1 < framesFor x.1 x.2.pdir ((heapPages x.2 addr).take 1))

section Steps

variable {kernel : Nat → Prop} {dirs : List Nat} {x : State × MmTask} {addr : BitVec 32}

theorem brkTarget_bounds (h : HeapTask kernel dirs x) (haddr : addr.toNat < mmapBase) :
    x.2.brkStart.toNat ≤ (brkTarget x.2 addr).toNat ∧ (brkTarget x.2 addr).toNat < mmapBase := by
  have hstart := h.start
  have htop := h.top
  unfold brkTarget
  split
  · omega
  · rename_i hge
    rw [BitVec.not_lt] at hge
    exact ⟨hge, haddr⟩

theorem pageUp_bounds {v : Nat} (hv : v < mmapBase) :
    v ≤ pageUp v ∧ pageUp v ≤ mmapBase ∧ pageUp v % 4096 = 0 := by
  unfold mmapBase at *
  unfold pageUp
  omega

variable (h : HeapTask kernel dirs x)
include h

theorem HeapTask.userPage {n : Nat} (hlo : x.2.brkStart.toNat ≤ n * 4096)
    (hhi : n * 4096 < mmapBase) :
    UserPage n := by
  have huser := h.user
  unfold mmapBase at hhi
  exact ⟨by omega, by omega⟩

variable (haddr : addr.toNat < mmapBase)
include haddr

theorem HeapTask.walk_le :
    pageUp x.2.programBreak.toNat +
      (pageUp (brkTarget x.2 addr).toNat - pageUp x.2.programBreak.toNat) / 4096 * 4096 ≤
        mmapBase := by
  have hold := pageUp_bounds h.top
  have hnew := pageUp_bounds (brkTarget_bounds h haddr).2
  omega

omit h haddr in
theorem walk_mono {va n i top : Nat} (h : va + n * 4096 ≤ top) (hi : i < n) :
    va + i * 4096 ≤ top :=
  (Nat.add_le_add_left (Nat.mul_le_mul_right _ hi.le) va).trans h

theorem HeapTask.walkable :
    ∀ k, k < (pageUp (brkTarget x.2 addr).toNat - pageUp x.2.programBreak.toNat) / 4096 →
      Walkable kernel dirs x.2.pdir tableFlags x.1 (pageUp x.2.programBreak.toNat) k := by
  intro k hk
  have hle := h.walk_le haddr
  have hold := pageUp_bounds h.top
  have hstart := h.start
  left
  rw [pageNo_of_le (hle.trans (by decide)) hk]
  exact h.userPage (by omega) (by omega)

/-- The heap stays in the user half and below `MMAP_BASE`. -/
theorem HeapTask.step :
    HeapTask kernel dirs (brkStep x addr) := by
  obtain ⟨hlo, hhi⟩ := brkTarget_bounds h haddr
  unfold brkStep
  rcases sysBrk_cases addr h.owned h.dir rfl rfl (h.walkable haddr) with
    ⟨-, hout⟩ | ⟨-, -, hout⟩ | ⟨-, -, ⟨s', hout, hfill⟩ | ⟨i, s1, s', -, hout, hfill, hsame, -⟩⟩
  · rw [hout]
    exact h
  · rw [hout]
    exact ⟨h.owned, h.dir, h.user, hlo, hhi⟩
  · rw [hout]
    exact ⟨hfill.edit.owned, h.dir, h.user, hlo, hhi⟩
  · rw [hout]
    exact ⟨(hfill.edit_failed hsame h.dir).owned, h.dir, h.user, h.start, h.top⟩

/-- A walk that stops at page `i` of the heap has the frames for all pages before it. -/
theorem HeapTask.stops_iff (i : Nat) (s1 : State) (hx : HeapExact x)
    (hi : i < (pageUp (brkTarget x.2 addr).toNat - pageUp x.2.programBreak.toNat) / 4096)
    (hfill : Filled kernel dirs x.2.pdir (pageUp x.2.programBreak.toNat) tableFlags x.1 s1 i)
    (hwhy : Refused s1 x.2.pdir (pageNo (pageUp x.2.programBreak.toNat) i)) :
    (framesFor x.1 x.2.pdir (heapPages x.2 addr) ≤ freeFrames x.1 ∨
      freeFrames x.1 < framesFor x.1 x.2.pdir ((heapPages x.2 addr).take 1)) ↔ i = 0 := by
  have hle := h.walk_le haddr
  have hold := pageUp_bounds h.top
  have hstart := h.start
  have hwalk := (walk_mono hle hi).trans (show mmapBase ≤ 2 ^ 32 by decide)
  have hpage := pageNo_of_le (hle.trans (by decide)) hi
  have hframes := hfill.frames
  have habsent : ¬ Shown x.1 x.2.pdir (pageNo (pageUp x.2.programBreak.toNat) i) := by
    rw [hpage, hx _ (by omega) (by omega)]
    omega
  have huser : UserPage (pageNo (pageUp x.2.programBreak.toNat) i) := by
    rw [hpage]
    exact h.userPage (by omega) (by omega)
  have hnew : ¬ InRange (pageUp x.2.programBreak.toNat) i
      (pageNo (pageUp x.2.programBreak.toNat) i) := by
    rw [inRange_iff hwalk, hpage]
    omega
  have hfew := hfill.few hwhy huser hnew habsent
  have hall : freeFrames x.1 < framesFor x.1 x.2.pdir (heapPages x.2 addr) :=
    hfew.trans_le (framesFor_mono (walkPages_isPrefix _ hi))
  rw [show (heapPages x.2 addr).take 1 = walkPages _ 1 from take_walkPages _ (by omega)]
  constructor
  · rintro (hok | hone)
    · omega
    · by_contra hpos
      have hmono : framesFor x.1 x.2.pdir (walkPages (pageUp x.2.programBreak.toNat) 1) ≤
          framesFor x.1 x.2.pdir (walkPages (pageUp x.2.programBreak.toNat) i) :=
        framesFor_mono (walkPages_isPrefix _ (by omega))
      omega
  · rintro rfl
    exact Or.inr hfew

theorem HeapTask.exact_iff (hx : HeapExact x) :
    HeapExact (brkStep x addr) ↔ GrowsWhole x addr := by
  have hle := h.walk_le haddr
  have hold := pageUp_bounds h.top
  have hnew := pageUp_bounds (brkTarget_bounds h haddr).2
  have hlow := (brkTarget_bounds h haddr).1
  have hstart := h.start
  have hstops := fun i s1 => h.stops_iff haddr i s1 hx
  have hcases := sysBrk_cases addr h.owned h.dir rfl rfl (h.walkable haddr)
  unfold GrowsWhole brkStep heapPages at *
  generalize hnewPage : pageUp (brkTarget x.2 addr).toNat = new at *
  generalize holdPage : pageUp x.2.programBreak.toNat = old at *
  rcases hcases with ⟨hzero, hout⟩ | ⟨hne, hgrow, hout⟩ |
    ⟨hne, hgrow, ⟨s', hout, hfill⟩ | ⟨i, s1, s', hi, hout, hfill, hsame, hwhy⟩⟩
  · rw [hout]
    exact iff_of_true hx fun hne => absurd hzero hne
  · rw [hout]
    have hzero : (new - old) / 4096 = 0 := by omega
    rw [hzero]
    constructor
    · -- the page at the new break is still there
      intro hexact _
      refine ⟨?_, Or.inl (Nat.zero_le _)⟩
      by_contra hlt
      have hpage := hx (new / 4096) (by omega) (by omega)
      have hpage' := hexact (new / 4096) (by dsimp only; omega) (by omega)
      rw [hnewPage] at hpage'
      have hless := hpage'.mp (hpage.mpr (by omega))
      omega
    · intro hgrows n hlo hhi
      have hsame : new = old := by
        have := (hgrows hne).1
        omega
      rw [hnewPage, hsame, ← holdPage]
      exact hx n hlo hhi
  · rw [hout]
    refine iff_of_true ?_ fun _ => ⟨by omega, Or.inl ?_⟩
    · intro n hlo hhi
      have hbefore := hx n hlo hhi
      have hafter := hfill.edit.shown n (h.userPage hlo hhi)
      rw [inRange_iff (hle.trans (by decide)), hbefore, present_tableFlags] at hafter
      rw [hafter]
      simp only [and_true]
      omega
    · rw [hfill.frames]
      exact Nat.le_add_left _ _
  · rw [hout]
    have hedit := hfill.edit_failed hsame h.dir
    have hwalk := (walk_mono hle hi).trans (show mmapBase ≤ 2 ^ 32 by decide)
    constructor
    · -- the first page of the walk was mapped
      intro hexact _
      refine ⟨by omega, (hstops i s1 hi hfill hwhy).mpr ?_⟩
      by_contra hpos
      have hlo : x.2.brkStart.toNat ≤ old / 4096 * 4096 := by omega
      have hhi : old / 4096 * 4096 < mmapBase := by omega
      have hpage := hexact (old / 4096) hlo hhi
      have hmapped := (hedit.shown (old / 4096) (h.userPage hlo hhi)).mpr
        (Or.inl ((inRange_iff hwalk _).mpr ⟨by omega, by omega⟩))
      have hless := hpage.mp hmapped
      dsimp only at hless
      omega
    · intro hgrows n hlo hhi
      obtain rfl := (hstops i s1 hi hfill hwhy).mp (hgrows hne).2
      have hnone := inRange_zero old n
      refine (hedit.shown n (h.userPage hlo hhi)).trans ?_
      rw [hx n hlo hhi]
      simp [hnone]

omit haddr h

/--
Along a sequence of calls the mapped pages are those below the break exactly as long as
no call moves the break down by a page and none finds frames for a part of its pages only.
-/
theorem heap_exact_iff
    (h : HeapTask kernel dirs x) (hx : HeapExact x) (addrs : List (BitVec 32))
    (haddrs : Run.Allowed brkStep (fun _ addr => addr.toNat < mmapBase) x addrs) :
    (∀ pre, pre <+: addrs → HeapExact (pre.foldl brkStep x)) ↔
      Run.Allowed brkStep GrowsWhole x addrs :=
  haddrs.always_iff h hx (fun _ _ haddr h => h.step haddr)
    fun _ _ haddr h hx => h.exact_iff haddr hx

end Steps

/-- Growing the heap by a page. -/
theorem heap_exact_iff_grow :
    plainTask.programBreak = 0x8000000#32 ∧
      ∀ pre, pre <+: [0x8001000#32] → HeapExact (pre.foldl brkStep (oneDirectory, plainTask)) := by
  have htask : HeapTask (fun f => f = 0) [1] (oneDirectory, plainTask) :=
    ⟨oneDirectory_start.owned, by decide, by decide, by decide, by decide⟩
  refine ⟨rfl, (heap_exact_iff htask ?_ [0x8001000#32] ⟨by decide, trivial⟩).mpr
    ⟨fun _ => ⟨by decide, Or.inl (by decide +kernel)⟩, trivial⟩⟩
  intro n hlo _
  refine iff_of_false (oneDirectory_absent n) (Nat.not_lt.mpr ?_)
  exact le_trans (by decide) hlo

/-- The heap has grown by a page and shrunk again. -/
def shrunkHeap : State × MmTask :=
  [0x8001000#32, 0x8000000#32].foldl brkStep (oneDirectory, plainTask)

/-- The page is still mapped, and the heap does not grow back. -/
theorem shrunkHeap_stuck :
    ¬ HeapExact shrunkHeap ∧ (sysBrk shrunkHeap.1 shrunkHeap.2 0x8001000#32).1 = 0x8000000#32 := by
  have hshown : Shown shrunkHeap.1 shrunkHeap.2.pdir 0x8000 := by
    unfold Shown
    decide +kernel
  have hbreak : pageUp shrunkHeap.2.programBreak.toNat = 0x8000000 := by decide +kernel
  have hstart : shrunkHeap.2.brkStart.toNat = 0x8000000 := by decide +kernel
  refine ⟨fun hexact => ?_, by decide +kernel⟩
  have hbelow := (hexact 0x8000 (by rw [hstart]) (by decide)).mp hshown
  omega

end Mm
end Homunculos
