import Homunculos.Mm.Frame

/-!
# Page tables and directories

The upper half of `arch/i386/mm.c`: `mm_map_at`, `mm_alloc_at`,
`mm_unmap_at`, `mm_get_pte` and the clone of a whole page directory with its
two nested undo loops.

A function that returns `-1` or `0` in the source returns that integer here,
together with the state it leaves.  A page directory or table is given by the
frame that holds it.  TLB invalidation has no counterpart.
-/

namespace Homunculos
namespace Mm

/-- `va >> 22`. -/
def pdIdx (va : Nat) : Nat :=
  va / 2 ^ 22

/-- `(va >> 12) & 0x3FF`. -/
def ptIdx (va : Nat) : Nat :=
  va / 2 ^ 12 % 1024

/-- The flags of every page table that `mm_map_at` installs. -/
def tableFlags : BitVec 32 :=
  mmPresent ||| mmRw ||| mmUser

/-- Last part of `mm_map_at`: refuse a present entry, else write it. -/
def mapEntry (s : State) (pt idx pa : Nat) (flags : BitVec 32) : Int × State :=
  if present (s.mem pt idx) then
    (-1, s)
  else
    (0, setWord s pt idx (mkEntry pa flags))

def mmMapAt (s : State) (pdir va pa : Nat) (flags : BitVec 32) : Int × State :=
  if present (s.mem pdir (pdIdx va)) then
    mapEntry s (entryFrame (s.mem pdir (pdIdx va)))
      (ptIdx va) pa flags
  else
    let newPt := mmFrameAlloc s
    if newPt.1 = 0 then
      (-1, newPt.2)
    else
      let s' := setWord (zeroFrame newPt.2 newPt.1) pdir (pdIdx va)
        (mkEntry newPt.1 tableFlags)
      mapEntry s' (entryFrame (s'.mem pdir (pdIdx va)))
        (ptIdx va) pa flags

/-- `mm_alloc_at`: the mapped address, or 0. -/
def mmAllocAt (s : State) (pdir va : Nat) (flags : BitVec 32) : Nat × State :=
  let frame := mmFrameAlloc s
  if frame.1 = 0 then
    (0, frame.2)
  else
    let m := mmMapAt (zeroFrame frame.2 frame.1) pdir va frame.1 flags
    if m.1 < 0 then
      (0, mmFrameFree m.2 frame.1)
    else
      (va, m.2)

def mmUnmapAt (s : State) (pdir va : Nat) : Int × State :=
  if present (s.mem pdir (pdIdx va)) then
    let pt := entryFrame (s.mem pdir (pdIdx va))
    if present (s.mem pt (ptIdx va)) then
      (0, setWord (mmFrameFree s (entryFrame (s.mem pt (ptIdx va)))) pt (ptIdx va) 0#32)
    else
      (-1, s)
  else
    (-1, s)

def mmGetPte (s : State) (pdir va : Nat) : BitVec 32 :=
  if present (s.mem pdir (pdIdx va)) then
    s.mem (entryFrame (s.mem pdir (pdIdx va))) (ptIdx va)
  else
    0#32

/-- Free the frames of the present entries of a table below index `n`. -/
def freeEntries (s : State) (pt : Nat) : Nat → State
  | 0 => s
  | k + 1 =>
    let s' := freeEntries s pt k
    if present (s'.mem pt k) then
      mmFrameFree s' (entryFrame (s'.mem pt k))
    else
      s'

/-- Free the first `n` entries of a table and then the table itself. -/
def freeTable (s : State) (pt n : Nat) : State :=
  mmFrameFree (freeEntries s pt n) pt

/-- The loop of `clone_page_table` over the first `n` entries. The error value is the state after
the undo of a failed allocation. -/
def cloneEntries (s : State) (parentPt newPt : Nat) : Nat → Except State State
  | 0 => .ok s
  | j + 1 =>
    match cloneEntries s parentPt newPt j with
    | .error e => .error e
    | .ok s' =>
      if present (s'.mem parentPt j) then
        let frame := mmFrameAlloc s'
        if frame.1 = 0 then
          .error (freeTable frame.2 newPt j)
        else
          let s'' := copyFrame frame.2 frame.1
            (entryFrame (s'.mem parentPt j))
          .ok (setWord s'' newPt j (mkEntry frame.1 (entryFlags (s'.mem parentPt j))))
      else
        .ok (setWord s' newPt j (s'.mem parentPt j))

/-- `clone_page_table`: the new directory entry, or the state after the undo. -/
def clonePageTable (s : State) (parentPde : BitVec 32) : Except State (BitVec 32 × State) :=
  let newPt := mmFrameAlloc s
  if newPt.1 = 0 then
    .error newPt.2
  else
    match cloneEntries newPt.2 (entryFrame parentPde) newPt.1 dirSize with
    | .error e => .error e
    | .ok s' => .ok (mkEntry newPt.1 (entryFlags parentPde), s')

/-- `free_cloned_range` from directory entry 4 over `n` entries. -/
def freeClonedRange (s : State) (pdir : Nat) : Nat → State
  | 0 => s
  | k + 1 =>
    let s' := freeClonedRange s pdir k
    if present (s'.mem pdir (4 + k)) then
      freeTable s' (entryFrame (s'.mem pdir (4 + k))) dirSize
    else
      s'

/-- The loop of `mm_clone_pdir` over `n` entries from directory entry 4 on. -/
def cloneTables (s : State) (parentPdir newPdir : Nat) : Nat → Except State State
  | 0 => .ok s
  | k + 1 =>
    match cloneTables s parentPdir newPdir k with
    | .error e => .error e
    | .ok s' =>
      if present (s'.mem parentPdir (4 + k)) then
        match clonePageTable s' (s'.mem parentPdir (4 + k)) with
        | .error e => .error (mmFrameFree (freeClonedRange e newPdir k) newPdir)
        | .ok (newPde, s'') => .ok (setWord s'' newPdir (4 + k) newPde)
      else
        .ok (setWord s' newPdir (4 + k) (s'.mem parentPdir (4 + k)))

/-- `memcpy(new_pdir, parent_pdir, 4 * sizeof(uint32_t))`. -/
def copyKernelEntries (s : State) (newPdir parentPdir : Nat) : State :=
  { s with
    mem := Function.update s.mem newPdir
      (fun i =>
        if i < 4 then s.mem parentPdir i else s.mem newPdir i) }

/-- `mm_clone_pdir`: the new directory, or 0. -/
def mmClonePdir (s : State) (parentPdir : Nat) : Nat × State :=
  let newPdir := mmFrameAlloc s
  if newPdir.1 = 0 then
    (0, newPdir.2)
  else
    match cloneTables (copyKernelEntries newPdir.2 newPdir.1 parentPdir)
        parentPdir newPdir.1 (dirSize - 4) with
    | .error e => (0, e)
    | .ok s' => (newPdir.1, s')

section Indices

theorem ptIdx_lt (va : Nat) :
    ptIdx va < dirSize := by
  exact Nat.mod_lt _ (by decide)

theorem pdIdx_lt {va : Nat} (hva : va < 2 ^ 32) :
    pdIdx va < dirSize := by
  unfold pdIdx dirSize
  omega

theorem tableFlags_lt :
    tableFlags.toNat < 4096 := by
  decide

@[simp] theorem present_tableFlags :
    present tableFlags = true := by
  decide

end Indices

section Undo

variable (s : State)

@[simp] theorem mem_freeEntries (pt n : Nat) :
    (freeEntries s pt n).mem = s.mem := by
  induction n with
  | zero => rfl
  | succ k ih =>
    unfold freeEntries
    simp only
    split
    · rw [mem_mmFrameFree, ih]
    · exact ih

@[simp] theorem mem_freeTable (pt n : Nat) :
    (freeTable s pt n).mem = s.mem := by
  unfold freeTable
  rw [mem_mmFrameFree, mem_freeEntries]

@[simp] theorem mem_freeClonedRange (pdir n : Nat) :
    (freeClonedRange s pdir n).mem = s.mem := by
  induction n with
  | zero => rfl
  | succ k ih =>
    unfold freeClonedRange
    simp only
    split
    · rw [mem_freeTable, ih]
    · exact ih

/-- A frame is the one that a present entry of the table below `n` names. -/
def EntryFrames (s : State) (pt n f : Nat) : Prop :=
  ∃ j, j < n ∧ present (s.mem pt j) = true ∧
    entryFrame (s.mem pt j) = f

/-- The table frame itself, or the frame of one of its first `n` entries. -/
def TableFrames (s : State) (pt n f : Nat) : Prop :=
  f = pt ∨ EntryFrames s pt n f

theorem entryFrames_succ (pt n f : Nat) :
    EntryFrames s pt (n + 1) f ↔
      EntryFrames s pt n f ∨
        (present (s.mem pt n) = true ∧
          entryFrame (s.mem pt n) = f) :=
  Nat.exists_lt_succ_right

/-- One more frame is released. -/
theorem bitmapTest_freeMore {s s' : State} {p f : Nat} {gone : Prop} (hp : p < identPages)
    (h : bitmapTest s' f = true ↔ bitmapTest s f = true ∧ ¬ gone) :
    bitmapTest (mmFrameFree s' p) f = true ↔ bitmapTest s f = true ∧ ¬ (f = p ∨ gone) := by
  rw [bitmapTest_mmFrameFree _ hp, Bool.and_eq_true, h, not_or]
  simp [and_left_comm]

theorem bitmapTest_freeEntries
    (pt n : Nat) (hlt : ∀ f, EntryFrames s pt n f → f < identPages) (f : Nat) :
    bitmapTest (freeEntries s pt n) f = true ↔
      bitmapTest s f = true ∧ ¬ EntryFrames s pt n f := by
  induction n with
  | zero =>
    have hnone : ¬ EntryFrames s pt 0 f := by
      rintro ⟨j, hj, _⟩
      omega
    simp [freeEntries, hnone]
  | succ k ih =>
    have hrest : ∀ g, EntryFrames s pt k g → g < identPages := by
      intro g hg
      exact hlt g ((entryFrames_succ s pt k g).mpr (Or.inl hg))
    have ih' := ih hrest
    rw [entryFrames_succ]
    unfold freeEntries
    simp only [mem_freeEntries]
    by_cases hpres : present (s.mem pt k) = true
    · have hk : entryFrame (s.mem pt k) < identPages :=
        hlt _ ((entryFrames_succ s pt k _).mpr (Or.inr ⟨hpres, rfl⟩))
      rw [if_pos hpres, bitmapTest_freeMore hk ih', or_comm]
      simp only [hpres, true_and, eq_comm]
    · rw [if_neg hpres, ih']
      simp [hpres]

theorem bitmapTest_freeTable
    (pt n : Nat) (hlt : ∀ f, TableFrames s pt n f → f < identPages) (f : Nat) :
    bitmapTest (freeTable s pt n) f = true ↔
      bitmapTest s f = true ∧ ¬ TableFrames s pt n f :=
  bitmapTest_freeMore (hlt pt (Or.inl rfl))
    (bitmapTest_freeEntries s pt n (fun g hg => hlt g (Or.inr hg)) f)

/-- The frames of the tables of a directory from entry 4 over `n` entries. -/
def RangeFrames (s : State) (pdir n f : Nat) : Prop :=
  ∃ k, k < n ∧ present (s.mem pdir (4 + k)) = true ∧
    TableFrames s (entryFrame (s.mem pdir (4 + k))) dirSize f

theorem rangeFrames_succ (pdir n f : Nat) :
    RangeFrames s pdir (n + 1) f ↔
      RangeFrames s pdir n f ∨
        (present (s.mem pdir (4 + n)) = true ∧
          TableFrames s (entryFrame (s.mem pdir (4 + n))) dirSize f) :=
  Nat.exists_lt_succ_right

theorem bitmapTest_freeClonedRange
    (pdir n : Nat) (hlt : ∀ f, RangeFrames s pdir n f → f < identPages) (f : Nat) :
    bitmapTest (freeClonedRange s pdir n) f = true ↔
      bitmapTest s f = true ∧ ¬ RangeFrames s pdir n f := by
  induction n with
  | zero =>
    have hnone : ¬ RangeFrames s pdir 0 f := by
      rintro ⟨k, hk, _⟩
      omega
    simp [freeClonedRange, hnone]
  | succ k ih =>
    have hrest : ∀ g, RangeFrames s pdir k g → g < identPages := by
      intro g hg
      exact hlt g ((rangeFrames_succ s pdir k g).mpr (Or.inl hg))
    have ih' := ih hrest
    rw [rangeFrames_succ]
    unfold freeClonedRange
    simp only [mem_freeClonedRange]
    by_cases hpres : present (s.mem pdir (4 + k)) = true
    · rw [if_pos hpres, bitmapTest_freeTable]
      · have hmem := mem_freeClonedRange s pdir k
        have hsame :
            TableFrames (freeClonedRange s pdir k)
                (entryFrame (s.mem pdir (4 + k))) dirSize f ↔
              TableFrames s
                (entryFrame (s.mem pdir (4 + k))) dirSize f := by
          unfold TableFrames EntryFrames
          rw [hmem]
        rw [ih', hsame]
        simp only [hpres, true_and, not_or, and_assoc]
      · intro g hg
        apply hlt g
        rw [rangeFrames_succ]
        refine Or.inr ⟨hpres, ?_⟩
        unfold TableFrames EntryFrames at hg ⊢
        rwa [mem_freeClonedRange] at hg
    · rw [if_neg hpres, ih']
      simp [hpres]

end Undo

end Mm
end Homunculos
