import Homunculos.Mm.Spaces
import Homunculos.Mm.Vma

/-!
# The memory calls of user tasks

`sys_mmap2`, `sys_munmap`, `sys_mprotect` and `sys_brk` of
`kernel/syscall.c`, called by a current task.  Addresses and lengths are
32-bit words; sums wrap around as in the source.  A result is the returned
word with the memory and the task it leaves.

The loops of the four calls walk over pages.  `UserEdit` says what a walk over
pages of the user half does: ownership is kept, the kernel half is not
touched, frames given back were pages of the caller, and which pages are
present afterwards.
-/

namespace Homunculos
namespace Mm

/-- The fields of `struct task` that the memory calls use. -/
structure MmTask where
  pdir : Nat
  brkStart : BitVec 32
  programBreak : BitVec 32
  vmas : VmaTable

def protWrite : BitVec 32 := 2#32

def mapFixed : BitVec 32 := 16#32

def mapAnonymous : BitVec 32 := 32#32

/-- `x & ~0xFFF`. -/
def pageDown (x : Nat) : Nat :=
  x / 4096 * 4096

/-- `(x + 0xFFF) & ~0xFFF`. -/
def pageUp (x : Nat) : Nat :=
  (x + 0xFFF) % 2 ^ 32 / 4096 * 4096

def protToPageFlags (prot : BitVec 32) : BitVec 32 :=
  if prot = 0#32 then
    0#32
  else if prot &&& protWrite = 0#32 then
    mmPresent ||| mmUser
  else
    mmPresent ||| mmUser ||| mmRw

/-- `va + i * FRAME`. -/
def pageAddr (va i : Nat) : Nat :=
  (va + i * 4096) % 2 ^ 32

/-- Map `n` pages from `va` on, as the loops of `sys_mmap2` and `sys_brk` do. The error value has
the index of the page that could not be mapped. -/
def allocRange (s : State) (pdir va : Nat) (flags : BitVec 32) : Nat → Except (Nat × State) State
  | 0 => .ok s
  | i + 1 =>
    match allocRange s pdir va flags i with
    | .error e => .error e
    | .ok s' =>
      let r := mmAllocAt s' pdir (pageAddr va i) flags
      if r.1 = 0 then .error (i, r.2) else .ok r.2

/-- The loop behind the label `fail` of `sys_mmap2`. -/
def undoRange (s : State) (pdir va : Nat) : Nat → State
  | 0 => s
  | j + 1 => (mmUnmapAt (undoRange s pdir va j) pdir (pageAddr va j)).2

/-- The place `sys_mmap2` chooses, if it has one. -/
def mmapPlace (t : MmTask) (addr flags : BitVec 32) (length : Nat) : Option Nat :=
  if flags &&& mapFixed = 0#32 then
    let va := vmaFindGap t.vmas length
    if va = 0 then none else some va
  else
    let va := pageDown addr.toNat
    if t.vmas.areas.any (·.overlaps va ((va + length) % 2 ^ 32)) then
      none
    else
      some va

/-- `sys_mmap2`; the file and the offset are ignored. -/
def sysMmap2 (s : State) (t : MmTask)
    (addr length prot flags : BitVec 32) : BitVec 32 × State × MmTask :=
  let len := pageUp length.toNat
  if len = 0 then
    (-1, s, t)
  else if flags &&& mapAnonymous = 0#32 then
    (-1, s, t)
  else
    match mmapPlace t addr flags len with
    | none => (-1, s, t)
    | some va =>
      match allocRange s t.pdir va (protToPageFlags prot)
          (len / 4096) with
      | .error (i, s') => (-1, undoRange s' t.pdir va i, t)
      | .ok s' =>
        match vmaAdd t.vmas va ((va + len) % 2 ^ 32) prot flags with
        | none => (-1, undoRange s' t.pdir va (len / 4096), t)
        | some vmas => (BitVec.ofNat 32 va, s', { t with vmas := vmas })

/-- The loop of `sys_munmap` over `n` pages from `va` on. -/
def munmapRange (s : State) (pdir va : Nat) : Nat → State
  | 0 => s
  | k + 1 =>
    let s' := munmapRange s pdir va k
    if present (mmGetPte s' pdir (va + k * 4096)) then
      (mmUnmapAt s' pdir (va + k * 4096)).2
    else
      s'

/-- The end of the range that `sys_munmap` and `sys_mprotect` walk over. -/
def rangeEnd (addr length : BitVec 32) : Nat :=
  pageUp (addr.toNat + length.toNat)

/-- `sys_munmap`; the walk stops below an end that is at most 2^32 - 4096. -/
def sysMunmap (s : State) (t : MmTask) (addr length : BitVec 32) : BitVec 32 × State × MmTask :=
  let va := pageDown addr.toNat
  let stop := rangeEnd addr length
  (0, munmapRange s t.pdir va ((stop - va) / 4096),
    { t with vmas := vmaRemove t.vmas va stop })

/-- The loop body of `sys_mprotect`. -/
def mprotectPage (s : State) (pdir page : Nat) (flags : BitVec 32) : State :=
  if present (mmGetPte s pdir page) then
    setWord s (entryFrame (s.mem pdir (pdIdx page))) (ptIdx page)
      (mkEntry (entryFrame (mmGetPte s pdir page)) flags)
  else
    s

/-- The loop of `sys_mprotect` over `n` pages from `va` on. -/
def mprotectRange (s : State) (pdir va : Nat) (flags : BitVec 32) : Nat → State
  | 0 => s
  | k + 1 =>
    mprotectPage (mprotectRange s pdir va flags k) pdir
      (va + k * 4096) flags

def sysMprotect (s : State) (t : MmTask)
    (addr length prot : BitVec 32) : BitVec 32 × State × MmTask :=
  let va := pageDown addr.toNat
  let stop := rangeEnd addr length
  (0, mprotectRange s t.pdir va (protToPageFlags prot)
      ((stop - va) / 4096),
    { t with vmas := vmaUpdateProt t.vmas va stop prot })

/-- The break that `sys_brk` aims at. -/
def brkTarget (t : MmTask) (addr : BitVec 32) : BitVec 32 :=
  if addr < t.brkStart then t.brkStart else addr

def sysBrk (s : State) (t : MmTask) (addr : BitVec 32) : BitVec 32 × State × MmTask :=
  if addr = 0#32 then
    (t.programBreak, s, t)
  else
    let newBrk := brkTarget t addr
    let oldPage := pageUp t.programBreak.toNat
    let newPage := pageUp newBrk.toNat
    if newPage > oldPage then
      match allocRange s t.pdir oldPage tableFlags
          ((newPage - oldPage) / 4096) with
      | .error (_, s') => (t.programBreak, s', t)
      | .ok s' => (newBrk, s', { t with programBreak := newBrk })
    else
      (newBrk, s, { t with programBreak := newBrk })

section Arithmetic

theorem pageDown_lt (x : BitVec 32) :
    pageDown x.toNat < 2 ^ 32 := by
  unfold pageDown
  omega

theorem pageUp_le (x : Nat) :
    pageUp x ≤ 2 ^ 32 - 4096 := by
  unfold pageUp
  omega

theorem protToPageFlags_lt (prot : BitVec 32) :
    (protToPageFlags prot).toNat < 4096 := by
  unfold protToPageFlags
  split
  · decide
  · split
    · decide
    · decide

theorem present_protToPageFlags {prot : BitVec 32} (h : prot ≠ 0#32) :
    present (protToPageFlags prot) = true := by
  unfold protToPageFlags
  rw [if_neg h]
  split
  · decide
  · decide

end Arithmetic

/-- A page of the user half. -/
def UserPage (n : Nat) : Prop :=
  4096 ≤ n ∧ n < 2 ^ 20

/-- The entry of page `n` of directory `d`. -/
def pageSlot (s : State) (d n : Nat) : BitVec 32 :=
  slot s d (n / 1024) (n % 1024)

/-- Page `n` is present in directory `d`. -/
def Shown (s : State) (d n : Nat) : Prop :=
  present (pageSlot s d n) = true

theorem pdIdx_eq (va : Nat) :
    pdIdx va = va / 4096 / 1024 := by
  unfold pdIdx
  omega

theorem ptIdx_eq (va : Nat) :
    ptIdx va = va / 4096 % 1024 := rfl

theorem mmGetPte_eq_pageSlot (s : State) (d va : Nat) :
    mmGetPte s d va = pageSlot s d (va / 4096) := by
  rw [mmGetPte_eq_slot, pdIdx_eq, ptIdx_eq, pageSlot]

theorem UserPage.pd {n : Nat} (h : UserPage n) :
    4 ≤ n / 1024 ∧ n / 1024 < dirSize := by
  unfold UserPage at h
  unfold dirSize
  omega

/-- Frame `f` holds a user page of directory `d`. -/
def MapsFrame (s : State) (d f : Nat) : Prop :=
  ∃ n, UserPage n ∧ Shown s d n ∧ entryFrame (pageSlot s d n) = f

/-- A change to the user half of directory `d`. After it the user pages present in `d` are those
of `new`. -/
structure UserEdit (kernel : Nat → Prop) (dirs : List Nat) (d : Nat) (s s' : State)
    (new : Nat → Prop) : Prop where
  owned : Owned kernel s' dirs
  entries : ∀ d' ∈ dirs, ∀ i, i < 4 → s'.mem d' i = s.mem d' i
  words : ∀ f, kernel f → f ∉ dirs → s'.mem f = s.mem f
  freed : ∀ f, bitmapTest s f = true → bitmapTest s' f = false →
    MapsFrame s d f
  pages : ∀ f, bitmapTest s f = true → MapsFrame s' d f → MapsFrame s d f
  shown : ∀ n, UserPage n → (Shown s' d n ↔ new n)

section Edits

variable {kernel : Nat → Prop} {dirs : List Nat} {d : Nat} {s s' s1 s2 : State}
variable {new new1 new2 : Nat → Prop}

theorem Owned.userEdit_refl (ho : Owned kernel s dirs) :
    UserEdit kernel dirs d s s (Shown s d) := by
  refine ⟨ho, fun _ _ _ _ => rfl, fun _ _ _ => rfl, ?_, fun _ _ h => h, fun _ _ => Iff.rfl⟩
  intro f hf hf'
  rw [hf] at hf'
  cases hf'

theorem UserEdit.congr
    (h : UserEdit kernel dirs d s s' new) (hnew : ∀ n, UserPage n → (new n ↔ new1 n)) :
    UserEdit kernel dirs d s s' new1 :=
  ⟨h.owned, h.entries, h.words, h.freed, h.pages, fun n hn => (h.shown n hn).trans (hnew n hn)⟩

theorem UserEdit.trans
    (h1 : UserEdit kernel dirs d s s1 new1) (h2 : UserEdit kernel dirs d s1 s2 new2) :
    UserEdit kernel dirs d s s2 new2 := by
  refine ⟨h2.owned, ?_, ?_, ?_, ?_, h2.shown⟩
  · intro d' hd' i hi
    rw [h2.entries d' hd' i hi, h1.entries d' hd' i hi]
  · intro f hf hfd
    rw [h2.words f hf hfd, h1.words f hf hfd]
  · intro f hf hf2
    cases hf1 : bitmapTest s1 f with
    | false => exact h1.freed f hf hf1
    | true => exact h1.pages f hf (h2.freed f hf1 hf2)
  · intro f hf hmaps
    cases hf1 : bitmapTest s1 f with
    | false => exact h1.freed f hf hf1
    | true => exact h1.pages f hf (h2.pages f hf1 hmaps)

theorem Owned.apart_kernel (ho : Owned kernel s dirs) {f : Nat} (hf : kernel f) (hfd : f ∉ dirs) :
    Apart s dirs f := by
  refine ⟨ho.kernelUsed f hf, hfd, ?_⟩
  intro d' i hlive heq
  apply ho.refKernel _ hlive
  simp only [Ref.frame]
  rw [heq]
  exact hf

theorem SameUse.userEdit (h : SameUse s s') (ho : Owned kernel s dirs) (hd : d ∈ dirs) :
    UserEdit kernel dirs d s s' (Shown s d) := by
  have hk := h.keeps
  have hslot : ∀ n, UserPage n → pageSlot s' d n = pageSlot s d n := by
    intro n hn
    exact ho.slot_of_keeps hk hd hn.pd.1 hn.pd.2 _
  refine ⟨ho.of_keeps hk, ?_, ?_, ?_, ?_, ?_⟩
  · intro d' hd' i _
    rw [hk.mem d' (ho.dirUsed d' hd')]
  · intro f hf _
    exact hk.mem f (ho.kernelUsed f hf)
  · intro f hf hf'
    rw [h.used f, hf] at hf'
    cases hf'
  · rintro f _ ⟨n, hn, hshown, hframe⟩
    unfold Shown at hshown
    rw [hslot n hn] at hshown hframe
    exact ⟨n, hn, hshown, hframe⟩
  · intro n hn
    unfold Shown
    rw [hslot n hn]

theorem pageSlot_of_slot {n m d1 : Nat} {v : BitVec 32}
    (h : ∀ d' i' j', d' ∈ dirs → 4 ≤ i' → i' < dirSize →
      slot s' d' i' j' =
        if d' = d ∧ i' = n / 1024 ∧ j' = n % 1024 then v
        else slot s d' i' j')
    (hd1 : d1 ∈ dirs) (hm : UserPage m) :
    pageSlot s' d1 m = if d1 = d ∧ m = n then v else pageSlot s d1 m := by
  unfold pageSlot
  rw [h d1 (m / 1024) (m % 1024) hd1 hm.pd.1 hm.pd.2]
  exact if_congr (by omega) rfl rfl

/-- A successful `mm_alloc_at` adds one page if its flags say present. -/
theorem Mapped.userEdit
    {n p : Nat} {flags : BitVec 32} (h : Mapped kernel s s' dirs d (n / 1024) (n % 1024) p flags)
    (ho : Owned kernel s dirs) (hd : d ∈ dirs) (hflags : flags.toNat < 4096) :
    UserEdit kernel dirs d s s'
      (fun m => if m = n then present flags = true else Shown s d m) := by
  have hslot : ∀ m, UserPage m → pageSlot s' d m =
      if m = n then mkEntry p flags else pageSlot s d m :=
    fun m hm => by simpa using pageSlot_of_slot h.slot hd hm
  refine ⟨h.owned, fun d' hd' i hi => h.low d' i hd' hi, ?_, ?_, ?_, ?_⟩
  · intro f hf hfd
    exact h.apart f (ho.apart_kernel hf hfd)
  · intro f hf hf'
    rw [h.used f hf] at hf'
    cases hf'
  · rintro f hf ⟨m, hm, hshown, hframe⟩
    unfold Shown at hshown
    rw [hslot m hm] at hshown hframe
    by_cases hmn : m = n
    · -- the new page's frame was clear before
      rw [if_pos hmn, entryFrame_mkEntry h.lt hflags] at hframe
      subst hframe
      rw [h.fresh] at hf
      cases hf
    · rw [if_neg hmn] at hshown hframe
      exact ⟨m, hm, hshown, hframe⟩
  · intro m hm
    unfold Shown
    rw [hslot m hm]
    by_cases hmn : m = n
    · rw [if_pos hmn, if_pos hmn, present_mkEntry h.lt hflags]
    · rw [if_neg hmn, if_neg hmn]

/-- A successful `mm_unmap_at` removes one page. -/
theorem Unmapped.userEdit
    {n : Nat} (h : Unmapped kernel s s' dirs d (n / 1024) (n % 1024)) (ho : Owned kernel s dirs)
    (hd : d ∈ dirs) (hn : UserPage n) :
    UserEdit kernel dirs d s s' (fun m => m ≠ n ∧ Shown s d m) := by
  have hslot : ∀ m, UserPage m → pageSlot s' d m =
      if m = n then 0#32 else pageSlot s d m :=
    fun m hm => by simpa using pageSlot_of_slot h.slot hd hm
  refine ⟨h.owned, fun d' hd' i hi => h.low d' i hd' hi, ?_, ?_, ?_, ?_⟩
  · intro f hf hfd
    exact h.apart f (ho.apart_kernel hf hfd)
  · intro f hf hf'
    refine ⟨n, hn, h.was, ?_⟩
    by_contra hne
    have hused := (h.used f).mpr ⟨hf, fun heq => hne heq.symm⟩
    rw [hused] at hf'
    cases hf'
  · rintro f _ ⟨m, hm, hshown, hframe⟩
    unfold Shown at hshown
    rw [hslot m hm] at hshown hframe
    by_cases hmn : m = n
    · rw [if_pos hmn] at hshown
      simp at hshown
    · rw [if_neg hmn] at hshown hframe
      exact ⟨m, hm, hshown, hframe⟩
  · intro m hm
    unfold Shown
    rw [hslot m hm]
    by_cases hmn : m = n
    · simp [hmn]
    · simp [hmn]

/-- `mm_unmap_at` on a user page, whether or not it is present. -/
theorem userEdit_mmUnmapAt
    {va : Nat} (ho : Owned kernel s dirs) (hd : d ∈ dirs) (hva : UserPage (va / 4096))
    (hlt : va < 2 ^ 32) :
    UserEdit kernel dirs d s (mmUnmapAt s d va).2
      (fun m => m ≠ va / 4096 ∧ Shown s d m) := by
  have hlo : 4 ≤ pdIdx va := by
    rw [pdIdx_eq]
    exact hva.pd.1
  rcases mmUnmapAt_spec ho hd hlo hlt with ⟨habs, hout⟩ | ⟨_, hun⟩
  · rw [hout]
    refine ho.userEdit_refl.congr ?_
    intro m _
    constructor
    · intro hm
      refine ⟨?_, hm⟩
      rintro rfl
      unfold Shown pageSlot at hm
      rw [pdIdx_eq, ptIdx_eq] at habs
      rw [habs] at hm
      cases hm
    · exact fun hm => hm.2
  · rw [pdIdx_eq] at hun
    exact hun.userEdit ho hd hva

theorem live_of_shown
    {va : Nat} (hd : d ∈ dirs) (hva : UserPage (va / 4096)) (hshown : Shown s d (va / 4096)) :
    (Ref.page d (pdIdx va) (ptIdx va)).Live s dirs ∧
      pageSlot s d (va / 4096) = pte s d (pdIdx va) (ptIdx va) := by
  unfold Shown at hshown
  have hdir : present (s.mem d (pdIdx va)) = true := by
    by_contra hno
    unfold pageSlot slot at hshown
    rw [← pdIdx_eq, if_neg hno] at hshown
    simp at hshown
  have hslot : pageSlot s d (va / 4096) =
      pte s d (pdIdx va) (ptIdx va) := by
    unfold pageSlot slot
    rw [← pdIdx_eq, ← ptIdx_eq, if_pos hdir]
  have hlo : 4 ≤ pdIdx va := by
    rw [pdIdx_eq]
    exact hva.pd.1
  have hhi : pdIdx va < dirSize := by
    rw [pdIdx_eq]
    exact hva.pd.2
  rw [hslot] at hshown
  exact ⟨⟨⟨hd, hlo, hhi, hdir⟩, ptIdx_lt va, hshown⟩, hslot⟩

theorem pageSlot_setPte
    {va d1 m : Nat} (ho : Owned kernel s dirs) (ht : (Ref.table d (pdIdx va)).Live s dirs)
    (v : BitVec 32) (hd1 : d1 ∈ dirs) (hm : UserPage m) :
    pageSlot (setWord s (entryFrame (s.mem d (pdIdx va))) (ptIdx va) v) d1 m =
      if d1 = d ∧ m = va / 4096 then v else pageSlot s d1 m := by
  refine pageSlot_of_slot ?_ hd1 hm
  intro d' i' j' hd' hlo' hhi'
  rw [← pdIdx_eq]
  exact ho.slot_setWord ht hd' hlo' hhi' (ptIdx va) j' _

/-- The loop body of `sys_mprotect` on a user page. -/
theorem userEdit_mprotectPage
    {va : Nat} {flags : BitVec 32} (ho : Owned kernel s dirs) (hd : d ∈ dirs)
    (hva : UserPage (va / 4096)) (hflags : flags.toNat < 4096) :
    UserEdit kernel dirs d s (mprotectPage s d va flags)
      (fun m => Shown s d m ∧ (m = va / 4096 → present flags = true)) := by
  unfold mprotectPage
  rw [mmGetPte_eq_pageSlot]
  by_cases hpres : present (pageSlot s d (va / 4096)) = true
  · rw [if_pos hpres]
    obtain ⟨hpage, hslot⟩ := live_of_shown hd hva hpres
    have ht : (Ref.table d (pdIdx va)).Live s dirs := hpage.1
    have hlt : entryFrame (pageSlot s d (va / 4096)) < identPages := by
      rw [hslot]
      exact ho.refLt _ hpage
    have hframe := entryFrame_mkEntry hlt hflags
    have hnew : ∀ m, UserPage m →
        pageSlot (setWord s (entryFrame (s.mem d (pdIdx va))) (ptIdx va)
          (mkEntry (entryFrame (pageSlot s d (va / 4096))) flags)) d m =
        if m = va / 4096 then
          mkEntry (entryFrame (pageSlot s d (va / 4096))) flags
        else pageSlot s d m := by
      intro m hm
      simpa using pageSlot_setPte ho ht _ hd hm
    refine ⟨ho.rewritePage hpage ?_, ?_, ?_, ?_, ?_, ?_⟩
    · rw [hframe, hslot]
    · intro d' hd' i _
      rw [ho.mem_dir_setWord ht hd']
    · intro f hf hfd
      exact mem_setWord_of_ne _ _ _
        (fun heq => (ho.apart_kernel hf hfd).2.2 d _ ht heq.symm)
    · intro f hf hf'
      rw [bitmapTest_setWord, hf] at hf'
      cases hf'
    · rintro f _ ⟨m, hm, hshown, hmaps⟩
      unfold Shown at hshown
      rw [hnew m hm] at hshown hmaps
      by_cases hmn : m = va / 4096
      · rw [if_pos hmn, hframe] at hmaps
        exact ⟨va / 4096, hva, hpres, hmaps⟩
      · rw [if_neg hmn] at hshown hmaps
        exact ⟨m, hm, hshown, hmaps⟩
    · intro m hm
      unfold Shown
      rw [hnew m hm]
      by_cases hmn : m = va / 4096
      · subst hmn
        rw [if_pos rfl, present_mkEntry hlt hflags]
        simp [hpres]
      · simp [hmn]
  · rw [if_neg hpres]
    refine ho.userEdit_refl.congr ?_
    intro m _
    constructor
    · intro hm
      refine ⟨hm, ?_⟩
      rintro rfl
      exact absurd hm hpres
    · exact fun hm => hm.1

end Edits

end Mm
end Homunculos
