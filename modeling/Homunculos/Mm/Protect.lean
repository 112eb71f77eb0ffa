import Homunculos.Mm.Areas

/-!
# Changing the protection twice

`sys_mprotect` rewrites the entries that are present.  The present bit is one of the bits
that it writes, so a second call may not find the pages of the first.
-/

namespace Homunculos
namespace Mm

/-- What `sys_mprotect` makes of an entry. -/
def reprotected (flags e : BitVec 32) : BitVec 32 :=
  if present e then mkEntry (entryFrame e) flags else e

/-- Page `n` is in the range of a call of `sys_mprotect`. -/
def InCall (addr length : BitVec 32) (n : Nat) : Prop :=
  InRange (pageDown addr.toNat) ((rangeEnd addr length - pageDown addr.toNat) / 4096) n

instance (va n m : Nat) : Decidable (InRange va n m) :=
  inferInstanceAs (Decidable (∃ k, k < n ∧ pageNo va k = m))

instance (addr length : BitVec 32) (n : Nat) : Decidable (InCall addr length n) :=
  inferInstanceAs (Decidable (InRange _ _ n))

/-- The memory after two calls on the same range. -/
def twiceProtected (s : State) (t : MmTask) (addr length p₁ p₂ : BitVec 32) : State :=
  let r := sysMprotect s t addr length p₁
  (sysMprotect r.2.1 r.2.2 addr length p₂).2.1

/--
Two calls leave the entries that the second alone would leave, the frames, and everything
outside the range.
-/
structure Recomposed (kernel : Nat → Prop) (dirs : List Nat) (d : Nat) (range : Nat → Prop)
    (s once twice : State) : Prop where
  same : ∀ d₁ ∈ dirs, ∀ n, UserPage n → pageSlot twice d₁ n = pageSlot once d₁ n
  frame : ∀ n, range n → entryFrame (pageSlot twice d n) = entryFrame (pageSlot s d n)
  rest : ∀ d₁ ∈ dirs, ∀ n, UserPage n → ¬ (d₁ = d ∧ range n) →
    pageSlot twice d₁ n = pageSlot s d₁ n
  entries : ∀ d₁ ∈ dirs, ∀ i, i < 4 → twice.mem d₁ i = s.mem d₁ i
  words : ∀ f, kernel f → f ∉ dirs → twice.mem f = s.mem f

section Twice

variable {kernel : Nat → Prop} {dirs : List Nat} {d d₁ va m : Nat} {s : State}
variable {flags flags' e : BitVec 32}

theorem pageSlot_mprotectPage
    (ho : Owned kernel s dirs) (hd : d ∈ dirs) (hva : UserPage (va / 4096)) (hd1 : d₁ ∈ dirs)
    (hm : UserPage m) :
    pageSlot (mprotectPage s d va flags) d₁ m =
      if d₁ = d ∧ m = va / 4096 then reprotected flags (pageSlot s d₁ m)
      else pageSlot s d₁ m := by
  unfold mprotectPage
  rw [mmGetPte_eq_pageSlot]
  by_cases hpres : present (pageSlot s d (va / 4096)) = true
  · rw [if_pos hpres, pageSlot_setPte ho (live_of_shown hd hva hpres).1.1 _ hd1 hm]
    refine ite_congr rfl ?_ (fun _ => rfl)
    rintro ⟨rfl, rfl⟩
    rw [reprotected, if_pos hpres]
  · rw [if_neg hpres]
    split
    · rename_i hpage
      rw [hpage.1, hpage.2, reprotected, if_neg hpres]
    · rfl

/-- The loop of `sys_mprotect` over user pages, entry by entry. -/
theorem pageSlot_mprotectRange
    (ho : Owned kernel s dirs) (hd : d ∈ dirs) (hflags : flags.toNat < 4096) (n : Nat)
    (hle : va + n * 4096 ≤ 2 ^ 32) (huser : ∀ k, k < n → UserPage (pageNo va k))
    (hd1 : d₁ ∈ dirs) (hm : UserPage m) :
    pageSlot (mprotectRange s d va flags n) d₁ m =
      if d₁ = d ∧ InRange va n m then reprotected flags (pageSlot s d₁ m)
      else pageSlot s d₁ m := by
  induction n with
  | zero => rw [mprotectRange, if_neg fun h => inRange_zero va m h.2]
  | succ n ih =>
    have hn := walk_le_of_succ hle
    have huser' : ∀ k, k < n → UserPage (pageNo va k) := fun k hk => huser k (by omega)
    have hno := pageNo_of_le hle (Nat.lt_succ_self n)
    have hpage : (va + n * 4096) / 4096 = pageNo va n := by omega
    have howned := (mprotectRange_spec ho hd hflags n hn fun k hk => Or.inl (huser' k hk)).owned
    have hnew : ¬ InRange va n (pageNo va n) := by
      rw [inRange_iff hn]
      omega
    rw [mprotectRange, pageSlot_mprotectPage howned hd (hpage ▸ huser n (by omega)) hd1 hm,
      ih hn huser', hpage]
    by_cases hlast : d₁ = d ∧ m = pageNo va n
    · obtain ⟨rfl, rfl⟩ := hlast
      rw [if_pos ⟨rfl, rfl⟩, if_neg fun h => hnew h.2,
        if_pos ⟨rfl, (inRange_succ ..).mpr (.inr rfl)⟩]
    · rw [if_neg hlast]
      refine if_congr (and_congr_right fun heq => ?_) rfl rfl
      rw [inRange_succ]
      exact ⟨Or.inl, fun h => h.resolve_right fun hmn => hlast ⟨heq, hmn⟩⟩

theorem reprotected_twice
    (hpres : present e = true) (hlt : entryFrame e < identPages) (hflags : flags.toNat < 4096) :
    reprotected flags' (reprotected flags e) =
      if present flags then reprotected flags' e else mkEntry (entryFrame e) flags := by
  have hmade : reprotected flags e = mkEntry (entryFrame e) flags := if_pos hpres
  unfold reprotected at hmade ⊢
  rw [hmade, present_mkEntry hlt hflags, entryFrame_mkEntry hlt hflags, if_pos hpres]

theorem frame_lt_of_shown
    (ho : Owned kernel s dirs) (hd : d ∈ dirs) (hm : UserPage m) (hshown : Shown s d m) :
    entryFrame (pageSlot s d m) < identPages := by
  have hpage : m * 4096 / 4096 = m := Nat.mul_div_cancel m (by decide)
  rw [← hpage] at hm hshown ⊢
  obtain ⟨hlive, hslot⟩ := live_of_shown hd hm hshown
  rw [hslot]
  exact ho.refLt _ hlive

section Calls

variable {t : MmTask} {addr length : BitVec 32}

section User

variable (ho : Owned kernel s dirs) (hd : t.pdir ∈ dirs)
variable (huser : ∀ n, InCall addr length n → UserPage n)

include ho hd huser

theorem sysMprotect_edit (p : BitVec 32) :
    UserEdit kernel dirs t.pdir s (sysMprotect s t addr length p).2.1
      (fun n => Shown s t.pdir n ∧ (InCall addr length n → present (protToPageFlags p) = true)) :=
  mprotectRange_spec ho hd (protToPageFlags_lt p) _ (range_walk_le addr length)
    fun k hk => Or.inl (huser _ ⟨k, hk, rfl⟩)

theorem sysMprotect_slot (p : BitVec 32) (hd1 : d₁ ∈ dirs) (hm : UserPage m) :
    pageSlot (sysMprotect s t addr length p).2.1 d₁ m =
      if d₁ = t.pdir ∧ InCall addr length m then
        reprotected (protToPageFlags p) (pageSlot s d₁ m)
      else pageSlot s d₁ m :=
  pageSlot_mprotectRange ho hd (protToPageFlags_lt p) _ (range_walk_le addr length)
    (fun k hk => huser _ ⟨k, hk, rfl⟩) hd1 hm

theorem twiceProtected_slot (p₁ p₂ : BitVec 32) (hd1 : d₁ ∈ dirs) (hm : UserPage m) :
    pageSlot (twiceProtected s t addr length p₁ p₂) d₁ m =
      if d₁ = t.pdir ∧ InCall addr length m then
        reprotected (protToPageFlags p₂) (reprotected (protToPageFlags p₁) (pageSlot s d₁ m))
      else pageSlot s d₁ m := by
  have howned := (sysMprotect_edit ho hd huser p₁).owned
  have hfirst := sysMprotect_slot ho hd huser p₁ hd1 hm
  refine (sysMprotect_slot (t := (sysMprotect s t addr length p₁).2.2) howned hd huser p₂ hd1
    hm).trans (ite_congr rfl (fun hin => ?_) (fun hin => ?_))
  · rw [hfirst, if_pos hin]
  · rw [hfirst, if_neg hin]

end User

/--
On mapped pages of the user half, a second `sys_mprotect` does what it would do alone
exactly if the first protection is not 0, or the second is 0 too, or the range is empty.
-/
theorem mprotect_twice_iff
    (ho : Owned kernel s dirs) (hd : t.pdir ∈ dirs) (p₁ p₂ : BitVec 32)
    (hmapped : ∀ n, InCall addr length n → UserPage n ∧ Shown s t.pdir n) :
    Recomposed kernel dirs t.pdir (InCall addr length) s (sysMprotect s t addr length p₂).2.1
        (twiceProtected s t addr length p₁ p₂) ↔
      (p₁ = 0#32 → p₂ = 0#32 ∨ ∀ n, ¬ InCall addr length n) := by
  have huser : ∀ n, InCall addr length n → UserPage n := fun n hn => (hmapped n hn).1
  have hlt : ∀ n, InCall addr length n → entryFrame (pageSlot s t.pdir n) < identPages :=
    fun n hn => frame_lt_of_shown ho hd (huser n hn) (hmapped n hn).2
  -- in the range, the first protection stays if it has hidden the page
  have hinside : ∀ n, InCall addr length n →
      pageSlot (twiceProtected s t addr length p₁ p₂) t.pdir n =
        if present (protToPageFlags p₁) then
          mkEntry (entryFrame (pageSlot s t.pdir n)) (protToPageFlags p₂)
        else mkEntry (entryFrame (pageSlot s t.pdir n)) (protToPageFlags p₁) := by
    intro n hn
    obtain ⟨hu, hshown⟩ := hmapped n hn
    rw [twiceProtected_slot ho hd huser p₁ p₂ hd hu, if_pos ⟨rfl, hn⟩,
      reprotected_twice hshown (hlt n hn) (protToPageFlags_lt p₁)]
    exact ite_congr rfl (fun _ => if_pos hshown) (fun _ => rfl)
  have honce : ∀ n, InCall addr length n →
      pageSlot (sysMprotect s t addr length p₂).2.1 t.pdir n =
        mkEntry (entryFrame (pageSlot s t.pdir n)) (protToPageFlags p₂) := by
    intro n hn
    obtain ⟨hu, hshown⟩ := hmapped n hn
    rw [sysMprotect_slot ho hd huser p₂ hd hu, if_pos ⟨rfl, hn⟩]
    exact if_pos hshown
  constructor
  · intro h hp1
    by_contra! hbad
    obtain ⟨hp2, n, hn⟩ := hbad
    have hsame := h.same t.pdir hd n (huser n hn)
    rw [hinside n hn, honce n hn, hp1, if_neg (by decide)] at hsame
    have hbits := congrArg present hsame
    rw [present_mkEntry (hlt n hn) (by decide),
      present_mkEntry (hlt n hn) (protToPageFlags_lt p₂), present_protToPageFlags hp2] at hbits
    cases hbits
  · intro hgood
    have hedit := sysMprotect_edit ho hd huser p₁
    have hboth := hedit.trans
      (sysMprotect_edit (t := (sysMprotect s t addr length p₁).2.2) hedit.owned hd huser p₂)
    refine ⟨?_, ?_, ?_, hboth.entries, hboth.words⟩
    · intro d hd' n hu
      by_cases hn : d = t.pdir ∧ InCall addr length n
      · obtain ⟨rfl, hn⟩ := hn
        rw [hinside n hn, honce n hn]
        by_cases hp1 : p₁ = 0#32
        · rw [hp1, (hgood hp1).resolve_right fun hnone => hnone n hn]
          rfl
        · rw [if_pos (present_protToPageFlags hp1)]
      · rw [twiceProtected_slot ho hd huser p₁ p₂ hd' hu, sysMprotect_slot ho hd huser p₂ hd' hu,
          if_neg hn, if_neg hn]
    · intro n hn
      rw [hinside n hn]
      split
      · exact entryFrame_mkEntry (hlt n hn) (protToPageFlags_lt p₂)
      · exact entryFrame_mkEntry (hlt n hn) (protToPageFlags_lt p₁)
    · intro d hd' n hu hn
      rw [twiceProtected_slot ho hd huser p₁ p₂ hd' hu, if_neg hn]

end Calls

/-- Page 0x40000 is all that `mprotect(0x40000000, 4096, _)` is about, and it is mapped. -/
theorem onePage_mapped :
    ∀ n, InCall 0x40000000 4096 n → UserPage n ∧ Shown onePage plainTask.pdir n := by
  have hone : (rangeEnd 0x40000000 4096 - pageDown (0x40000000 : BitVec 32).toNat) / 4096 = 1 := by
    decide
  rintro n ⟨k, hk, rfl⟩
  obtain rfl : k = 0 := by omega
  exact ⟨⟨by decide, by decide⟩, by unfold Shown; decide +kernel⟩

/-- `PROT_READ`, and then `PROT_READ | PROT_WRITE`. -/
theorem mprotect_twice_iff_onePage :
    Recomposed (fun f => f = 0) [1] 1 (InCall 0x40000000 4096) onePage
      (sysMprotect onePage plainTask 0x40000000 4096 3).2.1
      (twiceProtected onePage plainTask 0x40000000 4096 1 3) := by
  have howned := onePage_step.owned oneDirectory_start.owned
  dsimp only at howned
  have hdir : plainTask.pdir ∈ [1] := by decide
  exact (mprotect_twice_iff howned hdir 1 3 onePage_mapped).mpr fun hzero => by cases hzero

/-- After `PROT_NONE` the page is lost. -/
theorem mprotect_none_hides_page :
    present (pageSlot (twiceProtected onePage plainTask 0x40000000 4096 0 3) 1 0x40000) = false ∧
      ¬ Recomposed (fun f => f = 0) [1] 1 (InCall 0x40000000 4096) onePage
        (sysMprotect onePage plainTask 0x40000000 4096 3).2.1
        (twiceProtected onePage plainTask 0x40000000 4096 0 3) := by
  have hlost : present (pageSlot (twiceProtected onePage plainTask 0x40000000 4096 0 3) 1
      0x40000) = false := by decide +kernel
  have hkept : present (pageSlot (sysMprotect onePage plainTask 0x40000000 4096 3).2.1 1
      0x40000) = true := by decide +kernel
  have huser : UserPage 0x40000 := ⟨by decide, by decide⟩
  refine ⟨hlost, fun h => ?_⟩
  have hsame := congrArg present (h.same 1 List.mem_cons_self 0x40000 huser)
  exact Bool.false_ne_true (hlost.symm.trans (hsame.trans hkept))

end Twice

end Mm
end Homunculos
