import Mathlib

/-!
# Bytes in pages

A file of pages that are taken, the least free one each time, when they are first
written.  Bytes are put one after the other, and the first one for which no page is left
ends the run; so the run of two strings is that of their concatenation.  Which page an index
gets can be told from the store before the run.
-/

namespace Homunculos
namespace Paged

open Function

universe u

variable {β : Type u}

/-- The page numbers in use, the page of every index (0 if none) and what pages hold. -/
structure Store (β : Type u) where
  used : Set Nat
  page : Nat → Nat
  data : Nat → Nat → β

namespace Store

def withData (s : Store β) (b : Nat) (m : Nat → β) : Store β :=
  { s with data := update s.data b m }

open Classical in
/-- Index `i` has a page, unless it had none and all of `pages` are in use. -/
noncomputable def place (pages : Set Nat) (s : Store β) (i : Nat) : Option (Store β) :=
  if s.page i ≠ 0 then
    some s
  else if pages ⊆ s.used then
    none
  else
    some ⟨insert (sInf s.usedᶜ) s.used, update s.page i (sInf s.usedᶜ), s.data⟩

/-- One byte at position `p`, in pages of `bs` bytes. -/
noncomputable def put (bs : Nat) (pages : Set Nat) (s : Store β) (p : Nat)
    (x : β) : Option (Store β) :=
  (s.place pages (p / bs)).map (fun s => s.withData (s.page (p / bs))
    (update (s.data (s.page (p / bs))) (p % bs) x))

/-- As many bytes as there are pages for: their number, and the store. -/
noncomputable def puts (bs : Nat) (pages : Set Nat) : Store β → Nat → List β → Nat × Store β
  | s, _, [] => (0, s)
  | s, p, x :: xs =>
    match s.put bs pages p x with
    | none => (0, s)
    | some s' => ((puts bs pages s' (p + 1) xs).1 + 1, (puts bs pages s' (p + 1) xs).2)

variable {bs p i o c : Nat} {pages : Set Nat} {s s' : Store β}

theorem puts_of_none (h : s.place pages (p / bs) = none) (xs : List β) :
    puts bs pages s p xs = (0, s) := by
  cases xs with
  | nil => rfl
  | cons x xs =>
    rw [puts, put, h]
    rfl

theorem puts_zero {xs : List β} (h : puts bs pages s p xs = (0, s')) :
    s' = s := by
  cases xs with
  | nil => exact (Prod.mk.inj h).2.symm
  | cons x xs =>
    rw [puts] at h
    cases hput : s.put bs pages p x with
    | none =>
      rw [hput] at h
      exact (Prod.mk.inj h).2.symm
    | some s1 =>
      rw [hput] at h
      exact absurd (Prod.mk.inj h).1 (Nat.succ_ne_zero _)

theorem puts_append (xs ys : List β) :
    puts bs pages s p (xs ++ ys) =
      ((puts bs pages s p xs).1 +
        (puts bs pages (puts bs pages s p xs).2 (p + (puts bs pages s p xs).1) ys).1,
        (puts bs pages (puts bs pages s p xs).2 (p + (puts bs pages s p xs).1) ys).2) := by
  induction xs generalizing s p with
  | nil => simp [puts]
  | cons x xs ih =>
    rw [List.cons_append, puts, puts]
    cases hput : s.put bs pages p x with
    | none =>
      -- the next byte has no page either
      rw [put, Option.map_eq_none_iff] at hput
      simp [puts_of_none hput]
    | some s' =>
      simp only [ih]
      rw [show p + 1 + (puts bs pages s' (p + 1) xs).1 =
        p + ((puts bs pages s' (p + 1) xs).1 + 1) by omega]
      simp only [Prod.mk.injEq, and_true]
      omega

theorem place_of_page (h : s.page i ≠ 0) :
    s.place pages i = some s :=
  if_pos h

theorem place_new {b : Nat} (hpage : s.page i = 0) (hfree : b ∉ s.used) (hb : b ∈ pages)
    (hleast : ∀ n, n < b → n ∈ s.used) :
    s.place pages i = some ⟨insert b s.used, update s.page i b, s.data⟩ := by
  have hinf : sInf s.usedᶜ = b :=
    IsLeast.csInf_eq ⟨hfree, fun n hn => Nat.not_lt.mp (fun hlt => hn (hleast n hlt))⟩
  unfold place
  rw [if_neg (not_not.mpr hpage), if_neg (fun hsub => hfree (hsub hb)), hinf]

theorem puts_page (hplace : s.place pages i = some s') (hne : s'.page i ≠ 0) (src : Nat → β)
    (hfits : o + (c + 1) ≤ bs) :
    puts bs pages s (bs * i + o) ((List.range (c + 1)).map src) =
      (c + 1, s'.withData (s'.page i) (fun q =>
        if o ≤ q ∧ q < o + (c + 1) then src (q - o) else s'.data (s'.page i) q)) := by
  have hdiv : ∀ k, k < bs → (bs * i + k) / bs = i := by
    intro k hk
    rw [Nat.mul_add_div (by omega), Nat.div_eq_of_lt hk, Nat.add_zero]
  have hmod : ∀ k, k < bs → (bs * i + k) % bs = k := by
    intro k hk
    rw [Nat.mul_add_mod, Nat.mod_eq_of_lt hk]
  induction c with
  | zero =>
    have hone : update (s'.data (s'.page i)) o (src 0) =
        fun q => if o ≤ q ∧ q < o + 1 then src (q - o) else s'.data (s'.page i) q := by
      funext q
      by_cases hq : q = o
      · rw [hq, update_self, if_pos (by omega), Nat.sub_self]
      · rw [update_of_ne hq, if_neg (by omega)]
    simp [puts, put, hdiv o (by omega), hmod o (by omega), hplace, hone]
  | succ c ih =>
    have hnext : ∀ m : Nat → β, update (fun q =>
          if o ≤ q ∧ q < o + (c + 1) then src (q - o) else m q) (o + (c + 1)) (src (c + 1)) =
        fun q => if o ≤ q ∧ q < o + (c + 1 + 1) then src (q - o) else m q := by
      intro m
      funext q
      by_cases hq : q = o + (c + 1)
      · rw [hq, update_self, if_pos (by omega), Nat.add_sub_cancel_left]
      · rw [update_of_ne hq]
        exact if_congr (by omega) rfl rfl
    rw [List.range_succ, List.map_append, puts_append, ih (by omega)]
    have hpage : (s'.withData (s'.page i) (fun q =>
        if o ≤ q ∧ q < o + (c + 1) then src (q - o) else s'.data (s'.page i) q)).page i ≠ 0 := hne
    simp only [List.map_cons, List.map_nil, puts, put, Nat.add_assoc (bs * i),
      hdiv (o + (c + 1)) (by omega), hmod (o + (c + 1)) (by omega), place_of_page hpage]
    simp [withData, hnext]

/-- The free page number with `k` free ones below it. -/
noncomputable def fresh (s : Store β) (k : Nat) : Nat :=
  Nat.nth (· ∉ s.used) k

/-- How many indices from `lo` on and below `i` have no page. -/
def holes (s : Store β) (lo i : Nat) : Nat :=
  ((Finset.Ico lo i).filter (fun j => s.page j = 0)).card

/-- Free numbers go on behind the pages, and those that are no pages stand there. -/
structure Roomy (pages : Set Nat) (s : Store β) : Prop where
  zero : 0 ∈ s.used
  endless : {n | n ∉ s.used}.Infinite
  above : ∀ b c, b ∉ s.used → b ∉ pages → c ∈ pages → c < b

theorem Roomy.fresh_free (h : Roomy pages s) (k : Nat) : s.fresh k ∉ s.used :=
  Nat.nth_mem_of_infinite h.endless k

theorem Roomy.fresh_not_mem (h : Roomy pages s) (hfull : pages ⊆ s.used) (k : Nat) :
    s.fresh k ∉ pages :=
  fun hk => h.fresh_free k (hfull hk)

/-- The store after an index got the least free number. -/
noncomputable def taken (s : Store β) (i : Nat) : Store β :=
  ⟨insert (s.fresh 0) s.used, update s.page i (s.fresh 0), s.data⟩

theorem place_hole (hpage : s.page i = 0) (hroom : ¬ pages ⊆ s.used) :
    s.place pages i = some (s.taken i) := by
  have hinf : s.fresh 0 = sInf s.usedᶜ := Nat.nth_zero
  unfold place taken
  rw [if_neg (not_not.mpr hpage), if_neg hroom, hinf]

theorem Roomy.fresh_zero_mem (h : Roomy pages s) (hroom : ¬ pages ⊆ s.used) :
    s.fresh 0 ∈ pages := by
  obtain ⟨b, hb, hfree⟩ := Set.not_subset.mp hroom
  by_contra hnot
  have hlt := h.above _ b (h.fresh_free 0) hnot hb
  have hle : s.fresh 0 ≤ b := by
    rw [fresh, Nat.nth_zero]
    exact Nat.sInf_le hfree
  omega

theorem Roomy.fresh_taken (h : Roomy pages s) (i k : Nat) :
    (s.taken i).fresh k = s.fresh (k + 1) := by
  classical
  have hne : s.fresh (k + 1) ≠ s.fresh 0 :=
    fun heq => Nat.succ_ne_zero k (Nat.nth_injective h.endless heq)
  have hfree : s.fresh (k + 1) ∉ (s.taken i).used := by
    rintro (heq | hmem)
    · exact hne heq
    · exact h.fresh_free _ hmem
  have hcount : Nat.count (· ∉ (s.taken i).used) (s.fresh (k + 1)) = k := by
    have herase : (Finset.range (s.fresh (k + 1))).filter (· ∉ (s.taken i).used) =
        ((Finset.range (s.fresh (k + 1))).filter (· ∉ s.used)).erase (s.fresh 0) := by
      ext n
      simp only [taken, Set.mem_insert_iff, Finset.mem_filter, Finset.mem_erase]
      tauto
    have hmem : s.fresh 0 ∈ (Finset.range (s.fresh (k + 1))).filter (· ∉ s.used) :=
      Finset.mem_filter.mpr ⟨Finset.mem_range.mpr ((Nat.nth_lt_nth h.endless).mpr
        (Nat.succ_pos k)), h.fresh_free 0⟩
    rw [Nat.count_eq_card_filter_range, herase, Finset.card_erase_of_mem hmem,
      ← Nat.count_eq_card_filter_range, fresh, Nat.count_nth_of_infinite h.endless]
    rfl
  have hnth := Nat.nth_count (p := (· ∉ (s.taken i).used)) hfree
  rwa [hcount] at hnth

theorem Roomy.taken (h : Roomy pages s) (i : Nat) : Roomy pages (s.taken i) where
  zero := Or.inr h.zero
  endless := by
    refine (h.endless.sdiff (Set.finite_singleton (s.fresh 0))).mono ?_
    rintro n ⟨hn, hne⟩ (heq | hmem)
    · exact hne heq
    · exact hn hmem
  above := fun b c hb => h.above b c (fun hmem => hb (Or.inr hmem))

theorem Roomy.withData (h : Roomy pages s) (b : Nat) (m : Nat → β) :
    Roomy pages (s.withData b m) :=
  ⟨h.zero, h.endless, h.above⟩

/-- Holes up to `i` from one index on, and from the next. -/
theorem holes_succ {lo : Nat} (hlt : lo < i) :
    s.holes lo i = s.holes (lo + 1) i + if s.page lo = 0 then 1 else 0 := by
  unfold holes
  rw [← Finset.insert_Ico_add_one_left_eq_Ico hlt, Finset.filter_insert]
  split
  · rw [Finset.card_insert_of_notMem (by simp)]
  · rfl

theorem holes_taken {lo : Nat} (hlt : i < lo) (j : Nat) :
    (s.taken i).holes lo j = s.holes lo j := by
  unfold holes
  congr 1
  refine Finset.filter_congr (fun n hn => ?_)
  have hne : n ≠ i := by
    have := (Finset.mem_Ico.mp hn).1
    omega
  change update s.page i _ n = 0 ↔ _
  rw [update_of_ne hne]

theorem puts_cons_cases (bs : Nat) (pages : Set Nat) (s : Store β) (p : Nat) (x : β)
    (xs : List β) :
    s.page (p / bs) = 0 ∧ pages ⊆ s.used ∧ puts bs pages s p (x :: xs) = (0, s) ∨
    ∃ s₁ b m, (s.page (p / bs) ≠ 0 ∧ s₁ = s ∨
        s.page (p / bs) = 0 ∧ ¬ pages ⊆ s.used ∧ s₁ = s.taken (p / bs)) ∧
      puts bs pages s p (x :: xs) = ((puts bs pages (s₁.withData b m) (p + 1) xs).1 + 1,
        (puts bs pages (s₁.withData b m) (p + 1) xs).2) := by
  rw [puts, put]
  by_cases hpage : s.page (p / bs) = 0
  · by_cases hfull : pages ⊆ s.used
    · rw [place, if_neg (not_not.mpr hpage), if_pos hfull]
      exact Or.inl ⟨hpage, hfull, rfl⟩
    · rw [place_hole hpage hfull]
      exact Or.inr ⟨_, _, _, Or.inr ⟨hpage, hfull, rfl⟩, rfl⟩
  · rw [place_of_page hpage]
    exact Or.inr ⟨_, _, _, Or.inl ⟨hpage, rfl⟩, rfl⟩

theorem page_puts_of_ne (hne : s.page i ≠ 0) (xs : List β) :
    (puts bs pages s p xs).2.page i = s.page i := by
  induction xs generalizing s p with
  | nil => rfl
  | cons x xs ih =>
    rcases puts_cons_cases bs pages s p x xs with
      ⟨-, -, hout⟩ | ⟨s₁, b, m, ⟨-, rfl⟩ | ⟨hpage, -, rfl⟩, hout⟩
    · rw [hout]
    · rw [hout]
      exact ih hne
    · have hkept : (s.taken (p / bs)).page i = s.page i :=
        update_of_ne (fun heq : i = p / bs => hne (heq ▸ hpage)) _ _
      rw [hout]
      exact (ih (s := (s.taken (p / bs)).withData b m) (hkept.symm ▸ hne)).trans hkept

theorem page_of_puts_lt {xs : List β} (hlt : (puts bs pages s p xs).1 < xs.length) :
    (puts bs pages s p xs).2.page ((p + (puts bs pages s p xs).1) / bs) = 0 := by
  induction xs generalizing s p with
  | nil => exact absurd hlt (Nat.not_lt_zero _)
  | cons x xs ih =>
    rcases puts_cons_cases bs pages s p x xs with ⟨hpage, -, hout⟩ | ⟨s₁, b, m, -, hout⟩
    · rw [hout]
      exact hpage
    · rw [hout] at hlt ⊢
      rw [show p + ((puts bs pages (s₁.withData b m) (p + 1) xs).1 + 1) =
        p + 1 + (puts bs pages (s₁.withData b m) (p + 1) xs).1 by omega]
      exact ih (Nat.lt_of_succ_lt_succ hlt)

theorem index_succ (bs p : Nat) : (p + 1) / bs = p / bs ∨ (p + 1) / bs = p / bs + 1 := by
  rw [Nat.succ_div]
  split
  · exact Or.inr rfl
  · exact Or.inl rfl

theorem reached_cons {len : Nat} (hne : p / bs ≠ i) :
    (∃ q, p ≤ q ∧ q < p + (len + 1) ∧ q / bs = i) ↔
      ∃ q, p + 1 ≤ q ∧ q < p + 1 + len ∧ q / bs = i := by
  constructor
  · rintro ⟨q, hle, hlt, hq⟩
    have hqp : q ≠ p := fun heq => hne (heq ▸ hq)
    exact ⟨q, by omega, by omega, hq⟩
  · rintro ⟨q, hle, hlt, hq⟩
    exact ⟨q, by omega, by omega, hq⟩

/--
The pages of a run, told from the store before it: an index without a page that the run
reaches gets the free page with as many free ones below it as the run meets indices without
a page before, if there is that page.
-/
theorem Roomy.page_puts (h : Roomy pages s) (hpage : s.page i = 0) (xs : List β) (b : Nat) :
    (puts bs pages s p xs).2.page i = b ∧ b ≠ 0 ↔
      (∃ q, p ≤ q ∧ q < p + xs.length ∧ q / bs = i) ∧ b = s.fresh (s.holes (p / bs) i) ∧
        b ∈ pages := by
  induction xs generalizing s p with
  | nil =>
    constructor
    · rintro ⟨rfl, hne⟩
      exact absurd hpage hne
    · rintro ⟨⟨q, hle, hlt, -⟩, -⟩
      exact absurd hle (Nat.not_le.mpr hlt)
  | cons x xs ih =>
    rw [List.length_cons]
    rcases puts_cons_cases bs pages s p x xs with
      ⟨-, hfull, hout⟩ | ⟨s₁, c, m, ⟨hne, rfl⟩ | ⟨hzero, hroom, rfl⟩, hout⟩
    · rw [hout]
      constructor
      · rintro ⟨rfl, hne⟩
        exact absurd hpage hne
      · rintro ⟨-, rfl, hmem⟩
        exact absurd hmem (h.fresh_not_mem hfull _)
    · rw [hout, reached_cons (fun heq => hne (heq ▸ hpage))]
      refine (ih (h.withData c m) hpage).trans ?_
      refine and_congr_right ?_
      rintro ⟨q, hle, -, rfl⟩
      have hholes : s₁.holes ((p + 1) / bs) (q / bs) = s₁.holes (p / bs) (q / bs) := by
        have hle' := Nat.div_le_div_right (c := bs) hle
        rcases index_succ bs p with hidx | hidx
        · rw [hidx]
        · rw [hidx, holes_succ (show p / bs < q / bs by omega), if_neg hne]
          rfl
      exact hholes ▸ Iff.rfl
    · rw [hout]
      by_cases hi : p / bs = i
      · -- the page is taken for this index
        subst hi
        have hnew : (s.taken (p / bs)).page (p / bs) = s.fresh 0 := update_self _ _ _
        have hmem := h.fresh_zero_mem hroom
        have hne : s.fresh 0 ≠ 0 := fun heq => h.fresh_free 0 (heq.symm ▸ h.zero)
        have hkept : (puts bs pages ((s.taken (p / bs)).withData c m) (p + 1) xs).2.page (p / bs) =
            s.fresh 0 :=
          (page_puts_of_ne (hnew.symm ▸ hne) xs).trans hnew
        rw [hkept, show s.holes (p / bs) (p / bs) = 0 by simp [holes]]
        constructor
        · rintro ⟨rfl, -⟩
          exact ⟨⟨p, le_refl p, by omega, rfl⟩, rfl, hmem⟩
        · rintro ⟨-, rfl, -⟩
          exact ⟨rfl, hne⟩
      · have hpage' : (s.taken (p / bs)).page i = 0 := (update_of_ne (Ne.symm hi) _ _).trans hpage
        rw [reached_cons hi]
        refine (ih ((h.taken (p / bs)).withData c m) hpage').trans ?_
        refine and_congr_right ?_
        rintro ⟨q, hle, -, rfl⟩
        have hfresh : (s.taken (p / bs)).fresh ((s.taken (p / bs)).holes ((p + 1) / bs) (q / bs)) =
            s.fresh (s.holes (p / bs) (q / bs)) := by
          have hlt : p / bs < q / bs :=
            lt_of_le_of_ne (Nat.div_le_div_right (Nat.le_of_succ_le hle)) hi
          have hholes : (s.taken (p / bs)).holes ((p + 1) / bs) (q / bs) =
              s.holes (p / bs + 1) (q / bs) := by
            have hnext := holes_taken (s := s) (Nat.lt_succ_self (p / bs)) (q / bs)
            rcases index_succ bs p with hidx | hidx
            · rw [hidx, holes_succ hlt, hnext, if_neg, Nat.add_zero]
              change update s.page (p / bs) (s.fresh 0) (p / bs) ≠ 0
              rw [update_self]
              exact fun heq => h.fresh_free 0 (heq.symm ▸ h.zero)
            · rw [hidx, hnext]
          rw [hholes, h.fresh_taken, holes_succ hlt, if_pos hzero]
        exact hfresh ▸ Iff.rfl

end Store

end Paged
end Homunculos
