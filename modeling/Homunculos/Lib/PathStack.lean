import Homunculos.Lib.Parts
import Mathlib.Data.List.DropRight

/-!
# Lexical normalization of paths

The parts of a path are worked off from left to right on a stack: one part stands for
the place itself, one for the way up.  The second form works on the text alone and
keeps no stack: going up, it cuts the text back to the separator in front of the last
part.  The separator stays, so a text that ends with a way up may end with it.
-/

namespace Homunculos
namespace PathStack

open Parts

variable {α : Type}

/-- The parts, and whether the text behind them ends with a separator. -/
structure Stack (α : Type) where
  comps : List (List α)
  trail : Bool

/-- No part yet. -/
def Stack.empty : Stack α := ⟨[], false⟩

/-- The text of a stack; it starts with a separator. -/
def Stack.text (sep : α) (s : Stack α) : List α :=
  sep :: (joined sep s.comps ++ if s.trail = true ∧ s.comps ≠ [] then [sep] else [])

/-- One part is worked off. -/
def step [DecidableEq α] (here up : List α) (s : Stack α) (c : List α) : Stack α :=
  if c = here then s
  else if c = up then
    if s.comps = [] then s else ⟨s.comps.dropLast, true⟩
  else ⟨s.comps ++ [c], false⟩

/-- One part is worked off in the text. -/
def textStep [DecidableEq α] (sep : α) (here up : List α) (acc c : List α) : List α :=
  if c = here then acc
  else if c = up then
    if 1 < acc.length then acc.dropLast.rdropWhile (fun x => x ≠ sep) else acc
  else (if acc.getLast? = some sep then acc else acc ++ [sep]) ++ c

/-- A part as it stands in a path. -/
def Plain (sep : α) (c : List α) : Prop :=
  c ≠ [] ∧ sep ∉ c

section Texts

variable {sep : α} {here up c : List α} {s : Stack α}

theorem text_nil (trail : Bool) :
    (⟨[], trail⟩ : Stack α).text sep = [sep] := by
  simp [Stack.text, joined]

theorem text_trail {comps : List (List α)} (hne : comps ≠ []) :
    (⟨comps, true⟩ : Stack α).text sep = (⟨comps, false⟩ : Stack α).text sep ++ [sep] := by
  simp [Stack.text, hne]

theorem text_snoc (first : List (List α)) (c : List α) (trail : Bool) :
    (⟨first ++ [c], trail⟩ : Stack α).text sep =
      (⟨first, true⟩ : Stack α).text sep ++ (c ++ if trail = true then [sep] else []) := by
  by_cases hnil : first = []
  · subst hnil
    simp [Stack.text, joined]
  · rw [text_trail hnil]
    simp [Stack.text, joined_snoc hnil]

theorem getLast_text_up (comps : List (List α)) :
    ((⟨comps, true⟩ : Stack α).text sep).getLast? = some sep := by
  by_cases hnil : comps = []
  · rw [hnil]
    rfl
  · rw [text_trail hnil, List.getLast?_append]
    rfl

theorem getLast_text_part
    {comps : List (List α)} (hplain : ∀ x ∈ comps, Plain sep x) (hne : comps ≠ []) :
    ((⟨comps, false⟩ : Stack α).text sep).getLast? ≠ some sep := by
  obtain ⟨first, last, rfl⟩ : ∃ first last, comps = first ++ [last] :=
    ⟨comps.dropLast, comps.getLast hne, (List.dropLast_append_getLast hne).symm⟩
  obtain ⟨hlast, hsep⟩ := hplain last (List.mem_append_right _ List.mem_cons_self)
  obtain ⟨pre, x, rfl⟩ : ∃ pre x, last = pre ++ [x] :=
    ⟨last.dropLast, last.getLast hlast, (List.dropLast_append_getLast hlast).symm⟩
  rw [text_snoc]
  intro heq
  have hx : x = sep := by simpa using heq
  exact hsep (hx ▸ List.mem_append_right _ List.mem_cons_self)

theorem text_settled_iff (comps : List (List α)) (trail : Bool) :
    (⟨comps, false⟩ : Stack α).text sep = (⟨comps, trail⟩ : Stack α).text sep ↔
      comps = [] ∨ trail = false := by
  by_cases hnil : comps = []
  · subst hnil
    rw [text_nil, text_nil]
    exact iff_of_true rfl (Or.inl rfl)
  cases trail with
  | true =>
    refine iff_of_false ?_ (by simp [hnil])
    rw [text_trail hnil]
    simp
  | false => exact iff_of_true rfl (Or.inr rfl)

variable [DecidableEq α]

theorem rdropWhile_part {acc part : List α} (hacc : acc.getLast? = some sep) (hsep : sep ∉ part) :
    (acc ++ part).rdropWhile (fun x => x ≠ sep) = acc := by
  induction part using List.reverseRecOn with
  | nil =>
    rw [List.append_nil]
    obtain ⟨pre, rfl⟩ := List.getLast?_eq_some_iff.mp hacc
    rw [List.rdropWhile_concat_neg _ _ _ (by simp)]
  | append_singleton part x ih =>
    rw [List.mem_append, List.mem_singleton, not_or] at hsep
    rw [← List.append_assoc, List.rdropWhile_concat_pos _ _ _ (by simpa using Ne.symm hsep.2)]
    exact ih hsep.1

theorem cut_back (first : List (List α)) (hc : Plain sep c) (trail : Bool) :
    ((⟨first ++ [c], trail⟩ : Stack α).text sep).dropLast.rdropWhile (fun x => x ≠ sep) =
      (⟨first, true⟩ : Stack α).text sep := by
  rw [text_snoc]
  cases trail with
  | true =>
    rw [if_pos rfl, ← List.append_assoc, List.dropLast_concat]
    exact rdropWhile_part (getLast_text_up first) hc.2
  | false =>
    rw [if_neg (by decide), List.append_nil, List.dropLast_append_of_ne_nil hc.1]
    exact rdropWhile_part (getLast_text_up first) (fun hmem => hc.2 (List.dropLast_subset _ hmem))

theorem text_step (hplain : ∀ x ∈ s.comps, Plain sep x) (c : List α) :
    (step here up s c).text sep = textStep sep here up (s.text sep) c := by
  unfold step textStep
  obtain ⟨comps, trail⟩ := s
  by_cases hhere : c = here
  · rw [if_pos hhere, if_pos hhere]
  rw [if_neg hhere, if_neg hhere]
  by_cases hup : c = up
  · rw [if_pos hup, if_pos hup]
    by_cases hnil : comps = []
    · subst hnil
      rw [if_pos rfl, text_nil, if_neg (by simp)]
    · obtain ⟨first, last, rfl⟩ : ∃ first last, comps = first ++ [last] :=
        ⟨comps.dropLast, comps.getLast hnil, (List.dropLast_append_getLast hnil).symm⟩
      have hlast := hplain last (List.mem_append_right _ List.mem_cons_self)
      have hlength : 1 < ((⟨first ++ [last], trail⟩ : Stack α).text sep).length := by
        have hpos := List.length_pos_of_ne_nil hlast.1
        rw [text_snoc, List.length_append, List.length_append, Stack.text, List.length_cons]
        omega
      rw [if_pos hlength, cut_back first hlast]
      simp
  · rw [if_neg hup, if_neg hup, text_snoc, if_neg (by decide), List.append_nil]
    congr 1
    by_cases hnil : comps = []
    · subst hnil
      rw [text_nil, text_nil, if_pos List.getLast?_singleton]
    · cases trail with
      | true => rw [if_pos (getLast_text_up comps)]
      | false => rw [if_neg (getLast_text_part hplain hnil), text_trail hnil]

end Texts

theorem flatten_dropLast_le (l : List (List α)) :
    l.dropLast.flatten.length ≤ l.flatten.length := by
  induction l using List.reverseRecOn with
  | nil => exact Nat.le_refl _
  | append_singleton l c _ =>
    rw [List.dropLast_concat, List.flatten_append, List.length_append]
    omega

section Runs

variable [DecidableEq α] {sep : α} {here up : List α} {s : Stack α} {cs : List (List α)}

/-- A part that is put on the stack. -/
def Proper (here up c : List α) : Prop :=
  c ≠ here ∧ c ≠ up

theorem step_mem {c x : List α} (hx : x ∈ (step here up s c).comps) :
    x ∈ s.comps ∨ x = c ∧ Proper here up c := by
  unfold step at hx
  split at hx
  · exact Or.inl hx
  next hhere =>
    split at hx
    · split at hx
      · exact Or.inl hx
      · exact Or.inl (List.dropLast_subset _ hx)
    next hup =>
      rcases List.mem_append.mp hx with hold | hnew
      · exact Or.inl hold
      · exact Or.inr ⟨List.mem_singleton.mp hnew, hhere, hup⟩

theorem run_mem {x : List α} (hx : x ∈ (cs.foldl (step here up) s).comps) :
    x ∈ s.comps ∨ x ∈ cs ∧ Proper here up x := by
  induction cs generalizing s with
  | nil => exact Or.inl hx
  | cons c cs ih =>
    rcases ih hx with hold | ⟨hmem, hproper⟩
    · rcases step_mem hold with hs | ⟨rfl, hproper⟩
      · exact Or.inl hs
      · exact Or.inr ⟨List.mem_cons_self, hproper⟩
    · exact Or.inr ⟨List.mem_cons_of_mem _ hmem, hproper⟩

theorem text_run (hs : ∀ x ∈ s.comps, Plain sep x) (hcs : ∀ x ∈ cs, Plain sep x) :
    (cs.foldl (step here up) s).text sep = cs.foldl (textStep sep here up) (s.text sep) := by
  induction cs generalizing s with
  | nil => rfl
  | cons c cs ih =>
    have hstep : ∀ x ∈ (step here up s c).comps, Plain sep x := by
      intro x hx
      rcases step_mem hx with hold | ⟨rfl, -⟩
      · exact hs x hold
      · exact hcs x List.mem_cons_self
    rw [List.foldl_cons, List.foldl_cons, ← text_step hs]
    exact ih hstep (fun x hx => hcs x (List.mem_cons_of_mem _ hx))

theorem run_proper (hcs : ∀ x ∈ cs, Proper here up x) :
    cs.foldl (step here up) s = if cs = [] then s else ⟨s.comps ++ cs, false⟩ := by
  induction cs generalizing s with
  | nil => rfl
  | cons c cs ih =>
    obtain ⟨hhere, hup⟩ := hcs c List.mem_cons_self
    have hstep : step here up s c = ⟨s.comps ++ [c], false⟩ := by
      rw [step, if_neg hhere, if_neg hup]
    rw [List.foldl_cons, ih (fun x hx => hcs x (List.mem_cons_of_mem _ hx)), hstep,
      if_neg (List.cons_ne_nil _ _)]
    by_cases hnil : cs = []
    · rw [if_pos hnil, hnil]
    · rw [if_neg hnil, List.append_assoc, List.singleton_append]

theorem length_step (hhere : here ≠ []) (hup : up ≠ []) (s : Stack α) (c : List α) :
    (step here up s c).comps.flatten.length < s.comps.flatten.length + c.length ∨
      Proper here up c ∧
        (step here up s c).comps.flatten.length = s.comps.flatten.length + c.length := by
  unfold step
  by_cases hc : c = here
  · have hpos := List.length_pos_of_ne_nil hhere
    rw [if_pos hc, hc]
    left
    omega
  rw [if_neg hc]
  by_cases hc' : c = up
  · have hpos := List.length_pos_of_ne_nil hup
    have hle := flatten_dropLast_le s.comps
    rw [if_pos hc', hc']
    left
    split
    · omega
    · dsimp only
      omega
  · rw [if_neg hc']
    right
    refine ⟨⟨hc, hc'⟩, ?_⟩
    simp

theorem length_run_le (hhere : here ≠ []) (hup : up ≠ []) (s : Stack α) (cs : List (List α)) :
    (cs.foldl (step here up) s).comps.flatten.length ≤
      s.comps.flatten.length + cs.flatten.length := by
  induction cs generalizing s with
  | nil => exact Nat.le_refl _
  | cons c cs ih =>
    have hrest := ih (step here up s c)
    rw [List.foldl_cons, List.flatten_cons, List.length_append]
    rcases length_step hhere hup s c with hlt | ⟨-, heq⟩
    · omega
    · omega

theorem proper_of_length (hhere : here ≠ []) (hup : up ≠ [])
    (h : s.comps.flatten.length + cs.flatten.length ≤
      (cs.foldl (step here up) s).comps.flatten.length) :
    ∀ x ∈ cs, Proper here up x := by
  induction cs generalizing s with
  | nil => exact fun x hx => absurd hx List.not_mem_nil
  | cons c cs ih =>
    rw [List.foldl_cons, List.flatten_cons, List.length_append] at h
    have hrest := length_run_le hhere hup (step here up s c) cs
    rcases length_step hhere hup s c with hlt | ⟨hproper, heq⟩
    · omega
    · intro x hx
      rcases List.mem_cons.mp hx with rfl | hmem
      · exact hproper
      · have hle : (step here up s c).comps.flatten.length + cs.flatten.length ≤
            (cs.foldl (step here up) (step here up s c)).comps.flatten.length := by
          omega
        exact ih hle x hmem

theorem trail_run (cs : List (List α)) (hcomps : (cs.foldl (step here up) Stack.empty).comps ≠ []) :
    (cs.foldl (step here up) Stack.empty).trail = true ↔
      (cs.filter (fun c => c ≠ here)).getLast? = some up := by
  induction cs using List.reverseRecOn with
  | nil => exact absurd rfl hcomps
  | append_singleton cs c ih =>
    rw [List.foldl_append, List.foldl_cons] at hcomps ⊢
    rw [List.filter_append]
    by_cases hc : c = here
    · rw [step, if_pos hc] at hcomps ⊢
      have hfilter : [c].filter (fun c => c ≠ here) = [] := by simp [hc]
      rw [hfilter, List.append_nil]
      exact ih hcomps
    rw [step, if_neg hc] at hcomps ⊢
    have hfilter : [c].filter (fun c => c ≠ here) = [c] := by simp [hc]
    rw [hfilter, List.getLast?_concat, Option.some_inj]
    by_cases hc' : c = up
    · rw [if_pos hc'] at hcomps ⊢
      split at hcomps
      next hnil =>
        exact absurd hnil hcomps
      next hnil =>
        rw [if_neg hnil]
        exact iff_of_true rfl hc'
    · rw [if_neg hc']
      exact iff_of_false Bool.false_ne_true hc'

end Runs

theorem joined_eq_intercalate (sep : α) (l : List (List α)) :
    joined sep l = [sep].intercalate l := by
  induction l with
  | nil => rfl
  | cons c l ih =>
    cases l with
    | nil => simp [joined]
    | cons next l =>
      rw [joined, ih]
      simp

section Canonical

variable [DecidableEq α] {sep : α} {here up : List α} {s : Stack α}

/--
A canonical path: it starts with the separator, and if there is more, it does not end
with one and no component is empty, the place itself or the way up.
-/
def Canonical (sep : α) (here up t : List α) : Prop :=
  t.head? = some sep ∧
    (t = [sep] ∨ t.getLast? ≠ some sep ∧ ∀ c ∈ t.tail.splitOn sep, c ≠ [] ∧ Proper here up c)

theorem splitOn_joined {l : List (List α)} (hne : l ≠ []) (h : ∀ c ∈ l, Plain sep c) :
    (joined sep l).splitOn sep = l := by
  rw [joined_eq_intercalate]
  exact List.splitOn_intercalate sep (fun c hc => (h c hc).2) hne

theorem splitOn_plain {t c : List α} (hc : c ∈ t.splitOn sep) :
    sep ∉ c := by
  have hgo : ∀ (t acc : List α), sep ∉ acc →
      ∀ c ∈ List.splitOnPPrepend (fun x => x == sep) t acc, sep ∉ c := by
    intro t
    induction t with
    | nil =>
      intro acc hacc c hc
      rw [List.splitOnPPrepend_nil, List.mem_singleton] at hc
      rw [hc, List.mem_reverse]
      exact hacc
    | cons x t ih =>
      intro acc hacc c hc
      by_cases hx : x = sep
      · rw [List.splitOnPPrepend_cons_pos (by simp [hx]), List.mem_cons] at hc
        rcases hc with rfl | hrest
        · rw [List.mem_reverse]
          exact hacc
        · exact ih [] List.not_mem_nil c hrest
      · rw [List.splitOnPPrepend_cons_neg (by simp [hx])] at hc
        refine ih (x :: acc) ?_ c hc
        rw [List.mem_cons, not_or]
        exact ⟨Ne.symm hx, hacc⟩
  exact hgo t [] List.not_mem_nil c hc

theorem parts_text (hplain : ∀ c ∈ s.comps, Plain sep c) :
    parts sep (s.text sep) = s.comps := by
  unfold Stack.text
  rw [parts_sep_cons]
  split
  · rw [parts_snoc_sep, parts_joined hplain]
  · rw [List.append_nil, parts_joined hplain]

theorem text_eq_sep_iff (hplain : ∀ c ∈ s.comps, Plain sep c) :
    s.text sep = [sep] ↔ s.comps = [] := by
  obtain ⟨comps, trail⟩ := s
  constructor
  · intro htext
    have hparts : parts sep ((⟨comps, trail⟩ : Stack α).text sep) = comps := parts_text hplain
    rw [htext] at hparts
    rw [← hparts]
    exact parts_eq_nil.mpr (by simp)
  · rintro rfl
    exact text_nil trail

/-- The text of a stack is canonical unless it ends with a separator that was left. -/
theorem canonical_text_iff (hcomps : ∀ c ∈ s.comps, Plain sep c ∧ Proper here up c) :
    Canonical sep here up (s.text sep) ↔ s.comps = [] ∨ s.trail = false := by
  obtain ⟨comps, trail⟩ := s
  by_cases hnil : comps = []
  · subst hnil
    rw [text_nil]
    exact iff_of_true ⟨rfl, Or.inl rfl⟩ (Or.inl rfl)
  cases trail with
  | true =>
    refine iff_of_false ?_ (by simp [hnil])
    rintro ⟨-, hone | ⟨hlast, -⟩⟩
    · rw [text_trail hnil] at hone
      simp [Stack.text] at hone
    · exact hlast (getLast_text_up comps)
  | false =>
    refine iff_of_true ⟨rfl, Or.inr ⟨?_, ?_⟩⟩ (Or.inr rfl)
    · exact getLast_text_part (fun c hc => (hcomps c hc).1) hnil
    · intro c hc
      have htail : ((⟨comps, false⟩ : Stack α).text sep).tail = joined sep comps := by
        simp [Stack.text]
      rw [htail, splitOn_joined hnil (fun c hc => (hcomps c hc).1)] at hc
      exact ⟨(hcomps c hc).1.1, (hcomps c hc).2⟩

theorem Canonical.exists_text {t : List α} (h : Canonical sep here up t) :
    ∃ comps : List (List α), (∀ c ∈ comps, Plain sep c ∧ Proper here up c) ∧
      t = (⟨comps, false⟩ : Stack α).text sep := by
  obtain ⟨hhead, rfl | ⟨-, hcomps⟩⟩ := h
  · exact ⟨[], by simp, (text_nil false).symm⟩
  · refine ⟨t.tail.splitOn sep, fun c hc => ⟨⟨(hcomps c hc).1, splitOn_plain hc⟩, (hcomps c hc).2⟩,
      ?_⟩
    rw [Stack.text, joined_eq_intercalate, List.intercalate_splitOn, if_neg (by simp),
      List.append_nil]
    exact (List.cons_head?_tail hhead).symm

end Canonical

end PathStack
end Homunculos
