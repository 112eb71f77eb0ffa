import Mathlib.Data.List.Basic

/-!
# Texts with a separator

A path is a list of parts that are joined by a separator.  The lemmas say what a
reader of the text sees: the next part with a limit on its length, the last
separator, and the parts that are not empty.
-/

namespace Homunculos
namespace Parts

variable {α : Type} (sep : α)

/-- The parts one after the other, with a separator between two of them. -/
def joined : List (List α) → List α
  | [] => []
  | [part] => part
  | part :: next :: parts => part ++ sep :: joined (next :: parts)

/-- What follows a part in a joined text. -/
def tail : List (List α) → List α
  | [] => []
  | part :: rest => sep :: joined sep (part :: rest)

/-- A part that a reader with limit `n` takes as a whole. -/
def IsPart (n : Nat) (part : List α) : Prop :=
  part ≠ [] ∧ part.length ≤ n ∧ sep ∉ part

section Joining

variable {sep} {part : List α} {rest : List (List α)}

theorem joined_cons (part : List α) (rest : List (List α)) :
    joined sep (part :: rest) = part ++ tail sep rest := by
  cases rest with
  | nil => simp [joined, tail]
  | cons next rest => rfl

theorem tail_cases (rest : List (List α)) :
    tail sep rest = [] ∨ ∃ more, tail sep rest = sep :: more := by
  cases rest with
  | nil => exact Or.inl rfl
  | cons next rest => exact Or.inr ⟨_, rfl⟩

theorem length_tail_lt (hne : part ≠ []) :
    (tail sep rest).length < (joined sep (part :: rest)).length := by
  have hpos := List.length_pos_of_ne_nil hne
  rw [joined_cons, List.length_append]
  omega

theorem length_joined_le_tail (rest : List (List α)) :
    (joined sep rest).length ≤ (tail sep rest).length := by
  cases rest with
  | nil => exact Nat.le_refl _
  | cons next rest =>
    rw [tail, List.length_cons]
    omega

theorem joined_snoc {first : List (List α)} (hne : first ≠ []) (part : List α) :
    joined sep (first ++ [part]) = joined sep first ++ sep :: part := by
  induction first with
  | nil => exact absurd rfl hne
  | cons head first ih =>
    cases first with
    | nil => rfl
    | cons next first =>
      change head ++ sep :: joined sep ((next :: first) ++ [part]) = _
      rw [ih (List.cons_ne_nil _ _)]
      simp [joined]

end Joining

section Reading

variable [DecidableEq α]

/-- At most `n` symbols up to the next separator, and what is left. -/
def nextPart : Nat → List α → List α × List α
  | 0, text => ([], text)
  | _ + 1, [] => ([], [])
  | n + 1, c :: text =>
    if c = sep then
      ([], c :: text)
    else
      (c :: (nextPart n text).1, (nextPart n text).2)

/-- One separator at the front is skipped. -/
def skipSep : List α → List α
  | [] => []
  | c :: text => if c = sep then text else c :: text

/-- The last separator from a position on, or the one found so far. -/
def lastSepFrom : Nat → Option Nat → List α → Option Nat
  | _, last, [] => last
  | i, last, c :: text => lastSepFrom (i + 1) (if c = sep then some i else last) text

/-- The parts that are not empty, `part` being what has been read of the first one. -/
def partsFrom : List α → List α → List (List α)
  | part, [] => if part = [] then [] else [part]
  | part, c :: text =>
    if c = sep then
      if part = [] then partsFrom [] text else part :: partsFrom [] text
    else
      partsFrom (part ++ [c]) text

/-- The parts of a text, empty ones left out. -/
def parts (text : List α) : List (List α) :=
  partsFrom sep [] text

variable {sep} {n : Nat} {part text : List α} {rest : List (List α)}

theorem nextPart_append
    (hlen : part.length ≤ n) (hsep : sep ∉ part) (htext : text = [] ∨ ∃ more, text = sep :: more) :
    nextPart sep n (part ++ text) = (part, text) := by
  induction part generalizing n with
  | nil =>
    cases n with
    | zero => rfl
    | succ n =>
      rcases htext with rfl | ⟨more, rfl⟩
      · rfl
      · simp [nextPart]
  | cons c part ih =>
    obtain ⟨m, rfl⟩ : ∃ m, n = m + 1 := ⟨n - 1, by rw [List.length_cons] at hlen; omega⟩
    rw [List.mem_cons, not_or] at hsep
    rw [List.length_cons] at hlen
    rw [List.cons_append, nextPart, if_neg (Ne.symm hsep.1), ih (by omega) hsep.2]

theorem nextPart_joined (h : IsPart sep n part) :
    nextPart sep n (joined sep (part :: rest)) = (part, tail sep rest) := by
  rw [joined_cons]
  exact nextPart_append h.2.1 h.2.2 (tail_cases rest)

theorem skipSep_tail (rest : List (List α)) :
    skipSep sep (tail sep rest) = joined sep rest := by
  cases rest with
  | nil => rfl
  | cons next rest => rw [tail, skipSep, if_pos rfl]

theorem skipSep_joined (h : ∀ part ∈ rest, IsPart sep n part) :
    skipSep sep (joined sep rest) = joined sep rest := by
  cases rest with
  | nil => rfl
  | cons part rest =>
    obtain ⟨hne, -, hsep⟩ := h part List.mem_cons_self
    rw [joined_cons]
    cases part with
    | nil => exact absurd rfl hne
    | cons c part =>
      rw [List.mem_cons, not_or] at hsep
      rw [List.cons_append, skipSep, if_neg (Ne.symm hsep.1)]

theorem lastSepFrom_append (i : Nat) (last : Option Nat) (text more : List α) :
    lastSepFrom sep i last (text ++ more) =
      lastSepFrom sep (i + text.length) (lastSepFrom sep i last text) more := by
  induction text generalizing i last with
  | nil => rfl
  | cons c text ih =>
    rw [List.cons_append, lastSepFrom, ih, List.length_cons]
    congr 1
    omega

theorem lastSepFrom_of_notMem (i : Nat) (last : Option Nat) (hsep : sep ∉ text) :
    lastSepFrom sep i last text = last := by
  induction text generalizing i with
  | nil => rfl
  | cons c text ih =>
    rw [List.mem_cons, not_or] at hsep
    rw [lastSepFrom, if_neg (Ne.symm hsep.1)]
    exact ih (i + 1) hsep.2

theorem lastSep_snoc {first : List (List α)} (hne : first ≠ []) (hsep : sep ∉ part) :
    lastSepFrom sep 0 none (joined sep (first ++ [part])) = some (joined sep first).length := by
  rw [joined_snoc hne, lastSepFrom_append, lastSepFrom, if_pos rfl,
    lastSepFrom_of_notMem _ _ hsep, Nat.zero_add]

theorem partsFrom_eq_nil (part text : List α) :
    partsFrom sep part text = [] ↔ part = [] ∧ ∀ c ∈ text, c = sep := by
  induction text generalizing part with
  | nil =>
    by_cases hpart : part = []
    · simp [partsFrom]
    · simp [partsFrom]
  | cons c text ih =>
    rw [partsFrom]
    by_cases hc : c = sep
    · by_cases hpart : part = []
      · simp [hc, hpart, ih]
      · simp [hc, hpart]
    · simp [hc, ih]

theorem parts_eq_nil :
    parts sep text = [] ↔ ∀ c ∈ text, c = sep := by
  unfold parts
  rw [partsFrom_eq_nil]
  simp

theorem partsFrom_append {more : List α} (hsep : sep ∉ more) :
    partsFrom sep part (more ++ text) = partsFrom sep (part ++ more) text := by
  induction more generalizing part with
  | nil => rw [List.nil_append, List.append_nil]
  | cons c more ih =>
    rw [List.mem_cons, not_or] at hsep
    rw [List.cons_append, partsFrom, if_neg (Ne.symm hsep.1), ih hsep.2, List.append_assoc]
    rfl

theorem parts_sep_cons (text : List α) :
    parts sep (sep :: text) = parts sep text := by
  unfold parts
  rw [partsFrom, if_pos rfl, if_pos rfl]

theorem parts_seps_append {seps : List α} (hseps : ∀ c ∈ seps, c = sep) (text : List α) :
    parts sep (seps ++ text) = parts sep text := by
  induction seps with
  | nil => rfl
  | cons c seps ih =>
    rw [hseps c List.mem_cons_self, List.cons_append, parts_sep_cons]
    exact ih (fun c hc => hseps c (List.mem_cons_of_mem _ hc))

theorem parts_append
    (hne : part ≠ []) (hsep : sep ∉ part) (htext : text = [] ∨ ∃ more, text = sep :: more) :
    parts sep (part ++ text) = part :: parts sep text := by
  unfold parts
  rw [partsFrom_append hsep, List.nil_append]
  rcases htext with rfl | ⟨more, rfl⟩
  · rw [partsFrom, if_neg hne]
    rfl
  · rw [partsFrom, if_pos rfl, if_neg hne, partsFrom, if_pos rfl, if_pos rfl]

theorem partsFrom_snoc_sep (part text : List α) :
    partsFrom sep part (text ++ [sep]) = partsFrom sep part text := by
  induction text generalizing part with
  | nil =>
    by_cases hpart : part = []
    · simp [partsFrom]
    · simp [partsFrom]
  | cons c text ih =>
    rw [List.cons_append, partsFrom, partsFrom]
    rw [ih, ih]

theorem parts_snoc_sep (text : List α) :
    parts sep (text ++ [sep]) = parts sep text :=
  partsFrom_snoc_sep [] text

theorem parts_joined (h : ∀ part ∈ rest, part ≠ [] ∧ sep ∉ part) :
    parts sep (joined sep rest) = rest := by
  induction rest with
  | nil => rfl
  | cons part rest ih =>
    obtain ⟨hne, hsep⟩ := h part List.mem_cons_self
    rw [joined_cons, parts_append hne hsep (tail_cases rest)]
    congr 1
    cases rest with
    | nil => rfl
    | cons next rest =>
      rw [tail, parts_sep_cons]
      exact ih (fun part hmem => h part (List.mem_cons_of_mem _ hmem))

theorem mem_partsFrom {x : List α} (hsep : sep ∉ part) (hx : x ∈ partsFrom sep part text) :
    x ≠ [] ∧ sep ∉ x := by
  induction text generalizing part with
  | nil =>
    rw [partsFrom] at hx
    split at hx
    · exact absurd hx List.not_mem_nil
    next hne =>
      rw [List.mem_singleton] at hx
      rw [hx]
      exact ⟨hne, hsep⟩
  | cons c text ih =>
    rw [partsFrom] at hx
    split at hx
    · split at hx
      · exact ih List.not_mem_nil hx
      next hne =>
        rcases List.mem_cons.mp hx with rfl | hrest
        · exact ⟨hne, hsep⟩
        · exact ih List.not_mem_nil hrest
    next hc =>
      refine ih ?_ hx
      rw [List.mem_append, List.mem_singleton, not_or]
      exact ⟨hsep, Ne.symm hc⟩

theorem mem_of_mem_partsFrom {c : List α} {x : α} (hc : c ∈ partsFrom sep part text) (hx : x ∈ c) :
    x ∈ part ∨ x ∈ text := by
  induction text generalizing part with
  | nil =>
    rw [partsFrom] at hc
    split at hc
    · exact absurd hc List.not_mem_nil
    · rw [List.mem_singleton] at hc
      exact Or.inl (hc ▸ hx)
  | cons b text ih =>
    rw [partsFrom] at hc
    split at hc
    · split at hc
      · exact Or.inr (List.mem_cons_of_mem _ ((ih hc).resolve_left List.not_mem_nil))
      · rcases List.mem_cons.mp hc with rfl | hrest
        · exact Or.inl hx
        · exact Or.inr (List.mem_cons_of_mem _ ((ih hrest).resolve_left List.not_mem_nil))
    · rcases ih hc with hpart | htext
      · rcases List.mem_append.mp hpart with hold | hnew
        · exact Or.inl hold
        · exact Or.inr (List.mem_singleton.mp hnew ▸ List.mem_cons_self)
      · exact Or.inr (List.mem_cons_of_mem _ htext)

theorem mem_of_mem_parts {c : List α} {x : α} (hc : c ∈ parts sep text) (hx : x ∈ c) :
    x ∈ text :=
  (mem_of_mem_partsFrom hc hx).resolve_left List.not_mem_nil

theorem mem_parts {x : List α} (hx : x ∈ parts sep text) :
    x ≠ [] ∧ sep ∉ x :=
  mem_partsFrom List.not_mem_nil hx

theorem flatten_partsFrom (part text : List α) :
    (partsFrom sep part text).flatten = part ++ text.filter (fun x => x ≠ sep) := by
  induction text generalizing part with
  | nil =>
    rw [partsFrom]
    split
    next hnil =>
      rw [hnil]
      rfl
    · simp
  | cons c text ih =>
    rw [partsFrom]
    by_cases hc : c = sep
    · by_cases hpart : part = []
      · simp [hc, hpart, ih]
      · simp [hc, hpart, ih]
    · simp [hc, ih]

theorem flatten_parts (text : List α) :
    (parts sep text).flatten = text.filter (fun x => x ≠ sep) :=
  flatten_partsFrom [] text

/-- The reader takes what is in front, and stops at a separator, at the end or at its
limit. -/
theorem nextPart_spec (sep : α) (n : Nat) (text : List α) :
    (nextPart sep n text).1 ++ (nextPart sep n text).2 = text ∧ sep ∉ (nextPart sep n text).1 := by
  induction n generalizing text with
  | zero => exact ⟨rfl, List.not_mem_nil⟩
  | succ n ih =>
    cases text with
    | nil => exact ⟨rfl, List.not_mem_nil⟩
    | cons c text =>
      rw [nextPart]
      by_cases hc : c = sep
      · rw [if_pos hc]
        exact ⟨rfl, List.not_mem_nil⟩
      · obtain ⟨happ, hsep⟩ := ih text
        rw [if_neg hc]
        refine ⟨by rw [List.cons_append, happ], ?_⟩
        rw [List.mem_cons, not_or]
        exact ⟨Ne.symm hc, hsep⟩

theorem nextPart_take (hsep : sep ∉ part) (htext : text = [] ∨ ∃ more, text = sep :: more) :
    nextPart sep n (part ++ text) = (part.take n, part.drop n ++ text) := by
  induction part generalizing n with
  | nil =>
    rw [List.take_nil, List.drop_nil]
    exact nextPart_append (Nat.zero_le n) hsep htext
  | cons c part ih =>
    cases n with
    | zero => rfl
    | succ n =>
      rw [List.mem_cons, not_or] at hsep
      rw [List.cons_append, nextPart, if_neg (Ne.symm hsep.1), ih hsep.2, List.take_succ_cons,
        List.drop_succ_cons]

theorem nextPart_snoc_sep (sep : α) (n : Nat) (text : List α) :
    nextPart sep n (text ++ [sep]) =
      ((nextPart sep n text).1, (nextPart sep n text).2 ++ [sep]) := by
  induction n generalizing text with
  | zero => rfl
  | succ n ih =>
    cases text with
    | nil => simp [nextPart]
    | cons c text =>
      rw [List.cons_append, nextPart, nextPart]
      by_cases hc : c = sep
      · rw [if_pos hc, if_pos hc]
        rfl
      · rw [if_neg hc, if_neg hc, ih]

end Reading

section Pieces

/-- What a reader with limit `m` takes one after the other, one separator skipped behind
each piece; it ends after as many rounds as symbols. -/
def pieces [DecidableEq α] (m : Nat) : Nat → List α → List (List α)
  | _, [] => []
  | 0, _ :: _ => []
  | n + 1, c :: text =>
    (nextPart sep m (c :: text)).1 :: pieces m n (skipSep sep (nextPart sep m (c :: text)).2)

/-- Parts with one separator between two of them, and perhaps one at the end. -/
def Tight (text : List α) : Prop :=
  ∃ cs last, (∀ c ∈ cs, c ≠ [] ∧ sep ∉ c) ∧ (last = [] ∨ last = [sep] ∧ cs ≠ []) ∧
    text = joined sep cs ++ last

variable {sep} {m n : Nat} {text : List α}

theorem Tight.nil :
    Tight sep [] :=
  ⟨[], [], by simp, Or.inl rfl, rfl⟩

theorem Tight.exists_cons (hne : text ≠ []) (h : Tight sep text) :
    ∃ c cs last, (∀ x ∈ c :: cs, x ≠ [] ∧ sep ∉ x) ∧ (last = [] ∨ last = [sep]) ∧
      text = c ++ (tail sep cs ++ last) := by
  obtain ⟨cs, last, hcs, hlast, rfl⟩ := h
  cases cs with
  | nil =>
    rcases hlast with rfl | ⟨-, hnil⟩
    · exact absurd rfl hne
    · exact absurd rfl hnil
  | cons c cs =>
    exact ⟨c, cs, last, hcs, hlast.imp id And.left, by rw [joined_cons, List.append_assoc]⟩

theorem Tight.of_cons
    {c : List α} {cs : List (List α)} {last : List α} (hcs : ∀ x ∈ c :: cs, x ≠ [] ∧ sep ∉ x)
    (hlast : last = [] ∨ last = [sep]) :
    Tight sep (c ++ (tail sep cs ++ last)) :=
  ⟨c :: cs, last, hcs, hlast.imp id (fun h => ⟨h, List.cons_ne_nil _ _⟩),
    by rw [joined_cons, List.append_assoc]⟩

theorem Tight.cons [DecidableEq α] {first rest : List α} (hne : first ≠ []) (hsep : sep ∉ first)
    (h : Tight sep (skipSep sep rest)) :
    Tight sep (first ++ rest) := by
  have hfirst : ∀ x ∈ [first], x ≠ [] ∧ sep ∉ x := List.forall_mem_singleton.mpr ⟨hne, hsep⟩
  cases rest with
  | nil => exact Tight.of_cons hfirst (Or.inl rfl)
  | cons b rest =>
    rw [skipSep] at h
    by_cases hb : b = sep
    · subst hb
      rw [if_pos rfl] at h
      obtain rfl | hnil := eq_or_ne rest []
      · exact Tight.of_cons hfirst (Or.inr rfl)
      · obtain ⟨c, cs, last, hcs, hlast, rfl⟩ := h.exists_cons hnil
        have htight := Tight.of_cons (List.forall_mem_cons.mpr ⟨⟨hne, hsep⟩, hcs⟩) hlast
        rw [tail, joined_cons] at htight
        simpa using htight
    · rw [if_neg hb] at h
      obtain ⟨c, cs, last, hcs, hlast, htext⟩ := h.exists_cons (List.cons_ne_nil _ _)
      obtain ⟨⟨-, hc⟩, hcs⟩ := List.forall_mem_cons.mp hcs
      rw [htext, ← List.append_assoc]
      exact Tight.of_cons (List.forall_mem_cons.mpr ⟨by simp [hne, hsep, hc], hcs⟩) hlast

variable [DecidableEq α]

theorem length_skipSep_le (sep : α) (text : List α) :
    (skipSep sep text).length ≤ text.length := by
  cases text with
  | nil => exact Nat.le_refl _
  | cons c text =>
    rw [skipSep, List.length_cons]
    split
    · omega
    · exact Nat.le_refl _

theorem Tight.round (hm : 0 < m) (hne : text ≠ []) (h : Tight sep text) :
    (nextPart sep m text).1 ≠ [] ∧ Tight sep (skipSep sep (nextPart sep m text).2) := by
  obtain ⟨c, cs, last, hcs, hlast, rfl⟩ := h.exists_cons hne
  obtain ⟨hc, hsep⟩ := hcs c List.mem_cons_self
  have hbound : tail sep cs ++ last = [] ∨ ∃ more, tail sep cs ++ last = sep :: more := by
    cases cs with
    | nil => exact hlast.imp (fun h => by rw [h]; rfl) (fun h => ⟨[], by rw [h]; rfl⟩)
    | cons c' cs => exact Or.inr ⟨_, rfl⟩
  rw [nextPart_take hsep hbound]
  refine ⟨by simp [hc, Nat.pos_iff_ne_zero.mp hm], ?_⟩
  by_cases hdrop : c.drop m = []
  · rw [hdrop, List.nil_append]
    cases cs with
    | nil =>
      rcases hlast with rfl | rfl
      · exact Tight.nil
      · rw [tail, List.nil_append, skipSep, if_pos rfl]
        exact Tight.nil
    | cons c' cs =>
      rw [tail, List.cons_append, skipSep, if_pos rfl, joined_cons, List.append_assoc]
      exact Tight.of_cons (fun x hx => hcs x (List.mem_cons_of_mem _ hx)) hlast
  · have hall : ∀ x ∈ c.drop m :: cs, x ≠ [] ∧ sep ∉ x := List.forall_mem_cons.mpr
      ⟨⟨hdrop, fun hmem => hsep (List.mem_of_mem_drop hmem)⟩, (List.forall_mem_cons.mp hcs).2⟩
    obtain ⟨b, more, hb⟩ := List.exists_cons_of_ne_nil hdrop
    have hne' : b ≠ sep := by
      rintro rfl
      exact (hall _ List.mem_cons_self).2 (hb ▸ List.mem_cons_self)
    have hskip : skipSep sep (c.drop m ++ (tail sep cs ++ last)) =
        c.drop m ++ (tail sep cs ++ last) := by
      rw [hb, List.cons_append, skipSep, if_neg hne']
    rw [hskip]
    exact Tight.of_cons hall hlast

theorem length_round_lt (sep : α) (hm : 0 < m) (hne : text ≠ []) :
    (skipSep sep (nextPart sep m text).2).length < text.length := by
  obtain ⟨k, rfl⟩ : ∃ k, m = k + 1 := ⟨m - 1, by omega⟩
  obtain ⟨c, text, rfl⟩ := List.exists_cons_of_ne_nil hne
  rw [nextPart, List.length_cons]
  by_cases hc : c = sep
  · rw [if_pos hc, skipSep, if_pos hc]
    omega
  · have hsplit := congrArg List.length (nextPart_spec sep k text).1
    have hskip := length_skipSep_le sep (nextPart sep k text).2
    rw [List.length_append] at hsplit
    rw [if_neg hc]
    dsimp only
    omega

theorem flatten_pieces (hm : 0 < m) (hlen : text.length ≤ n) :
    (pieces sep m n text).flatten = text.filter (fun x => x ≠ sep) := by
  induction n generalizing text with
  | zero =>
    rw [List.length_eq_zero_iff.mp (Nat.le_zero.mp hlen)]
    rfl
  | succ n ih =>
    cases text with
    | nil => rfl
    | cons c text =>
      have hround := length_round_lt sep hm (List.cons_ne_nil c text)
      obtain ⟨happ, hsep⟩ := nextPart_spec sep m (c :: text)
      have hfirst : (nextPart sep m (c :: text)).1.filter (fun x => x ≠ sep) =
          (nextPart sep m (c :: text)).1 := by
        rw [List.filter_eq_self]
        intro x hx
        simpa using fun heq : x = sep => hsep (heq ▸ hx)
      have hskip : ∀ r : List α, (skipSep sep r).filter (fun x => x ≠ sep) =
          r.filter (fun x => x ≠ sep) := by
        intro r
        cases r with
        | nil => rfl
        | cons b r =>
          rw [skipSep]
          by_cases hb : b = sep
          · simp [hb]
          · rw [if_neg hb]
      rw [pieces, List.flatten_cons, ih (by omega), hskip]
      conv_rhs => rw [← happ, List.filter_append, hfirst]

theorem tight_of_pieces (hm : 0 < m) (hlen : text.length ≤ n) (h : [] ∉ pieces sep m n text) :
    Tight sep text := by
  induction n generalizing text with
  | zero =>
    rw [List.length_eq_zero_iff.mp (Nat.le_zero.mp hlen)]
    exact Tight.nil
  | succ n ih =>
    cases text with
    | nil => exact Tight.nil
    | cons c text =>
      have hround := length_round_lt sep hm (List.cons_ne_nil c text)
      obtain ⟨happ, hsep⟩ := nextPart_spec sep m (c :: text)
      rw [pieces, List.mem_cons, not_or] at h
      have hrest := ih (by omega) h.2
      rw [← happ]
      exact Tight.cons (Ne.symm h.1) hsep hrest

theorem pieces_of_tight (hm : 0 < m) (hlen : text.length ≤ n) (h : Tight sep text) :
    [] ∉ pieces sep m n text := by
  induction n generalizing text with
  | zero =>
    rw [List.length_eq_zero_iff.mp (Nat.le_zero.mp hlen)]
    exact List.not_mem_nil
  | succ n ih =>
    cases text with
    | nil => exact List.not_mem_nil
    | cons c text =>
      have hround := length_round_lt sep hm (List.cons_ne_nil c text)
      obtain ⟨hfirst, hrest⟩ := h.round hm (List.cons_ne_nil c text)
      rw [pieces, List.mem_cons, not_or]
      exact ⟨Ne.symm hfirst, ih (by omega) hrest⟩

end Pieces

end Parts
end Homunculos
