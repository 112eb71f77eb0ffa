import Homunculos.Vfs.Resolve
import Homunculos.Lib.PathStack
import Homunculos.Libc.Memmove

/-!
# Normalization of paths

`normalize_path` works in one buffer of 256 bytes: a cursor reads the components and a
second one, never ahead of it, writes the result over them.  What it computes is the
lexical normalization of the first 255 bytes.  Behind a `..` that is not followed by
another name, the separator of the name that was taken back stays in the result.
-/

namespace Homunculos
namespace Vfs

open Parts PathStack Function

/-- The name `.`. -/
def dot : Text := [0x2e#8]

/-- The name `..`. -/
def dotdot : Text := [0x2e#8, 0x2e#8]

/-- A buffer in memory. -/
abbrev Buffer := Nat → BitVec 8

/-- The buffer after `strncpy(out, path, 255)` and `out[255] = 0`. -/
def outBuffer (path : Text) : Buffer :=
  fun k => (path.take 255).getD k 0

/-- The first index from `i` on at which `p` fails. -/
def scanWhile (p : BitVec 8 → Bool) : Nat → Buffer → Nat → Nat
  | 0, _, i => i
  | n + 1, out, i => if p (out i) = true then scanWhile p n out (i + 1) else i

/-- `while (o > 0 && out[o - 1] != '/') o--`. -/
def rewind (out : Buffer) : Nat → Nat
  | 0 => 0
  | o + 1 => if out o ≠ slash then rewind out o else o + 1

/-- `memcpy`, which is `memmove` here. -/
def copyWithin (out : Buffer) (o start len : Nat) : Buffer :=
  fun k => if o ≤ k ∧ k < o + len then out (start + (k - o)) else out k

/-- A component is appended to the result. -/
def appendComp (out : Buffer) (o start len : Nat) : Buffer × Nat :=
  let (out, o) := if out (o - 1) ≠ slash then (update out o slash, o + 1) else (out, o)
  (copyWithin out o start len, o + len)

/-- One component, read from `start` on and `len` bytes long. -/
def normComp (out : Buffer) (o start len : Nat) : Buffer × Nat :=
  if len = 1 ∧ out start = 0x2e#8 then
    (out, o)
  else if len = 2 ∧ out start = 0x2e#8 ∧ out (start + 1) = 0x2e#8 then
    (out, if 1 < o then rewind out (o - 1) else o)
  else
    appendComp out o start len

/-- The loop of `normalize_path`; every round reads a byte at least. -/
def normLoop : Nat → Buffer → Nat → Nat → Buffer × Nat
  | 0, out, o, _ => (out, o)
  | n + 1, out, o, i =>
    if out i = 0 then
      (out, o)
    else
      let start := scanWhile (fun b => b = slash) 256 out i
      if out start = 0 then
        (out, o)
      else
        let stop := scanWhile (fun b => b ≠ 0 ∧ b ≠ slash) 256 out start
        let next := normComp out o start (stop - start)
        normLoop n next.1 next.2 stop

/-- The string at the start of a buffer. -/
def cString (out : Buffer) : Text :=
  (List.range (scanWhile (fun b => b ≠ 0) 256 out 0)).map out

def normalizePath (path : Text) : Text :=
  let out := outBuffer path
  if out 0 ≠ slash then
    path
  else
    let done := normLoop 256 out 1 1
    cString (update done.1 done.2 0)

/-- `copyWithin` is what `memmove` does, since the result is not ahead of the component. -/
theorem copyWithin_eq_memmove (mem : Libc.Memory) (base : BitVec 32) {o start len k : Nat}
    (hbehind : o ≤ start) (hstop : start + len ≤ 256) (hk : k < 256) :
    copyWithin (fun i => mem (base + BitVec.ofNat 32 i)) o start len k =
      (Libc.memmove mem (base + BitVec.ofNat 32 o) (base + BitVec.ofNat 32 start)
        (BitVec.ofNat 32 len)).1 (base + BitVec.ofNat 32 k) := by
  have hcopies : Libc.Copies mem (base + BitVec.ofNat 32 o) (base + BitVec.ofNat 32 start)
      (BitVec.ofNat 32 len) := by
    apply Libc.memmove_copies
    rcases hbehind.eq_or_lt with rfl | hlt
    · exact Or.inl rfl
    · rw [add_sub_add_left_eq_sub, BitVec.le_def, BitVec.toNat_sub]
      simp only [BitVec.toNat_ofNat]
      omega
  unfold copyWithin
  split
  next hin =>
    have hmoved := hcopies.moved (BitVec.ofNat 32 (k - o)) (by
      rw [BitVec.lt_def, BitVec.toNat_ofNat, BitVec.toNat_ofNat]
      omega)
    rw [add_assoc, ← BitVec.ofNat_add, Nat.add_sub_cancel' hin.1, add_assoc,
      ← BitVec.ofNat_add] at hmoved
    exact hmoved.symm
  next hout =>
    refine (hcopies.frame _ fun i hi heq => hout ?_).symm
    have hsum := congrArg BitVec.toNat (add_left_cancel (heq.trans (add_assoc _ _ _)))
    rw [BitVec.lt_def] at hi
    simp only [BitVec.toNat_add, BitVec.toNat_ofNat] at hi hsum
    omega

section Scanning

variable {p : BitVec 8 → Bool} {out : Buffer} {rest : Text} {i n : Nat}

/-- The buffer holds a text from an index on, and zeros behind it. -/
def Reads (out : Buffer) (i : Nat) (rest : Text) : Prop :=
  ∀ k, out (i + k) = rest.getD k 0

theorem Reads.tail {b : BitVec 8} (h : Reads out i (b :: rest)) :
    Reads out (i + 1) rest := by
  intro k
  have hk := h (k + 1)
  rw [List.getD_cons_succ] at hk
  rw [← hk]
  congr 1
  omega

theorem Reads.drop (h : Reads out i rest) (k : Nat) :
    Reads out (i + k) (rest.drop k) := by
  intro j
  rw [Nat.add_assoc, h (k + j)]
  simp [List.getD_eq_getElem?_getD]

theorem scanWhile_eq (h : Reads out i rest) (hp : p 0 = false) (hlen : rest.length ≤ n) :
    scanWhile p n out i = i + (rest.takeWhile p).length := by
  induction n generalizing i rest with
  | zero =>
    rw [List.length_eq_zero_iff.mp (Nat.le_zero.mp hlen)]
    rfl
  | succ n ih =>
    cases rest with
    | nil =>
      have h0 : out i = 0 := h 0
      rw [scanWhile, h0, hp]
      rfl
    | cons b rest =>
      have h0 : out i = b := h 0
      rw [scanWhile, h0, List.takeWhile_cons]
      cases hb : p b with
      | false => simp
      | true =>
        rw [List.length_cons] at hlen
        rw [ih h.tail (by omega)]
        simp
        omega

theorem scanWhile_stop
    {m : Nat} (hrun : ∀ k, k < m → p (out (i + k)) = true) (hstop : p (out (i + m)) = false)
    (hle : m ≤ n) :
    scanWhile p n out i = i + m := by
  induction m generalizing i n with
  | zero =>
    cases n with
    | zero => rfl
    | succ n =>
      rw [scanWhile, if_neg (by simpa using hstop)]
      rfl
  | succ m ih =>
    obtain ⟨n, rfl⟩ : ∃ n', n = n' + 1 := ⟨n - 1, by omega⟩
    have hfirst : p (out i) = true := hrun 0 (Nat.succ_pos m)
    rw [scanWhile, if_pos hfirst]
    have hnext : i + (m + 1) = i + 1 + m := by omega
    rw [hnext] at hstop ⊢
    refine ih ?_ hstop (by omega)
    intro k hk
    rw [Nat.add_assoc, Nat.add_comm 1 k]
    exact hrun (k + 1) (by omega)

end Scanning

section Loop

variable {out : Buffer} {acc rest more c : Text} {i start : Nat}

/-- The result so far stands in front of what is still to be read. -/
structure Holding (out : Buffer) (acc : Text) (i : Nat) (rest : Text) : Prop where
  written : ∀ k, k < acc.length → out k = acc.getD k 0
  reads : Reads out i rest
  behind : acc.length ≤ i
  rooted : acc.head? = some slash

theorem Holding.last (h : Holding out acc i rest) :
    out (acc.length - 1) = slash ↔ acc.getLast? = some slash := by
  have hne : acc ≠ [] := by
    rintro rfl
    exact absurd h.rooted (by simp)
  have hpos := List.length_pos_of_ne_nil hne
  rw [h.written _ (by omega), List.getD_eq_getElem?_getD, List.getLast?_eq_getElem?,
    List.getElem?_eq_getElem (by omega), Option.getD_some, Option.some_inj]

theorem written_append (h : ∀ k, k < (acc ++ more).length → out k = (acc ++ more).getD k 0) :
    ∀ k, k < acc.length → out k = acc.getD k 0 := by
  intro k hk
  rw [h k (by rw [List.length_append]; omega), List.getD_append _ _ _ _ hk]

theorem rewind_eq (h : ∀ k, k < acc.length → out k = acc.getD k 0) :
    rewind out acc.length = (acc.rdropWhile (fun b => b ≠ slash)).length := by
  induction acc using List.reverseRecOn with
  | nil => rfl
  | append_singleton acc b ih =>
    have hb : out acc.length = b := by
      rw [h acc.length (by simp)]
      simp
    rw [List.length_append, List.length_singleton, rewind, hb]
    by_cases hslash : b = slash
    · rw [if_neg (not_not.mpr hslash), List.rdropWhile_concat_neg _ _ _ (by simp [hslash])]
      simp
    · rw [if_pos hslash, List.rdropWhile_concat_pos _ _ _ (by simp [hslash])]
      exact ih (written_append h)

theorem Holding.cut (h : Holding out (acc ++ more) i rest) (hne : acc ≠ []) :
    Holding out acc i rest := by
  have hbehind := h.behind
  rw [List.length_append] at hbehind
  refine ⟨written_append h.written, h.reads, by omega, ?_⟩
  rw [← h.rooted, List.head?_append_of_ne_nil _ hne]

theorem Holding.putSlash (h : Holding out acc start rest) (hgap : acc.length < start) :
    Holding (update out acc.length slash) (acc ++ [slash]) start rest := by
  refine ⟨?_, ?_, ?_, ?_⟩
  · intro k hk
    rw [List.length_append, List.length_singleton] at hk
    by_cases hlast : k = acc.length
    · rw [hlast]
      simp
    · rw [update_of_ne hlast, List.getD_append _ _ _ _ (by omega)]
      exact h.written k (by omega)
  · intro k
    rw [update_of_ne (by omega)]
    exact h.reads k
  · rw [List.length_append, List.length_singleton]
    omega
  · rw [List.head?_append, h.rooted]
    rfl

variable (h : Holding out acc start (c ++ more))
include h

theorem Holding.copy :
    Holding (copyWithin out acc.length start c.length) (acc ++ c) (start + c.length) more := by
  have hbehind := h.behind
  refine ⟨?_, ?_, ?_, ?_⟩
  · intro k hk
    rw [List.length_append] at hk
    unfold copyWithin
    by_cases hlt : k < acc.length
    · rw [if_neg (by omega), List.getD_append _ _ _ _ hlt]
      exact h.written k hlt
    · rw [if_pos (by omega), h.reads, List.getD_append_right acc c 0 k (by omega),
        List.getD_append c more 0 _ (by omega)]
  · intro k
    unfold copyWithin
    rw [if_neg (by omega), Nat.add_assoc, h.reads, List.getD_append_right _ _ _ _ (by omega)]
    congr 1
    omega
  · rw [List.length_append]
    omega
  · rw [List.head?_append, h.rooted]
    rfl

theorem Holding.skip :
    Holding out acc (start + c.length) more := by
  have hreads := h.reads.drop c.length
  rw [List.drop_left] at hreads
  exact ⟨h.written, hreads, Nat.le_trans h.behind (Nat.le_add_right _ _), h.rooted⟩

theorem Holding.appendComp (hgap : acc.getLast? = some slash ∨ acc.length < start) :
    (appendComp out acc.length start c.length).2 =
        ((if acc.getLast? = some slash then acc else acc ++ [slash]) ++ c).length ∧
      Holding (appendComp out acc.length start c.length).1
        ((if acc.getLast? = some slash then acc else acc ++ [slash]) ++ c)
        (start + c.length) more := by
  unfold Vfs.appendComp
  by_cases hlast : acc.getLast? = some slash
  · rw [if_neg (not_not.mpr (h.last.mpr hlast)), if_pos hlast, List.length_append]
    exact ⟨rfl, h.copy⟩
  · have hput := h.putSlash (hgap.resolve_left hlast)
    have hlen : acc.length + 1 = (acc ++ [slash]).length := by simp
    rw [if_pos (mt h.last.mp hlast), if_neg hlast, List.length_append]
    rw [hlen]
    exact ⟨rfl, hput.copy⟩

theorem Holding.eq_dot_iff :
    (c.length = 1 ∧ out start = 0x2e#8) ↔ c = dot := by
  have h0 := h.reads 0
  constructor
  · rintro ⟨hlen, hstart⟩
    obtain ⟨b, rfl⟩ := List.length_eq_one_iff.mp hlen
    have hb : out start = b := h0
    rw [← hb, hstart]
    rfl
  · rintro rfl
    exact ⟨rfl, h0⟩

theorem Holding.eq_dotdot_iff :
    (c.length = 2 ∧ out start = 0x2e#8 ∧ out (start + 1) = 0x2e#8) ↔ c = dotdot := by
  have h0 := h.reads 0
  have h1 := h.reads 1
  constructor
  · rintro ⟨hlen, hstart, hnext⟩
    obtain ⟨a, b, rfl⟩ := List.length_eq_two.mp hlen
    have ha : out start = a := h0
    have hb : out (start + 1) = b := h1
    rw [← ha, ← hb, hstart, hnext]
    rfl
  · rintro rfl
    exact ⟨rfl, h0, h1⟩

omit h

theorem Holding.rewind (h : Holding out acc i rest) (hone : 1 < acc.length) :
    rewind out (acc.length - 1) = (acc.dropLast.rdropWhile (fun b => b ≠ slash)).length ∧
      Holding out (acc.dropLast.rdropWhile (fun b => b ≠ slash)) i rest := by
  have hne : acc.dropLast ≠ [] := by
    intro hnil
    have hlen := acc.length_dropLast
    rw [hnil, List.length_nil] at hlen
    omega
  have hsplit : acc.dropLast ++ [acc.getLast (List.ne_nil_of_length_pos (by omega))] = acc :=
    List.dropLast_append_getLast _
  have hdrop : Holding out acc.dropLast i rest := by
    rw [← hsplit] at h
    exact h.cut hne
  constructor
  · rw [← List.length_dropLast]
    exact rewind_eq hdrop.written
  · obtain ⟨more, hmore⟩ := List.rdropWhile_prefix (fun b => b ≠ slash) acc.dropLast
    have hslash : slash ∈ acc.dropLast := List.mem_of_mem_head? hdrop.rooted
    rw [← hmore] at hdrop
    refine hdrop.cut ?_
    intro hnil
    rw [List.rdropWhile_eq_nil_iff] at hnil
    simpa using hnil slash hslash

theorem Holding.normComp (h : Holding out acc start (c ++ more))
    (hgap : acc.getLast? = some slash ∨ acc.length < start) :
    (normComp out acc.length start c.length).2 = (textStep slash dot dotdot acc c).length ∧
      Holding (normComp out acc.length start c.length).1 (textStep slash dot dotdot acc c)
        (start + c.length) more := by
  unfold Vfs.normComp textStep
  by_cases hdot : c = dot
  · rw [if_pos (h.eq_dot_iff.mpr hdot), if_pos hdot]
    exact ⟨rfl, h.skip⟩
  rw [if_neg (mt h.eq_dot_iff.mp hdot), if_neg hdot]
  by_cases hup : c = dotdot
  · rw [if_pos (h.eq_dotdot_iff.mpr hup), if_pos hup]
    by_cases hone : 1 < acc.length
    · rw [if_pos hone, if_pos hone]
      exact h.skip.rewind hone
    · rw [if_neg hone, if_neg hone]
      exact ⟨rfl, h.skip⟩
  · rw [if_neg (mt h.eq_dotdot_iff.mp hup), if_neg hup]
    exact h.appendComp hgap

theorem Holding.first_ne (h : Holding out acc i rest) (hzero : 0 ∉ rest) (hne : rest ≠ []) :
    out i ≠ 0 := by
  obtain ⟨b, rest, rfl⟩ := List.exists_cons_of_ne_nil hne
  have h0 : out i = b := h.reads 0
  rw [h0]
  rintro rfl
  exact hzero List.mem_cons_self

theorem Holding.skipSlashes (h : Holding out acc i rest) (hlen : rest.length ≤ 256) :
    ∃ seps rest1, rest = seps ++ rest1 ∧ (∀ b ∈ seps, b = slash) ∧ rest1.head? ≠ some slash ∧
      scanWhile (fun b => b = slash) 256 out i = i + seps.length := by
  refine ⟨rest.takeWhile (fun b => b = slash), rest.dropWhile (fun b => b = slash),
    List.takeWhile_append_dropWhile.symm, ?_, ?_, scanWhile_eq h.reads (by decide) hlen⟩
  · intro b hb
    simpa using List.mem_takeWhile_imp hb
  · intro hhead
    have hfalse := List.head?_dropWhile_not (fun b => decide (b = slash)) rest
    rw [hhead] at hfalse
    simp at hfalse

theorem Holding.component (h : Holding out acc i rest) (hzero : 0 ∉ rest) (hne : rest ≠ [])
    (hhead : rest.head? ≠ some slash) (hlen : rest.length ≤ 256) :
    ∃ c more, rest = c ++ more ∧ Plain slash c ∧ (more = [] ∨ more.head? = some slash) ∧
      scanWhile (fun b => b ≠ 0 ∧ b ≠ slash) 256 out i = i + c.length := by
  refine ⟨rest.takeWhile (fun b => b ≠ 0 ∧ b ≠ slash), rest.dropWhile (fun b => b ≠ 0 ∧ b ≠ slash),
    List.takeWhile_append_dropWhile.symm, ⟨?_, ?_⟩, ?_, scanWhile_eq h.reads (by decide) hlen⟩
  · obtain ⟨b, rest, rfl⟩ := List.exists_cons_of_ne_nil hne
    have hb : b ≠ 0 ∧ b ≠ slash :=
      ⟨fun hb => hzero (hb ▸ List.mem_cons_self), fun hb => hhead (by rw [hb]; rfl)⟩
    rw [List.takeWhile_cons, if_pos (by simpa using hb)]
    exact List.cons_ne_nil _ _
  · intro hmem
    simpa using List.mem_takeWhile_imp hmem
  · cases hmore : rest.dropWhile (fun b => b ≠ 0 ∧ b ≠ slash) with
    | nil => exact Or.inl rfl
    | cons b more =>
      have hfalse := List.head?_dropWhile_not (fun b => decide (b ≠ 0 ∧ b ≠ slash)) rest
      have hmem : b ∈ rest := by
        apply List.dropWhile_subset (fun b => decide (b ≠ 0 ∧ b ≠ slash))
        rw [hmore]
        exact List.mem_cons_self
      have hb : b ≠ 0 := fun hb => hzero (hb ▸ hmem)
      rw [hmore] at hfalse
      right
      rw [List.head?_cons]
      congr 1
      by_contra hslash
      exact hb (by simpa [hslash] using hfalse)

theorem Holding.normLoop {n : Nat} (h : Holding out acc i rest) (hzero : 0 ∉ rest)
    (hgap : acc.getLast? = some slash ∨ rest = [] ∨ rest.head? = some slash)
    (hlen : rest.length < n) (hn : n ≤ 256) :
    (normLoop n out acc.length i).2 =
        ((parts slash rest).foldl (textStep slash dot dotdot) acc).length ∧
      Holding (normLoop n out acc.length i).1
        ((parts slash rest).foldl (textStep slash dot dotdot) acc) (i + rest.length) [] := by
  induction n generalizing out acc i rest with
  | zero => omega
  | succ n ih =>
    rw [Vfs.normLoop]
    obtain rfl | hne := eq_or_ne rest []
    · have h0 : out i = 0 := h.reads 0
      rw [if_pos h0]
      exact ⟨rfl, h⟩
    rw [if_neg (h.first_ne hzero hne)]
    -- the separators in front of the component
    obtain ⟨seps, rest1, rfl, hseps, hhead, hstart⟩ := h.skipSlashes (by omega)
    rw [hstart, parts_seps_append hseps, List.length_append]
    have hzero1 : 0 ∉ rest1 := fun hmem => hzero (List.mem_append_right _ hmem)
    have h₁ := h.skip
    obtain rfl | hne1 := eq_or_ne rest1 []
    · have h0 : out (i + seps.length) = 0 := h₁.reads 0
      rw [if_pos h0]
      exact ⟨rfl, h₁⟩
    rw [if_neg (h₁.first_ne hzero1 hne1)]
    -- the component
    have hlen1 : rest1.length ≤ 256 := by
      rw [List.length_append] at hlen
      omega
    obtain ⟨c, more, rfl, hplain, hmore, hstop⟩ := h₁.component hzero1 hne1 hhead hlen1
    have hlen' : more.length < n := by
      have hpos := List.length_pos_of_ne_nil hplain.1
      simp only [List.length_append] at hlen
      omega
    have hgap1 : acc.getLast? = some slash ∨ acc.length < i + seps.length := by
      rcases hgap with hlast | hnil | hslash
      · exact Or.inl hlast
      · exact absurd hnil hne
      · have hseps_ne : seps ≠ [] := by
          rintro rfl
          exact hhead hslash
        have hpos := List.length_pos_of_ne_nil hseps_ne
        have hbehind := h.behind
        exact Or.inr (by omega)
    obtain ⟨hcursor, hnext⟩ := h₁.normComp hgap1
    have hmore' : more = [] ∨ ∃ text, more = slash :: text :=
      hmore.imp id (fun hsome => ⟨more.tail, (List.cons_head?_tail hsome).symm⟩)
    have hdone := ih hnext (fun hmem => hzero1 (List.mem_append_right _ hmem)) (Or.inr hmore) hlen'
      (by omega)
    dsimp only
    rw [hstop, Nat.add_sub_cancel_left, hcursor, parts_append hplain.1 hplain.2 hmore',
      List.length_append, ← Nat.add_assoc, ← Nat.add_assoc]
    exact hdone

end Loop

section Result

variable {out : Buffer} {t path : Text}

theorem cString_eq
    (hwritten : ∀ k, k < t.length → out k = t.getD k 0) (hend : out t.length = 0) (hzero : 0 ∉ t)
    (hlen : t.length < 256) :
    cString out = t := by
  have hscan : scanWhile (fun b => b ≠ 0) 256 out 0 = t.length := by
    rw [scanWhile_stop (m := t.length) _ (by simpa using hend) (by omega), Nat.zero_add]
    intro k hk
    rw [Nat.zero_add, hwritten k hk, List.getD_eq_getElem _ _ hk]
    have hne : t[k] ≠ 0 := fun hk0 => hzero (hk0 ▸ List.getElem_mem hk)
    simpa using hne
  unfold cString
  rw [hscan]
  apply List.ext_getElem
  · simp
  · intro k _ hk
    rw [List.getElem_map, List.getElem_range, hwritten k hk, List.getD_eq_getElem _ _ hk]

theorem mem_textStep
    {sep x : BitVec 8} {here up acc c : Text} (hx : x ∈ textStep sep here up acc c) :
    x ∈ acc ∨ x = sep ∨ x ∈ c := by
  unfold textStep at hx
  split at hx
  · exact Or.inl hx
  · split at hx
    · split at hx
      · exact Or.inl (List.dropLast_subset _ ((List.rdropWhile_prefix _ _).subset hx))
      · exact Or.inl hx
    · split at hx
      · grind
      · grind

theorem zero_notMem_run {acc : Text} {cs : List Text} (hacc : 0 ∉ acc) (hcs : ∀ c ∈ cs, 0 ∉ c) :
    0 ∉ cs.foldl (textStep slash dot dotdot) acc := by
  induction cs generalizing acc with
  | nil => exact hacc
  | cons c cs ih =>
    refine ih ?_ (fun c hc => hcs c (List.mem_cons_of_mem _ hc))
    intro hmem
    rcases mem_textStep hmem with hold | hslash | hnew
    · exact hacc hold
    · exact absurd hslash (by decide)
    · exact hcs c List.mem_cons_self hnew

/-- The stack of components of a path; only its first 255 bytes are read. -/
def pathStack (path : Text) : Stack (BitVec 8) :=
  (parts slash (path.take 255)).foldl (step dot dotdot) Stack.empty

theorem normalizePath_of_relative (hpath : path.head? ≠ some slash) :
    normalizePath path = path := by
  have hout : outBuffer path 0 ≠ slash := by
    unfold outBuffer
    cases path with
    | nil => decide
    | cons b path => simpa using hpath
  unfold normalizePath
  rw [if_pos hout]

/-- `normalize_path` computes the lexical normalization. -/
theorem normalizePath_eq (hpath : path.head? = some slash) (hzero : 0 ∉ path) :
    normalizePath path = (pathStack path).text slash ∧
      (normalizePath path).length ≤ (path.take 255).length ∧ 0 ∉ normalizePath path := by
  obtain ⟨rest, rfl⟩ : ∃ rest, path = slash :: rest :=
    ⟨path.tail, (List.cons_head?_tail hpath).symm⟩
  have htake : (slash :: rest).take 255 = slash :: rest.take 254 := rfl
  have hzero' : 0 ∉ rest.take 254 :=
    fun hmem => hzero (List.mem_cons_of_mem _ (List.mem_of_mem_take hmem))
  have hlen : (rest.take 254).length ≤ 254 := List.length_take_le _ _
  have hstart : Holding (outBuffer (slash :: rest)) [slash] 1 (rest.take 254) := by
    refine ⟨?_, ?_, Nat.le_refl _, rfl⟩
    · intro k hk
      obtain rfl := Nat.lt_one_iff.mp hk
      rfl
    · intro k
      rw [outBuffer, htake, Nat.add_comm, List.getD_cons_succ]
  obtain ⟨hcursor, hdone⟩ := hstart.normLoop (n := 256) hzero' (Or.inl rfl) (by omega)
    (Nat.le_refl _)
  have htext : (parts slash (rest.take 254)).foldl (textStep slash dot dotdot) [slash] =
      (pathStack (slash :: rest)).text slash := by
    rw [pathStack, text_run _ (fun c hc => mem_parts hc)]
    · rfl
    · exact fun c hc => absurd hc List.not_mem_nil
  have hclean : 0 ∉ (parts slash (rest.take 254)).foldl (textStep slash dot dotdot) [slash] :=
    zero_notMem_run (by decide) (fun c hc hmem => hzero' (mem_of_mem_parts hc hmem))
  rw [htext] at hcursor hdone hclean
  have hbehind := hdone.behind
  have hresult : normalizePath (slash :: rest) = (pathStack (slash :: rest)).text slash := by
    unfold normalizePath
    dsimp only
    rw [List.length_singleton] at hcursor hdone
    rw [hcursor]
    refine cString_eq ?_ (update_self _ _ _) hclean (by omega)
    intro k hk
    rw [update_of_ne (Nat.ne_of_lt hk)]
    exact hdone.written k hk
  rw [hresult, htake, List.length_cons]
  exact ⟨rfl, by omega, hclean⟩

end Result

section Shape

variable {path : Text}

/-- The last component other than `.` is `..`; only the first 255 bytes are read. -/
def EndsUp (path : Text) : Prop :=
  ((parts slash (path.take 255)).filter (fun c => c ≠ dot)).getLast? = some dotdot

instance (path : Text) : Decidable (EndsUp path) :=
  inferInstanceAs (Decidable (_ = _))

/-- One component of the input: `.` is dropped, and `..` deletes the last one that was kept. -/
def keepComp (kept : List Text) (c : Text) : List Text :=
  if c = dot then kept else if c = dotdot then kept.dropLast else kept ++ [c]

/-- The components that a path comes to, read from left to right. -/
def lexical (path : Text) : List Text :=
  (parts slash path).foldl keepComp []

theorem comps_run (cs : List Text) (s : Stack (BitVec 8)) :
    (cs.foldl (step dot dotdot) s).comps = cs.foldl keepComp s.comps := by
  induction cs generalizing s with
  | nil => rfl
  | cons c cs ih =>
    rw [List.foldl_cons, List.foldl_cons, ih]
    congr 1
    unfold step keepComp
    split_ifs with hdot hup hnil <;> simp_all

theorem lexical_mem {c : Text} (hc : c ∈ lexical path) :
    Plain slash c ∧ Proper dot dotdot c := by
  have hc : c ∈ ((parts slash path).foldl (step dot dotdot) Stack.empty).comps :=
    comps_run _ Stack.empty ▸ hc
  rcases run_mem hc with hnil | ⟨hmem, hproper⟩
  · exact absurd hnil List.not_mem_nil
  · exact ⟨mem_parts hmem, hproper⟩

theorem pathStack_comps (path : Text) :
    (pathStack path).comps = lexical (path.take 255) :=
  comps_run _ _

theorem pathStack_mem {c : Text} (hc : c ∈ (pathStack path).comps) :
    Plain slash c ∧ Proper dot dotdot c :=
  lexical_mem (pathStack_comps path ▸ hc)

theorem pathStack_settled_iff (path : Text) :
    ((pathStack path).comps = [] ∨ (pathStack path).trail = false) ↔
      (EndsUp path → lexical (path.take 255) = []) := by
  rw [← pathStack_comps]
  by_cases hnil : (pathStack path).comps = []
  · exact iff_of_true (Or.inl hnil) (fun _ => hnil)
  · have htrail : (pathStack path).trail = true ↔ EndsUp path := trail_run _ hnil
    rw [← htrail]
    simp [hnil]

/-- A normalized path is canonical unless the separator in front of a name that was
taken back has stayed. -/
theorem normalizePath_canonical_iff (hpath : path.head? = some slash) (hzero : 0 ∉ path) :
    Canonical slash dot dotdot (normalizePath path) ↔
      (EndsUp path → lexical (path.take 255) = []) := by
  rw [← pathStack_settled_iff, (normalizePath_eq hpath hzero).1]
  exact canonical_text_iff (fun c hc => pathStack_mem hc)

theorem normalizePath_text
    {s : Stack (BitVec 8)} (hcomps : ∀ c ∈ s.comps, Plain slash c ∧ Proper dot dotdot c)
    (hzero : 0 ∉ s.text slash) (hlen : (s.text slash).length ≤ 255) :
    normalizePath (s.text slash) = (⟨s.comps, false⟩ : Stack (BitVec 8)).text slash := by
  have hplain : ∀ c ∈ s.comps, Plain slash c := fun c hc => (hcomps c hc).1
  rw [(normalizePath_eq rfl hzero).1, pathStack, List.take_of_length_le hlen, parts_text hplain,
    run_proper (fun c hc => (hcomps c hc).2)]
  split
  next hnil =>
    rw [hnil]
    rfl
  · rfl

theorem normalizePath_idempotent_iff (hzero : 0 ∉ path) :
    normalizePath (normalizePath path) = normalizePath path ↔
      (path.head? = some slash → EndsUp path → lexical (path.take 255) = []) := by
  by_cases hpath : path.head? = some slash
  · obtain ⟨htext, hlen, hclean⟩ := normalizePath_eq hpath hzero
    rw [htext] at hlen hclean ⊢
    rw [normalizePath_text (fun c hc => pathStack_mem hc) hclean
      (hlen.trans (List.length_take_le _ _)), text_settled_iff, pathStack_settled_iff]
    exact ⟨fun h _ => h, fun h => h hpath⟩
  · rw [normalizePath_of_relative hpath, normalizePath_of_relative hpath]
    exact iff_of_true rfl (fun h => absurd h hpath)

end Shape

section Components

variable {path : Text}

theorem parts_normalizePath (hpath : path.head? = some slash) (hzero : 0 ∉ path) :
    parts slash (normalizePath path) = lexical (path.take 255) := by
  rw [(normalizePath_eq hpath hzero).1, parts_text (fun c hc => (pathStack_mem hc).1)]
  exact pathStack_comps path

/-- A path of at most 255 bytes: the components of the result, its start and its length. -/
theorem normalize_path_exact
    (path : Text) (hpath : path.head? = some slash) (hzero : 0 ∉ path)
    (hlen : path.length ≤ 255) :
    parts slash (normalizePath path) = lexical path ∧
      (normalizePath path).head? = some slash ∧ (normalizePath path).length ≤ path.length := by
  obtain ⟨htext, hle, -⟩ := normalizePath_eq hpath hzero
  rw [parts_normalizePath hpath hzero]
  rw [List.take_of_length_le hlen] at hle ⊢
  exact ⟨rfl, by rw [htext]; rfl, hle⟩

theorem normalize_path_exact_up :
    parts slash (normalizePath [slash, 0x61#8, slash, slash, 0x2e#8, 0x2e#8]) = [] ∧
      normalizePath [slash, 0x61#8, slash, slash, 0x2e#8, 0x2e#8] = [slash] := by
  have hexact := normalize_path_exact [slash, 0x61#8, slash, slash, 0x2e#8, 0x2e#8] rfl
    (by decide) (by decide)
  refine ⟨hexact.1.trans (by decide), by decide +kernel⟩

end Components

end Vfs
end Homunculos
