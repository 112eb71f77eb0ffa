import Homunculos.Vfs.Chdir

/-!
# Two ways to resolve a path

`resolve_path`, which stands behind `stat` and `exec`, hands an absolute path to
`vfs_resolve_path` as it is.  `build_abs_path`, which stands behind the other calls,
normalizes it first.  Relative paths are normalized by both.
-/

namespace Homunculos
namespace Vfs

open Parts PathStack

section Translations

variable {ι κ : Type} [DecidableEq κ]

/--
`resolve_path`: what `vfs_resolve_path` gives, or `none` if a relative path does not fit
into the buffer.
-/
def resolvePath (T : FileTree ι κ) (n : Nat) (cwd path : Text) : Option (Option ι) :=
  if path.head? = some slash then
    T.vfsResolvePath n path
  else if 512 ≤ (joinCwd cwd path).length then
    none
  else
    T.vfsResolvePath n (normalizePath (joinCwd cwd path))

/--
`build_abs_path` for an output of `outSize` bytes; `none` if it returns without having
written anything.
-/
def buildAbsPath (outSize : Nat) (cwd path : Text) : Option Text :=
  if path.head? = some slash then
    some (normalizePath (path.take (outSize - 1)))
  else if outSize < cwd.length + path.length + 2 then
    none
  else
    some (normalizePath (joinCwd cwd path))

/-- The size of `abs_path` in every caller. -/
def absPathSize : Nat := 512

/-- Both translations of a path lead to the same inode. -/
def Agrees (T : FileTree ι κ) (n : Nat) (cwd path : Text) : Prop :=
  ∃ abs, buildAbsPath absPathSize cwd path = some abs ∧
    resolvePath T n cwd path = T.vfsResolvePath n abs

/-- A canonical path, or one with a separator behind its last component. -/
def Direct (path : Text) : Prop :=
  Canonical slash dot dotdot path ∨
    ∃ first, path = first ++ [slash] ∧ first ≠ [slash] ∧ Canonical slash dot dotdot first

end Translations

section TrailingSlash

variable {ι κ : Type} [DecidableEq κ] {p p' : Text}

/-- What is left of two paths of which one has a separator more at its end. -/
def Trailing (p p' : Text) : Prop :=
  (p = [] ∧ p' = []) ∨ (p' = p ++ [slash] ∧ p.getLast? ≠ some slash)

theorem Trailing.skipSep (h : Trailing p p') :
    (skipSep slash p = [] ∧ skipSep slash p' = []) ∨
      (skipSep slash p ≠ [] ∧ skipSep slash p' = skipSep slash p ++ [slash] ∧
        (skipSep slash p).getLast? ≠ some slash) := by
  rcases h with ⟨rfl, rfl⟩ | ⟨rfl, hlast⟩
  · exact Or.inl ⟨rfl, rfl⟩
  cases p with
  | nil => exact Or.inl ⟨rfl, by rfl⟩
  | cons c p =>
    right
    rw [List.cons_append, Parts.skipSep, Parts.skipSep]
    by_cases hc : c = slash
    · rw [if_pos hc, if_pos hc]
      cases p with
      | nil => exact absurd (by rw [hc]; rfl) hlast
      | cons b p => exact ⟨List.cons_ne_nil _ _, rfl, by rwa [List.getLast?_cons_cons] at hlast⟩
    · rw [if_neg hc, if_neg hc]
      exact ⟨List.cons_ne_nil _ _, rfl, hlast⟩

theorem Trailing.skipped (h : Trailing p p') :
    Trailing (Parts.skipSep slash p) (Parts.skipSep slash p') :=
  h.skipSep.imp id And.right

theorem followLinks_trailing
    (T : FileTree ι κ) (root : ι) (left : Nat) (current : ι) (h : Trailing p p') :
    (T.followLinks root left current p = T.followLinks root left current p' ∧
        ∀ r, T.followLinks root left current p ≠ some (some r)) ∨
      ∃ child rest q q', Trailing q q' ∧
        (skipSep slash q).length ≤ (skipSep slash p).length ∧
        (skipSep slash q').length ≤ (skipSep slash p').length ∧
        T.followLinks root left current p = some (some (child, rest, q)) ∧
        T.followLinks root left current p' = some (some (child, rest, q')) := by
  induction left generalizing current p p' with
  | zero =>
    unfold FileTree.followLinks
    cases T.linkOp current with
    | none => exact Or.inr ⟨current, 0, p, p', h, Nat.le_refl _, Nat.le_refl _, rfl, rfl⟩
    | some readlink => exact Or.inl ⟨rfl, by simp⟩
  | succ left ih =>
    unfold FileTree.followLinks
    cases T.linkOp current with
    | none => exact Or.inr ⟨current, left + 1, p, p', h, Nat.le_refl _, Nat.le_refl _, rfl, rfl⟩
    | some readlink =>
      dsimp only
      cases readlink current with
      | none => exact Or.inl ⟨rfl, by simp⟩
      | some target =>
        dsimp only
        by_cases habs : target.head? = some slash
        · rw [if_pos habs, if_pos habs]
          rcases ih root h.skipped with hsame | ⟨child, rest, q, q', hq, hlen, hlen', heq, heq'⟩
          · exact Or.inl hsame
          · exact Or.inr ⟨child, rest, q, q', hq,
              Nat.le_trans hlen (length_skipSep_le slash _),
              Nat.le_trans hlen' (length_skipSep_le slash _), heq, heq'⟩
        · rw [if_neg habs, if_neg habs]
          cases T.lookupOp (T.vfsResolveMount current) with
          | none => exact Or.inl ⟨rfl, by simp⟩
          | some lookup =>
            dsimp only
            cases lookup (T.vfsResolveMount current) target with
            | none => exact Or.inl ⟨rfl, by simp⟩
            | some next => exact ih next h

theorem resolveLoop_trailing (T : FileTree ι κ) (root : ι) {n m left : Nat} {current : ι}
    (h : (p = [] ∧ p' = []) ∨ (p ≠ [] ∧ p' = p ++ [slash] ∧ p.getLast? ≠ some slash))
    (hn : p.length ≤ n) (hm : p'.length ≤ m) :
    T.resolveLoop root n left current p = T.resolveLoop root m left current p' := by
  induction n generalizing m left current p p' with
  | zero =>
    rcases h with ⟨rfl, rfl⟩ | ⟨hne, -⟩
    · simp [FileTree.resolveLoop]
    · exact absurd (List.length_eq_zero_iff.mp (Nat.le_zero.mp hn)) hne
  | succ n ih =>
    rcases h with ⟨rfl, rfl⟩ | ⟨hne, rfl, hlast⟩
    · simp [FileTree.resolveLoop]
    have hround := length_round_lt slash (m := 63) (by decide) hne
    have hround' := length_round_lt slash (m := 63) (by decide)
      (List.append_ne_nil_of_left_ne_nil hne [slash])
    have hspec := (nextPart_spec slash 63 p).1
    rw [nextPart_snoc_sep] at hround'
    have hrest : Trailing (nextPart slash 63 p).2 ((nextPart slash 63 p).2 ++ [slash]) := by
      refine Or.inr ⟨rfl, fun hsome => hlast ?_⟩
      rw [← hspec, List.getLast?_append, hsome]
      rfl
    obtain ⟨c, text, rfl⟩ := List.exists_cons_of_ne_nil hne
    obtain ⟨m, rfl⟩ : ∃ k, m = k + 1 := ⟨m - 1, by omega⟩
    rw [List.cons_append, FileTree.resolveLoop, FileTree.resolveLoop, ← List.cons_append,
      nextPart_snoc_sep]
    generalize nextPart slash 63 (c :: text) = next at hround hround' hrest ⊢
    dsimp only at hround' ⊢
    cases T.lookupOp (T.vfsResolveMount current) with
    | none => rfl
    | some lookup =>
      dsimp only
      cases lookup (T.vfsResolveMount current) next.1 with
      | none => rfl
      | some child =>
        dsimp only
        rcases followLinks_trailing T root left child hrest with
          ⟨hsame, hnone⟩ | ⟨child, rest, q, q', hq, hlen, hlen', heq, heq'⟩
        · rw [← hsame]
          cases hlinks : T.followLinks root left child next.2 with
          | none => rfl
          | some r =>
            cases r with
            | none => rfl
            | some r => exact absurd hlinks (hnone r)
        · rw [heq, heq']
          exact ih hq.skipSep (by omega) (by omega)

theorem vfsResolvePath_trailing
    (T : FileTree ι κ) (n : Nat) {comps : List Text} (hcomps : ∀ c ∈ comps, Plain slash c)
    (trail : Bool) :
    T.vfsResolvePath n ((⟨comps, trail⟩ : Stack (BitVec 8)).text slash) =
      T.vfsResolvePath n (slash :: joined slash comps) := by
  have htext : (⟨comps, false⟩ : Stack (BitVec 8)).text slash = slash :: joined slash comps := by
    simp [Stack.text]
  cases trail with
  | false => rw [htext]
  | true =>
    by_cases hnil : comps = []
    · subst hnil
      rfl
    have hlast := getLast_text_part hcomps hnil
    have hne : joined slash comps ≠ [] := by
      intro hjoined
      have hsep := (text_eq_sep_iff (s := ⟨comps, false⟩) hcomps).mp (by rw [htext, hjoined])
      exact hnil hsep
    rw [text_trail hnil, htext, List.cons_append]
    rw [htext, List.getLast?_cons] at hlast
    cases n with
    | zero => rfl
    | succ n =>
      unfold FileTree.vfsResolvePath
      cases T.root with
      | none => rfl
      | some root =>
        dsimp only
        rw [skipSep, skipSep, if_pos rfl, if_pos rfl, if_neg (by simp), if_neg hne,
          ← resolveLoop_trailing T root (Or.inr ⟨hne, rfl, fun hsome => hlast (by rw [hsome]; rfl)⟩)
            (Nat.le_refl _) (Nat.le_refl _)]

end TrailingSlash

section Recording

variable {ι κ : Type} [DecidableEq κ] {T : FileTree ι κ} {text : Text} {n left : Nat}

/-- No inode is a symbolic link. -/
def FileTree.Linkless (T : FileTree ι κ) : Prop :=
  ∀ inode, T.iType inode ≠ .symlink

/-- The names that are looked up are what fits into the buffer, one piece after the other. -/
theorem resolveLoop_pieces (hT : T.Linkless) {root current : ι} (hlen : text.length ≤ n) :
    T.resolveLoop root n left current text =
      some ((T.walkFrom current (pieces slash 63 n text)).map fun inode => (inode, left)) := by
  induction n generalizing current text with
  | zero =>
    rw [List.length_eq_zero_iff.mp (Nat.le_zero.mp hlen)]
    simp [FileTree.resolveLoop, pieces, FileTree.walkFrom]
  | succ n ih =>
    cases text with
    | nil => simp [FileTree.resolveLoop, pieces, FileTree.walkFrom]
    | cons c text =>
      have hround := length_round_lt slash (m := 63) (by decide) (List.cons_ne_nil c text)
      rw [FileTree.resolveLoop, pieces, FileTree.walkFrom, FileTree.lookupIn]
      cases T.lookupOp (T.vfsResolveMount current) with
      | none => rfl
      | some lookup =>
        dsimp only [Option.bind_some]
        cases lookup (T.vfsResolveMount current) (nextPart slash 63 (c :: text)).1 with
        | none => rfl
        | some child =>
          dsimp only [Option.bind_some]
          rw [FileTree.followLinks_of_plain (FileTree.linkOp_of_plain (hT child))]
          exact ih (by simp only [List.length_cons] at hround hlen; omega)

theorem vfsResolvePath_pieces (hT : T.Linkless) (n : Nat) (text : Text) :
    T.vfsResolvePath (n + 1) (slash :: text) =
      some (T.resolveFold (pieces slash 63 text.length text)) := by
  unfold FileTree.vfsResolvePath FileTree.resolveFold
  cases T.root with
  | none => rfl
  | some root =>
    dsimp only
    rw [skipSep, if_pos rfl]
    by_cases hnil : text = []
    · subst hnil
      rfl
    · rw [if_neg hnil, resolveLoop_pieces hT (Nat.le_refl _), Option.bind_some]
      cases T.walkFrom root (pieces slash 63 text.length text) with
      | none => rfl
      | some inode =>
        dsimp only [Option.map_some]
        rw [FileTree.linkOp_of_plain (hT _)]

/-- Files that record the names they were asked for. -/
def recording : FileTree (List Text) Unit where
  iNo := fun _ => 0
  iType := fun _ => .dir
  ops := fun _ => some ()
  lookup := fun _ => some fun names name => some (names ++ [name])
  readlink := fun _ => none
  mounts := []
  root := some []

theorem recording_linkless :
    recording.Linkless := by
  intro _ hlink
  cases hlink

theorem resolveFold_recording (names : List Text) :
    recording.resolveFold names = some names := by
  have hwalk : ∀ first, recording.walkFrom first names = some (first ++ names) := by
    induction names with
    | nil =>
      intro first
      rw [List.append_nil]
      rfl
    | cons name names ih =>
      intro first
      rw [List.append_cons]
      exact ih (first ++ [name])
  exact congrArg (Option.map _) (hwalk [])

theorem vfsResolvePath_recording (text : Text) :
    recording.vfsResolvePath 1 (slash :: text) =
      some (some (pieces slash 63 text.length text)) := by
  rw [vfsResolvePath_pieces recording_linkless, resolveFold_recording]

end Recording

section Agreement

variable {cwd path : Text}

theorem tight_text {s : Stack (BitVec 8)} (hplain : ∀ c ∈ s.comps, Plain slash c) :
    Tight slash (s.text slash).tail := by
  refine ⟨s.comps, if s.trail = true ∧ s.comps ≠ [] then [slash] else [], hplain, ?_, rfl⟩
  split
  next h =>
    exact Or.inr ⟨rfl, h.2⟩
  · exact Or.inl rfl

theorem direct_text
    {s : Stack (BitVec 8)} (hcomps : ∀ c ∈ s.comps, Plain slash c ∧ Proper dot dotdot c) :
    Direct (s.text slash) := by
  obtain ⟨comps, trail⟩ := s
  have hcanon : Canonical slash dot dotdot ((⟨comps, false⟩ : Stack (BitVec 8)).text slash) := by
    rw [canonical_text_iff (show ∀ c ∈ (⟨comps, false⟩ : Stack (BitVec 8)).comps, _ from hcomps)]
    exact Or.inr rfl
  cases trail with
  | false => exact Or.inl hcanon
  | true =>
    by_cases hnil : comps = []
    · rw [hnil]
      exact Or.inl ⟨rfl, Or.inl rfl⟩
    · refine Or.inr ⟨_, text_trail hnil, ?_, hcanon⟩
      intro hsep
      have hiff : (⟨comps, false⟩ : Stack (BitVec 8)).text slash = [slash] ↔ comps = [] :=
        text_eq_sep_iff (fun c hc => (hcomps c hc).1)
      exact hnil (hiff.mp hsep)

theorem direct_of_recording
    (hpath : path.head? = some slash) (hzero : 0 ∉ path) (hlen : path.length ≤ 255)
    (h : recording.vfsResolvePath 1 path = recording.vfsResolvePath 1 (normalizePath path)) :
    Direct path := by
  obtain ⟨text, rfl⟩ : ∃ text, path = slash :: text :=
    ⟨path.tail, (List.cons_head?_tail hpath).symm⟩
  have hnorm := (normalizePath_eq hpath hzero).1
  have hplain : ∀ c ∈ (pathStack (slash :: text)).comps, Plain slash c :=
    fun c hc => (pathStack_mem hc).1
  have hcons : (pathStack (slash :: text)).text slash =
      slash :: ((pathStack (slash :: text)).text slash).tail := rfl
  have hpieces : pieces slash 63 text.length text =
      pieces slash 63 ((pathStack (slash :: text)).text slash).tail.length
        ((pathStack (slash :: text)).text slash).tail := by
    rw [hnorm, hcons, vfsResolvePath_recording, vfsResolvePath_recording] at h
    exact Option.some.inj (Option.some.inj h)
  -- no component was dropped
  have hproper : ∀ c ∈ parts slash (slash :: text), Proper dot dotdot c := by
    have hflat := congrArg List.flatten hpieces
    rw [flatten_pieces (by decide) (Nat.le_refl _), flatten_pieces (by decide) (Nat.le_refl _),
      ← flatten_parts, ← flatten_parts, ← parts_sep_cons text, ← parts_sep_cons (List.tail _),
      ← hcons, parts_text hplain] at hflat
    apply proper_of_length (s := Stack.empty) (by decide) (by decide)
    rw [hflat, pathStack, List.take_of_length_le hlen]
    exact Nat.le_of_eq (Nat.zero_add _)
  -- no separator was dropped but one at the end
  have hempty : [] ∉ pieces slash 63 text.length text := by
    rw [hpieces]
    exact pieces_of_tight (by decide) (Nat.le_refl _) (tight_text hplain)
  obtain ⟨cs, last, hcs, hlast, rfl⟩ := tight_of_pieces (by decide) (Nat.le_refl _) hempty
  have htext : slash :: (joined slash cs ++ last) =
      (⟨cs, decide (last = [slash])⟩ : Stack (BitVec 8)).text slash := by
    rcases hlast with rfl | ⟨rfl, hnil⟩
    · simp [Stack.text]
    · simp [Stack.text, hnil]
  rw [htext] at hproper ⊢
  have hparts : parts slash ((⟨cs, decide (last = [slash])⟩ : Stack (BitVec 8)).text slash) = cs :=
    parts_text hcs
  rw [hparts] at hproper
  exact direct_text (fun c hc => ⟨hcs c hc, hproper c hc⟩)

theorem vfsResolvePath_of_direct
    {ι κ : Type} [DecidableEq κ] (T : FileTree ι κ) (n : Nat) (hzero : 0 ∉ path)
    (hlen : path.length ≤ 255) (h : Direct path) :
    T.vfsResolvePath n path = T.vfsResolvePath n (normalizePath path) := by
  rcases h with hcanon | ⟨first, rfl, hne, hcanon⟩
  · obtain ⟨comps, hcomps, rfl⟩ := hcanon.exists_text
    rw [normalizePath_text hcomps hzero hlen]
  · obtain ⟨comps, hcomps, rfl⟩ := hcanon.exists_text
    have hnil : comps ≠ [] := by
      rintro rfl
      exact hne (text_nil false)
    rw [← text_trail hnil] at hzero hlen ⊢
    have hplain : ∀ c ∈ comps, Plain slash c := fun c hc => (hcomps c hc).1
    rw [normalizePath_text hcomps hzero hlen, vfsResolvePath_trailing T n hplain,
      vfsResolvePath_trailing T n hplain]

/--
The two translations lead to the same inode among any files exactly if the path is
relative or direct.
-/
theorem resolve_path_agrees_iff
    (cwd path : Text) (hzero : 0 ∉ path) (hlen : cwd.length + path.length < 256) :
    (∀ (ι κ : Type) [DecidableEq κ] (T : FileTree ι κ) (n : Nat), Agrees T n cwd path) ↔
      (path.head? = some slash → Direct path) := by
  have hfits : path.length ≤ 255 := by omega
  by_cases hpath : path.head? = some slash
  · have hbuild : buildAbsPath absPathSize cwd path = some (normalizePath path) := by
      rw [buildAbsPath, if_pos hpath, List.take_of_length_le (by rw [absPathSize]; omega)]
    constructor
    · intro h _
      obtain ⟨abs, habs, heq⟩ := h _ _ recording 1
      rw [hbuild, Option.some_inj] at habs
      rw [resolvePath, if_pos hpath, ← habs] at heq
      exact direct_of_recording hpath hzero hfits heq
    · intro h ι κ _ T n
      refine ⟨normalizePath path, hbuild, ?_⟩
      rw [resolvePath, if_pos hpath]
      exact vfsResolvePath_of_direct T n hzero hfits (h hpath)
  · refine iff_of_true ?_ (fun h => absurd h hpath)
    intro ι κ _ T n
    have hjoin : (joinCwd cwd path).length ≤ cwd.length + 1 + path.length := by
      unfold joinCwd
      split
      · simp
      · rw [List.length_append, List.length_append, List.length_singleton]
    refine ⟨normalizePath (joinCwd cwd path), ?_, ?_⟩
    · rw [buildAbsPath, if_neg hpath, if_neg (by rw [absPathSize]; omega)]
    · rw [resolvePath, if_neg hpath, if_neg (by omega)]

/-- The text `/a/b/`. -/
def pathSlash : Text := [0x2f#8, 0x61#8, 0x2f#8, 0x62#8, 0x2f#8]

theorem resolve_path_agrees_iff_nested :
    Direct pathSlash ∧ Agrees nested 1 [slash] pathSlash := by
  have hdirect : Direct pathSlash := by
    refine Or.inr ⟨[0x2f#8, 0x61#8, 0x2f#8, 0x62#8], rfl, by decide, rfl, Or.inr ⟨by decide, ?_⟩⟩
    unfold Proper
    decide +kernel
  exact ⟨hdirect, (resolve_path_agrees_iff [slash] pathSlash (by decide) (by decide)).mpr
    (fun _ => hdirect) Nat Unit nested 1⟩

/-- The text `/a//b`. -/
def pathDouble : Text := [0x2f#8, 0x61#8, 0x2f#8, 0x2f#8, 0x62#8]

/-- `stat("/a//b")` finds nothing where `open("/a//b")` finds the directory. -/
theorem stat_open_differ :
    resolvePath nested 1 [slash] pathDouble = some none ∧
      buildAbsPath absPathSize [slash] pathDouble = some pathB ∧
      nested.vfsResolvePath 1 pathB = some (some 2) := by
  decide +kernel

end Agreement

section AbsPath

variable {cwd path : Text}

/-- The path that a call goes on with; `old` is the text in its buffer before. -/
def absPath (old cwd path : Text) : Text :=
  (buildAbsPath absPathSize cwd path).getD old

/-- The path as it is meant, against the current directory. -/
def meant (cwd path : Text) : Text :=
  if path.head? = some slash then path else joinCwd cwd path

theorem take_chdirText :
    (chdirText cwd path).take 255 = (meant cwd path).take 255 := by
  unfold chdirText meant
  split
  · rw [List.take_take]
    rfl
  · rfl

/-- A relative path fits into the buffer behind the current directory. -/
def FitsBuffer (cwd path : Text) : Prop :=
  path.head? ≠ some slash → cwd.length + path.length + 2 ≤ 512

/-- The components of the first 255 bytes of what is meant. -/
def keptComps (cwd path : Text) : List Text :=
  lexical ((meant cwd path).take 255)

theorem IsCwd.absPath_eq (h : IsCwd cwd) (hpath : 0 ∉ path) (hfits : FitsBuffer cwd path)
    (old : Text) :
    absPath old cwd path = (⟨keptComps cwd path,
        decide (EndsUp (meant cwd path))⟩ : Stack (BitVec 8)).text slash ∧
      (absPath old cwd path).length ≤ 255 := by
  obtain ⟨hroot, hzero⟩ := h.chdirText hpath
  have hbuild : absPath old cwd path = Vfs.normalizePath (Vfs.chdirText cwd path) := by
    unfold absPath buildAbsPath absPathSize Vfs.chdirText
    split
    next => rfl
    next hrel => rw [if_neg (Nat.not_lt.mpr (hfits hrel)), Option.getD_some]
  have hstack : pathStack (Vfs.chdirText cwd path) = pathStack (meant cwd path) := by
    unfold pathStack
    rw [take_chdirText]
  have hcomps : (pathStack (meant cwd path)).comps = keptComps cwd path := pathStack_comps _
  obtain ⟨htext, hlen, -⟩ := normalizePath_eq hroot hzero
  rw [hbuild]
  refine ⟨?_, hlen.trans (List.length_take_le _ _)⟩
  rw [htext, hstack]
  unfold Stack.text
  rw [hcomps]
  by_cases hnil : keptComps cwd path = []
  · simp [hnil]
  · have htrail : (pathStack (meant cwd path)).trail = true ↔ EndsUp (meant cwd path) :=
      trail_run _ (hcomps ▸ hnil)
    simp [htrail]

theorem keptComps_mem {c : Text} (hc : c ∈ keptComps cwd path) :
    Plain slash c :=
  (lexical_mem hc).1

/-- What a call splits its path into: behind a separator at the end the name is empty. -/
theorem IsCwd.split (h : IsCwd cwd) (hpath : 0 ∉ path) (hfits : FitsBuffer cwd path) (old : Text) :
    ((keptComps cwd path = [] ∨ EndsUp (meant cwd path)) ∧
        vfsSplitPath (absPath old cwd path) 256 64 =
          (slash :: joined slash (keptComps cwd path), [])) ∨
      ∃ first last, keptComps cwd path = first ++ [last] ∧ ¬ EndsUp (meant cwd path) ∧
        vfsSplitPath (absPath old cwd path) 256 64 =
          (slash :: joined slash first, last.take 63) := by
  obtain ⟨habs, hlen⟩ := h.absPath_eq hpath hfits old
  by_cases hnil : keptComps cwd path = []
  · rw [hnil, text_nil] at habs
    rw [habs, hnil]
    exact Or.inl ⟨Or.inl rfl, rfl⟩
  have hskip : skipSep slash (absPath old cwd path) = joined slash (keptComps cwd path) ++
      if EndsUp (meant cwd path) then [slash] else [] := by
    rw [habs]
    simp [Stack.text, skipSep, hnil]
  by_cases hup : EndsUp (meant cwd path)
  · rw [if_pos hup, ← joined_snoc hnil] at hskip
    exact Or.inl ⟨Or.inr hup, vfsSplitPath_joined hskip List.not_mem_nil hlen⟩
  · obtain ⟨first, last, hsnoc⟩ : ∃ first last, keptComps cwd path = first ++ [last] :=
      ⟨_, _, (List.dropLast_append_getLast hnil).symm⟩
    rw [if_neg hup, List.append_nil, hsnoc] at hskip
    have hlast : last ∈ keptComps cwd path := by
      rw [hsnoc]
      exact List.mem_append_right _ List.mem_cons_self
    exact Or.inr ⟨first, last, hsnoc, hup, vfsSplitPath_joined hskip (keptComps_mem hlast).2 hlen⟩

end AbsPath

end Vfs
end Homunculos
