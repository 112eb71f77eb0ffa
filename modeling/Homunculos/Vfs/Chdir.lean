import Homunculos.Vfs.Normalize

/-!
# The current directory

`sys_chdir` resolves the path it is given and stores the normalized one.  An absolute
path is resolved as it stands; a relative one is put behind the current directory in
a buffer of 512 bytes first, without a check of its length.
-/

namespace Homunculos
namespace Vfs

open Parts PathStack Run

section Calls

variable {ι κ : Type} [DecidableEq κ]

/-- The path leads to a directory. -/
def FileTree.isDirAt (T : FileTree ι κ) (n : Nat) (path : Text) : Bool :=
  match T.vfsResolvePath n path with
  | some (some inode) => T.iType inode = .dir
  | _ => false

/-- A relative path behind the current directory, which is never empty. -/
def joinCwd (cwd path : Text) : Text :=
  cwd ++ (if cwd.getLast? = some slash then [] else [slash]) ++ path

/-- The text that is normalized: at most 511 bytes of an absolute path are copied. -/
def chdirText (cwd path : Text) : Text :=
  if path.head? = some slash then path.take 511 else joinCwd cwd path

/-- The path that is resolved. -/
def chdirTarget (cwd path : Text) : Text :=
  if path.head? = some slash then path else normalizePath (joinCwd cwd path)

/-- `sys_chdir`: whether it succeeds, and the current directory after it. `none` if a relative
path does not fit into the buffer behind the current directory. -/
def sysChdir (T : FileTree ι κ) (n : Nat) (cwd path : Text) : Option (Bool × Text) :=
  if path.head? ≠ some slash ∧ 512 ≤ (joinCwd cwd path).length then
    none
  else if T.isDirAt n (chdirTarget cwd path) = true then
    some (true, (normalizePath (chdirText cwd path)).take 255)
  else
    some (false, cwd)

/-- A call, with the files as they are when it is made. -/
structure ChdirCall (ι κ : Type) where
  tree : FileTree ι κ
  depth : Nat
  path : Text

/-- The current directory after a call; `none` once the stack has been overwritten. -/
def chdirStep (s : Option Text) (e : ChdirCall ι κ) : Option Text :=
  s.bind fun cwd => (sysChdir e.tree e.depth cwd e.path).map Prod.snd

end Calls

section Runs

variable {ι κ : Type} [DecidableEq κ] {s : Option Text} {e : ChdirCall ι κ} {cwd path : Text}

/-- The current directory is a canonical absolute path. -/
def CwdCanonical (s : Option Text) : Prop :=
  ∃ cwd, s = some cwd ∧ Canonical slash dot dotdot cwd

/--
The call keeps that: a relative path fits into the buffer, and if the path leads to a
directory, its last component other than `.` is not `..`, or it comes to the root.
-/
def ChdirSafe (s : Option Text) (e : ChdirCall ι κ) : Prop :=
  ∀ cwd, s = some cwd →
    (e.path.head? ≠ some slash → (joinCwd cwd e.path).length < 512) ∧
      (e.tree.isDirAt e.depth (chdirTarget cwd e.path) = true →
        EndsUp (chdirText cwd e.path) → lexical ((chdirText cwd e.path).take 255) = [])

/-- What is stored as the current directory in any case. -/
structure IsCwd (cwd : Text) : Prop where
  rooted : cwd.head? = some slash
  clean : 0 ∉ cwd
  fits : cwd.length ≤ 255

theorem IsCwd.chdirText (h : IsCwd cwd) (hpath : 0 ∉ path) :
    (chdirText cwd path).head? = some slash ∧ 0 ∉ chdirText cwd path := by
  unfold Vfs.chdirText
  split
  next habs =>
    constructor
    · rw [List.head?_take]
      exact habs
    · exact fun hmem => hpath (List.mem_of_mem_take hmem)
  · unfold joinCwd
    constructor
    · rw [List.append_assoc, List.head?_append, h.rooted]
      rfl
    · simp only [List.mem_append, not_or]
      refine ⟨⟨h.clean, ?_⟩, hpath⟩
      split
      · exact List.not_mem_nil
      · decide

theorem IsCwd.normalizePath (h : IsCwd cwd) (hpath : 0 ∉ path) :
    IsCwd (normalizePath (Vfs.chdirText cwd path)) := by
  obtain ⟨hroot, hzero⟩ := h.chdirText hpath
  obtain ⟨htext, hlen, hclean⟩ := normalizePath_eq hroot hzero
  refine ⟨?_, hclean, hlen.trans (List.length_take_le _ _)⟩
  rw [htext]
  rfl

theorem sysChdir_cases (T : FileTree ι κ) (n : Nat) (h : IsCwd cwd) (hpath : 0 ∉ path) :
    (sysChdir T n cwd path = none ∧ path.head? ≠ some slash ∧ 512 ≤ (joinCwd cwd path).length) ∨
      ((path.head? ≠ some slash → (joinCwd cwd path).length < 512) ∧
        ((T.isDirAt n (chdirTarget cwd path) = true ∧
            sysChdir T n cwd path = some (true, Vfs.normalizePath (Vfs.chdirText cwd path))) ∨
          (T.isDirAt n (chdirTarget cwd path) = false ∧
            sysChdir T n cwd path = some (false, cwd)))) := by
  unfold sysChdir
  split
  next hover =>
    exact Or.inl ⟨rfl, hover⟩
  next hover =>
    right
    refine ⟨fun hrel => by_contra fun hlen => hover ⟨hrel, by omega⟩, ?_⟩
    split
    next hdir =>
      rw [List.take_of_length_le (h.normalizePath hpath).fits]
      exact Or.inl ⟨hdir, rfl⟩
    next hdir =>
      exact Or.inr ⟨by simpa using hdir, rfl⟩

theorem IsCwd.step (hs : ∀ cwd, s = some cwd → IsCwd cwd) (hpath : 0 ∉ e.path) :
    ∀ cwd, chdirStep s e = some cwd → IsCwd cwd := by
  intro cwd' hstep
  obtain ⟨cwd, rfl, hmap⟩ := Option.bind_eq_some_iff.mp hstep
  have h := hs cwd rfl
  rcases sysChdir_cases e.tree e.depth h hpath with ⟨heq, -⟩ | ⟨-, ⟨-, heq⟩ | ⟨-, heq⟩⟩
  · rw [heq] at hmap
    cases hmap
  · rw [heq] at hmap
    cases hmap
    exact h.normalizePath hpath
  · rw [heq] at hmap
    cases hmap
    exact h

theorem chdirStep_canonical_iff
    (hs : ∀ cwd, s = some cwd → IsCwd cwd) (hpath : 0 ∉ e.path) (hcanon : CwdCanonical s) :
    CwdCanonical (chdirStep s e) ↔ ChdirSafe s e := by
  obtain ⟨cwd, rfl, hcwd⟩ := hcanon
  have h := hs cwd rfl
  obtain ⟨hroot, hzero⟩ := h.chdirText hpath
  have hnorm := normalizePath_canonical_iff hroot hzero
  unfold ChdirSafe CwdCanonical chdirStep
  rw [Option.bind_some]
  simp only [Option.some_inj, forall_eq']
  rcases sysChdir_cases e.tree e.depth h hpath with
    ⟨heq, hrel, hover⟩ | ⟨hfits, ⟨hdir, heq⟩ | ⟨hdir, heq⟩⟩
  · rw [heq]
    refine iff_of_false (by simp) ?_
    rintro ⟨hfits, -⟩
    exact absurd (hfits hrel) (by omega)
  · rw [heq]
    simp only [Option.map_some, Option.some_inj, exists_eq_left']
    rw [hnorm]
    exact ⟨fun hsafe => ⟨hfits, fun _ => hsafe⟩, fun hsafe => hsafe.2 hdir⟩
  · rw [heq]
    simp only [Option.map_some, Option.some_inj, exists_eq_left']
    refine iff_of_true hcwd ⟨hfits, fun htrue => ?_⟩
    rw [hdir] at htrue
    cases htrue

/--
The current directory is canonical all along a run of calls exactly if every call of
it is safe, and normalizing twice is the same as normalizing once exactly if a `..` at
the end of an absolute path leads to the root.
-/
theorem chdir_canonical_iff
    (cwd : Text) (hcwd : IsCwd cwd) (hcanon : Canonical slash dot dotdot cwd)
    (calls : List (ChdirCall ι κ)) (hcalls : ∀ e ∈ calls, 0 ∉ e.path) (path : Text)
    (hpath : 0 ∉ path) :
    ((∀ pre, pre <+: calls → CwdCanonical (pre.foldl chdirStep (some cwd))) ↔
        Allowed chdirStep ChdirSafe (some cwd) calls) ∧
      (normalizePath (normalizePath path) = normalizePath path ↔
        (path.head? = some slash → EndsUp path → lexical (path.take 255) = [])) := by
  refine ⟨?_, normalizePath_idempotent_iff hpath⟩
  have hvalid : Allowed chdirStep (fun _ (e : ChdirCall ι κ) => 0 ∉ e.path) (some cwd) calls := by
    generalize some cwd = s
    induction calls generalizing s with
    | nil => trivial
    | cons e calls ih =>
      exact ⟨hcalls e List.mem_cons_self, ih (fun e he => hcalls e (List.mem_cons_of_mem _ he)) _⟩
  apply Allowed.always_iff (I := fun s => ∀ cwd, s = some cwd → IsCwd cwd) hvalid
  · rintro _ ⟨⟩
    exact hcwd
  · exact ⟨cwd, rfl, hcanon⟩
  · exact fun s e hclean hs => IsCwd.step hs hclean
  · exact fun s e hclean hs => chdirStep_canonical_iff hs hclean

end Runs

section Instances

/-- Three directories: the root, `/a` and `/a/b`. -/
def nested : FileTree Nat Unit where
  iNo := id
  iType := fun _ => .dir
  ops := fun _ => some ()
  lookup := fun _ => some fun inode name =>
    if inode = 0 ∧ name = [0x61#8] then some 1
    else if inode = 1 ∧ name = [0x62#8] then some 2
    else if inode = 2 ∧ name = dotdot then some 1
    else none
  readlink := fun _ => none
  mounts := []
  root := some 0

/-- The texts `/a/b` and `/a/b/..`. -/
def pathB : Text := [0x2f#8, 0x61#8, 0x2f#8, 0x62#8]

def pathUp : Text := [0x2f#8, 0x61#8, 0x2f#8, 0x62#8, 0x2f#8, 0x2e#8, 0x2e#8]

theorem chdir_canonical_iff_nested :
    CwdCanonical (chdirStep (some [slash]) ⟨nested, 1, pathB⟩) ∧
      normalizePath (normalizePath pathB) = normalizePath pathB := by
  have hroot : IsCwd [slash] := ⟨rfl, by decide, by decide⟩
  have hiff := chdir_canonical_iff [slash] hroot ⟨rfl, Or.inl rfl⟩ [⟨nested, 1, pathB⟩] (by decide)
    pathB (by decide)
  have hdown : ¬ EndsUp pathB := by
    decide +kernel
  refine ⟨?_, hiff.2.mpr (fun _ hup => absurd hup hdown)⟩
  refine hiff.1.mpr ⟨?_, trivial⟩ [⟨nested, 1, pathB⟩] (List.prefix_refl _)
  rintro _ ⟨⟩
  refine ⟨fun hrel => absurd rfl hrel, fun _ hup => ?_⟩
  exact absurd hup (by decide +kernel)

/-- After `chdir("/a/b/..")` the current directory is `/a/`. -/
theorem chdir_up_leaves_slash :
    chdirStep (some [slash]) ⟨nested, 1, pathUp⟩ = some [0x2f#8, 0x61#8, 0x2f#8] ∧
      ¬ CwdCanonical (chdirStep (some [slash]) ⟨nested, 1, pathUp⟩) ∧
      normalizePath (normalizePath pathUp) ≠ normalizePath pathUp := by
  have hstep : chdirStep (some [slash]) ⟨nested, 1, pathUp⟩ = some [0x2f#8, 0x61#8, 0x2f#8] := by
    decide +kernel
  refine ⟨hstep, ?_, by decide +kernel⟩
  rintro ⟨_, ⟨⟩, -, hone | ⟨hlast, -⟩⟩
  · exact absurd hone (by decide)
  · exact hlast rfl

end Instances

end Vfs
end Homunculos
