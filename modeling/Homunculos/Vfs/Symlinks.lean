import Homunculos.Vfs.Resolve

/-!
# What path resolution means

Components are looked up one after the other.  The target of a symbolic link that is absolute
is resolved from the root, a relative one from the directory that holds the link, and then the
rest of the path.  The resolvers go on from the root instead, so they are right about paths
without links and about the links that lead to the root, and about no others.
-/

namespace Homunculos
namespace Vfs

open Ext2 Parts

namespace FileTree

variable {ι κ : Type} [DecidableEq κ]

/-- The inode is a symbolic link with a readlink, and this is its target. -/
def Target (T : FileTree ι κ) (inode : ι) (target : Text) : Prop :=
  ∃ readlink, T.linkOp inode = some readlink ∧ readlink inode = some target

/-- Where the target of a link in a directory is resolved. -/
def linkStart (root dir : ι) (target : Text) : ι :=
  if target.head? = some slash then root else dir

/-- Resolution of components from a directory, with the number of links that are followed on the
way. Without `final` a link in the last place is not followed. -/
inductive Follows (T : FileTree ι κ) (root : ι)
    (final : Bool) : Nat → ι → List Text → Option ι → Prop
  | done (dir : ι) : Follows T root final 0 dir [] (some dir)
  | missing {dir : ι} {name : Text} {names : List Text}
      (hmissing : T.lookupIn (T.vfsResolveMount dir) name = none) :
      Follows T root final 0 dir (name :: names) none
  | plain {dir child : ι} {name : Text} {names : List Text} {k : Nat} {r : Option ι}
      (hchild : T.lookupIn (T.vfsResolveMount dir) name = some child)
      (hplain : T.linkOp child = none) (hrest : Follows T root final k child names r) :
      Follows T root final k dir (name :: names) r
  | last {dir child : ι} {name : Text}
      (hchild : T.lookupIn (T.vfsResolveMount dir) name = some child) (hfinal : final = false) :
      Follows T root final 0 dir [name] (some child)
  | link {dir child : ι} {name target : Text} {names : List Text} {k : Nat} {r : Option ι}
      (hchild : T.lookupIn (T.vfsResolveMount dir) name = some child)
      (htarget : T.Target child target) (hplace : final = true ∨ names ≠ [])
      (hrest : Follows T root final k (linkStart root dir target) (parts slash target ++ names) r) :
      Follows T root final (k + 1) dir (name :: names) r

/-- An absolute target that leads to the root, which is no link. -/
def LeadsToRoot (T : FileTree ι κ) (root : ι) (target : Text) : Prop :=
  target.head? = some slash ∧ T.linkOp root = none ∧
    ∃ k inode, T.Follows root true k root (parts slash target) (some inode) ∧
      T.vfsResolveMount inode = T.vfsResolveMount root

/-- The links that are met on the way of the components lead to the root. -/
def LinksToRoot (T : FileTree ι κ) (root : ι) : ι → List Text → Prop
  | _, [] => True
  | dir, name :: names =>
    ∀ child, T.lookupIn (T.vfsResolveMount dir) name = some child →
      (T.linkOp child = none → LinksToRoot T root child names) ∧
        ∀ target, T.Target child target → T.LeadsToRoot root target ∧ LinksToRoot T root root names

section Meaning

variable {T : FileTree ι κ} {root dir x : ι} {final : Bool} {a b comps names : List Text}
variable {name : Text} {r : Option ι} {j k : Nat}

theorem Follows.cons_cases (h : T.Follows root final k dir (name :: names) r) :
    (T.lookupIn (T.vfsResolveMount dir) name = none ∧ r = none) ∨
      ∃ child, T.lookupIn (T.vfsResolveMount dir) name = some child ∧
        ((T.linkOp child = none ∧ T.Follows root final k child names r) ∨
          (final = false ∧ names = [] ∧ r = some child) ∨
          ∃ target j, T.Target child target ∧ (final = true ∨ names ≠ []) ∧ k = j + 1 ∧
            T.Follows root final j (linkStart root dir target)
              (parts slash target ++ names) r) := by
  cases h with
  | missing hmissing => exact Or.inl ⟨hmissing, rfl⟩
  | plain hchild hplain hrest => exact Or.inr ⟨_, hchild, Or.inl ⟨hplain, hrest⟩⟩
  | last hchild hfinal => exact Or.inr ⟨_, hchild, Or.inr (Or.inl ⟨hfinal, rfl, rfl⟩)⟩
  | link hchild htarget hplace hrest =>
    exact Or.inr ⟨_, hchild, Or.inr (Or.inr ⟨_, _, htarget, hplace, rfl, hrest⟩)⟩

omit [DecidableEq κ] in
theorem Target.unique {inode : ι} {t t' : Text} (h : T.Target inode t) (h' : T.Target inode t') :
    t = t' := by
  obtain ⟨readlink, hop, hread⟩ := h
  obtain ⟨readlink', hop', hread'⟩ := h'
  obtain rfl := Option.some.inj (hop.symm.trans hop')
  exact Option.some.inj (hread.symm.trans hread')

omit [DecidableEq κ] in
theorem Target.not_plain {inode : ι} {t : Text} (h : T.Target inode t) :
    T.linkOp inode ≠ none := by
  obtain ⟨readlink, hop, -⟩ := h
  rw [hop]
  exact Option.some_ne_none _

section Cons

variable {child : ι} (h : T.Follows root final k dir (name :: names) r)
variable (hplace : final = true ∨ names ≠ [])
variable (hchild : T.lookupIn (T.vfsResolveMount dir) name = some child)
include h hplace hchild

theorem Follows.cons_plain (hplain : T.linkOp child = none) :
    T.Follows root final k child names r := by
  rcases h.cons_cases with ⟨hnone, -⟩ | ⟨child', hchild', hcase⟩
  · exact absurd (hchild.symm.trans hnone) (Option.some_ne_none _)
  · obtain rfl := Option.some.inj (hchild.symm.trans hchild')
    rcases hcase with ⟨-, hrest⟩ | ⟨hfinal, hnil, -⟩ | ⟨target, j, htarget, -⟩
    · exact hrest
    · simp [hfinal, hnil] at hplace
    · exact absurd hplain htarget.not_plain

theorem Follows.cons_link {target : Text} (htarget : T.Target child target) :
    ∃ j, k = j + 1 ∧
      T.Follows root final j (linkStart root dir target) (parts slash target ++ names) r := by
  rcases h.cons_cases with ⟨hnone, -⟩ | ⟨child', hchild', hcase⟩
  · exact absurd (hchild.symm.trans hnone) (Option.some_ne_none _)
  · obtain rfl := Option.some.inj (hchild.symm.trans hchild')
    rcases hcase with ⟨hplain, -⟩ | ⟨hfinal, hnil, -⟩ | ⟨target', j, htarget', -, hk, hrest⟩
    · exact absurd hplain htarget.not_plain
    · simp [hfinal, hnil] at hplace
    · obtain rfl := htarget.unique htarget'
      exact ⟨j, hk, hrest⟩

end Cons

theorem Follows.behind (ha : T.Follows root true j dir a (some x))
    (h : T.Follows root final k dir (a ++ b) r) (hplace : final = true ∨ b ≠ []) :
    ∃ i, k = j + i ∧ T.Follows root final i x b r := by
  have hlong : ∀ names, final = true ∨ names ++ b ≠ [] :=
    fun names => hplace.imp_right (List.append_ne_nil_of_right_ne_nil names)
  generalize hr : some x = out at ha
  induction ha generalizing k with
  | done dir =>
    cases hr
    exact ⟨k, by omega, h⟩
  | missing hmissing => cases hr
  | plain hchild hplain hrest ih =>
    rw [List.cons_append] at h
    exact ih (h.cons_plain (hlong _) hchild hplain) hr
  | last hchild hfinal => cases hfinal
  | link hchild htarget _ hrest ih =>
    rw [List.cons_append] at h
    obtain ⟨i, rfl, hnext⟩ := h.cons_link (hlong _) hchild htarget
    rw [← List.append_assoc] at hnext
    obtain ⟨i', rfl, hbehind⟩ := ih hnext hr
    exact ⟨i', by omega, hbehind⟩

theorem Follows.append (ha : T.Follows root true j dir a (some x))
    (hb : T.Follows root true k x b r) :
    T.Follows root true (j + k) dir (a ++ b) r := by
  generalize hr : some x = out at ha
  induction ha with
  | done dir =>
    cases hr
    rw [Nat.zero_add]
    exact hb
  | missing hmissing => cases hr
  | plain hchild hplain hrest ih => exact .plain hchild hplain (ih hr)
  | last hchild hfinal => cases hfinal
  | link hchild htarget hplace hrest ih =>
    rw [Nat.add_right_comm, List.cons_append]
    refine .link hchild htarget (Or.inl rfl) ?_
    rw [← List.append_assoc]
    exact ih hr

theorem Follows.start (h : T.Follows root true k dir (a ++ b) r) :
    ∃ i r', i ≤ k ∧ T.Follows root true i dir a r' := by
  generalize hab : a ++ b = comps at h
  induction h generalizing a with
  | done dir =>
    rw [(List.append_eq_nil_iff.mp hab).1]
    exact ⟨0, _, Nat.zero_le _, .done dir⟩
  | missing hmissing =>
    cases a with
    | nil => exact ⟨0, _, Nat.zero_le _, .done _⟩
    | cons name a =>
      obtain ⟨rfl, -⟩ := List.cons.inj hab
      exact ⟨0, _, Nat.zero_le _, .missing hmissing⟩
  | plain hchild hplain hrest ih =>
    cases a with
    | nil => exact ⟨0, _, Nat.zero_le _, .done _⟩
    | cons name a =>
      obtain ⟨rfl, rfl⟩ := List.cons.inj hab
      obtain ⟨i, r', hi, hstart⟩ := ih rfl
      exact ⟨i, r', hi, .plain hchild hplain hstart⟩
  | last hchild hfinal => cases hfinal
  | link hchild htarget hplace hrest ih =>
    cases a with
    | nil => exact ⟨0, _, Nat.zero_le _, .done _⟩
    | cons name a =>
      obtain ⟨rfl, rfl⟩ := List.cons.inj hab
      obtain ⟨i, r', hi, hstart⟩ := ih (List.append_assoc _ _ _)
      exact ⟨i + 1, r', by omega, .link hchild htarget (Or.inl rfl) hstart⟩

theorem Follows.of_mount {dir' : ι} (h : T.Follows root final k dir comps r)
    (hmount : T.vfsResolveMount dir = T.vfsResolveMount dir') :
    ∃ r', T.Follows root final k dir' comps r' ∧
      r'.map T.vfsResolveMount = r.map T.vfsResolveMount := by
  induction h with
  | done dir => exact ⟨_, .done dir', congrArg some hmount.symm⟩
  | missing hmissing => exact ⟨_, .missing (hmount ▸ hmissing), rfl⟩
  | plain hchild hplain hrest => exact ⟨_, .plain (hmount ▸ hchild) hplain hrest, rfl⟩
  | last hchild hfinal => exact ⟨_, .last (hmount ▸ hchild) hfinal, rfl⟩
  | link hchild htarget hplace hrest ih =>
    rename_i target _ _ _
    by_cases habsolute : target.head? = some slash
    · refine ⟨_, .link (hmount ▸ hchild) htarget hplace ?_, rfl⟩
      unfold linkStart at hrest ⊢
      rw [if_pos habsolute] at hrest ⊢
      exact hrest
    · unfold linkStart at ih
      rw [if_neg habsolute] at ih
      obtain ⟨r', hfollows, hr⟩ := ih hmount
      refine ⟨r', .link (hmount ▸ hchild) htarget hplace ?_, hr⟩
      unfold linkStart
      rw [if_neg habsolute]
      exact hfollows

theorem LeadsToRoot.behind {target : Text} (h : T.LeadsToRoot root target)
    (hrest : T.Follows root final k (linkStart root dir target) (parts slash target ++ names) r)
    (hplace : final = true ∨ names ≠ []) :
    ∃ i r', i ≤ k ∧ T.Follows root final i root names r' ∧
      r'.map T.vfsResolveMount = r.map T.vfsResolveMount := by
  obtain ⟨habsolute, -, j, inode, htarget, hmount⟩ := h
  rw [linkStart, if_pos habsolute] at hrest
  obtain ⟨i, rfl, hbehind⟩ := htarget.behind hrest hplace
  obtain ⟨r', hfollows, hr⟩ := hbehind.of_mount hmount
  exact ⟨i, r', by omega, hfollows, hr⟩

end Meaning

section Loops

variable {T : FileTree ι κ} {root dir : ι} {comps : List Text} {r : Option ι} {k n left : Nat}

theorem followLinks_root {child : ι} {target path : Text} (htarget : T.Target child target)
    (habsolute : target.head? = some slash) (hroot : T.linkOp root = none) :
    T.followLinks root (left + 1) child path = some (some (root, left, skipSep slash path)) := by
  obtain ⟨readlink, hop, hread⟩ := htarget
  rw [followLinks]
  simp only [hop, hread, if_pos habsolute]
  exact followLinks_of_plain hroot

theorem followMiddle_root {child : ι} {target : Text} (htarget : T.Target child target)
    (habsolute : target.head? = some slash) (hroot : T.linkOp root = none) :
    T.followMiddle root (left + 1) child = some (some (root, left)) := by
  obtain ⟨readlink, hop, hread⟩ := htarget
  rw [followMiddle]
  simp only [hop, hread, if_pos habsolute]
  exact followMiddle_of_plain hroot

theorem followLinks_end {child inode : ι} {path rest : Text} {l : Nat}
    (h : T.followLinks root left child path = some (some (inode, l, rest))) :
    T.linkOp inode = none := by
  fun_induction T.followLinks root left child path with
  | case1 left child path hplain =>
    cases h
    exact hplain
  | case2 => cases h
  | case3 => cases h
  | case4 _ _ _ _ _ _ _ _ ih => exact ih h
  | case5 => cases h
  | case6 => cases h
  | case7 _ _ _ _ _ _ _ _ _ _ _ _ ih => exact ih h

theorem resolveLoop_end {inode : ι} {path : Text} {l : Nat}
    (hdir : path = [] → T.linkOp dir = none)
    (h : T.resolveLoop root n left dir path = some (some (inode, l))) :
    T.linkOp inode = none := by
  induction n generalizing left dir path with
  | zero =>
    cases path with
    | nil =>
      cases h
      exact hdir rfl
    | cons c path => cases h
  | succ n ih =>
    cases path with
    | nil =>
      cases h
      exact hdir rfl
    | cons c path =>
      rw [FileTree.resolveLoop] at h
      split at h
      · cases h
      split at h
      · cases h
      split at h
      · cases h
      · cases h
      next hfollow => exact ih (fun _ => followLinks_end hfollow) h

/-- The loop of `vfs_resolve_path` comes to what the components mean. -/
def LoopRight (T : FileTree ι κ) (root : ι) (n left : Nat) (dir : ι) (comps : List Text)
    (r : Option ι) : Prop :=
  (T.resolveLoop root n left dir (joined slash comps)).map
    (Option.map fun p => T.vfsResolveMount p.1) = some (r.map T.vfsResolveMount)

theorem LinksToRoot.loopRight
    (hlinks : T.LinksToRoot root dir comps) (hcomps : ∀ name ∈ comps, Component name)
    (h : T.Follows root true k dir comps r) (hleft : k ≤ left)
    (hn : (joined slash comps).length ≤ n) :
    T.LoopRight root n left dir comps r := by
  induction comps generalizing dir k r left n with
  | nil =>
    cases h
    unfold LoopRight FileTree.resolveLoop
    rfl
  | cons name names ih =>
    obtain ⟨hname, hnames⟩ := List.forall_mem_cons.mp hcomps
    obtain ⟨m, rfl, hm⟩ := length_joined_succ hname hn
    unfold LoopRight
    rw [resolveLoop_cons hname]
    rcases h.cons_cases with ⟨hnone, rfl⟩ | ⟨child, hchild, ⟨hplain, hrest⟩ | ⟨hfinal, -⟩ |
      ⟨target, j, htarget, hplace, rfl, hrest⟩⟩
    · rw [hnone]
      rfl
    · rw [hchild]
      simp only [followLinks_of_plain hplain, skipSep_tail]
      exact ih ((hlinks child hchild).1 hplain) hnames hrest hleft hm
    · cases hfinal
    · obtain ⟨hleads, hbehind⟩ := (hlinks child hchild).2 target htarget
      obtain ⟨i, r', hi, hfollows, hr⟩ := hleads.behind hrest hplace
      obtain ⟨l, rfl⟩ : ∃ l, left = l + 1 := ⟨left - 1, by omega⟩
      rw [hchild]
      simp only [followLinks_root htarget hleads.1 hleads.2.1, skipSep_tail]
      rw [skipSep_joined hnames, ← hr]
      exact ih hbehind hnames hfollows (by omega) hm

/-- The same for `vfs_resolve_path_no_follow`. -/
theorem LinksToRoot.noFollowLoop
    (hlinks : T.LinksToRoot root dir comps) (hcomps : ∀ name ∈ comps, Component name)
    (h : T.Follows root false k dir comps r) (hleft : k ≤ left)
    (hn : (joined slash comps).length ≤ n) :
    ∃ r', T.noFollowLoop root n left dir (joined slash comps) = some r' ∧
      r'.map T.vfsResolveMount = r.map T.vfsResolveMount := by
  induction comps generalizing dir k r left n with
  | nil =>
    cases h
    refine ⟨some dir, ?_, rfl⟩
    unfold FileTree.noFollowLoop
    rfl
  | cons name names ih =>
    obtain ⟨hname, hnames⟩ := List.forall_mem_cons.mp hcomps
    obtain ⟨m, rfl, hm⟩ := length_joined_succ hname hn
    rw [noFollowLoop_cons hname]
    rcases h.cons_cases with ⟨hnone, rfl⟩ | ⟨child, hchild, ⟨hplain, hrest⟩ | ⟨-, rfl, rfl⟩ |
      ⟨target, j, htarget, hplace, rfl, hrest⟩⟩
    · rw [hnone]
      exact ⟨none, rfl, rfl⟩
    · have hih := ih ((hlinks child hchild).1 hplain) hnames hrest hleft hm
      rw [hchild]
      simp only [followMiddle_of_plain hplain]
      split
      next hnil =>
        rw [hnil] at hih
        exact hih
      · exact hih
    · rw [hchild]
      refine ⟨some child, ?_, rfl⟩
      simp only [if_pos]
      unfold FileTree.noFollowLoop
      rfl
    · obtain ⟨hleads, hbehind⟩ := (hlinks child hchild).2 target htarget
      obtain ⟨i, r', hi, hfollows, hr⟩ := hleads.behind hrest hplace
      obtain ⟨l, rfl⟩ : ∃ l, left = l + 1 := ⟨left - 1, by omega⟩
      rw [hchild]
      simp only [if_neg (hplace.resolve_left (by decide)),
        followMiddle_root htarget hleads.1 hleads.2.1]
      rw [← hr]
      exact ih hbehind hnames hfollows (by omega) hm

theorem mount_linkOp (hmounts : T.PlainMounts) (h : T.linkOp dir = none) :
    T.linkOp (T.vfsResolveMount dir) = none := by
  unfold vfsResolveMount
  split
  · rename_i m hfind
    exact linkOp_of_plain (hmounts m (List.mem_of_find?_eq_some hfind))
  · exact h

/-- `vfs_resolve_path` gives what its loop comes to. -/
theorem vfsResolvePath_eq (hroot : T.root = some root) (hmounts : T.PlainMounts)
    (hcomps : ∀ name ∈ comps, Component name) (n : Nat) (lead : Bool) :
    T.vfsResolvePath (n + 1) (pathText lead comps) =
      (T.resolveLoop root (joined slash comps).length 9 root (joined slash comps)).map
        (Option.map fun p => T.vfsResolveMount p.1) := by
  unfold vfsResolvePath
  simp only [hroot, skipSep_pathText hcomps]
  split
  next hnil =>
    rw [hnil]
    rfl
  next hne =>
    cases hloop : T.resolveLoop root (joined slash comps).length 9 root (joined slash comps) with
    | none => rfl
    | some out =>
      cases out with
      | none => rfl
      | some p =>
        have hend := resolveLoop_end (fun hnil => absurd hnil hne) hloop
        simp only [mount_linkOp hmounts hend, Option.map_some]

theorem LinksToRoot.vfsResolvePathNoFollow (hlinks : T.LinksToRoot root root comps)
    (hroot : T.root = some root) (hcomps : ∀ name ∈ comps, Component name)
    (h : T.Follows root false k root comps r) (hk : k ≤ 9) (lead : Bool) :
    T.vfsResolvePathNoFollow (pathText lead comps) = some (r.map T.vfsResolveMount) := by
  obtain ⟨r', hloop, hr⟩ := hlinks.noFollowLoop hcomps h hk le_rfl
  unfold FileTree.vfsResolvePathNoFollow
  simp only [hroot, skipSep_pathText hcomps]
  rw [hloop, ← hr]
  split
  next hnil =>
    rw [hnil] at hloop
    cases hloop
    rfl
  · cases r' with
    | none => rfl
    | some inode => rfl

/-- A way without links is followed component by component. -/
theorem walkFrom_follows (final : Bool) (hplain : ∀ first, first <+: comps → first ≠ [] →
      ∀ inode, T.walkFrom dir first = some inode → T.iType inode ≠ .symlink) :
    T.Follows root final 0 dir comps (T.walkFrom dir comps) ∧ T.LinksToRoot root dir comps := by
  induction comps generalizing dir with
  | nil => exact ⟨.done dir, trivial⟩
  | cons name names ih =>
    rw [walkFrom]
    cases hchild : T.lookupIn (T.vfsResolveMount dir) name with
    | none =>
      exact ⟨.missing hchild, fun child hsome => absurd (hsome.symm.trans hchild) (by simp)⟩
    | some child =>
      have hone : T.linkOp child = none := linkOp_of_plain
        (hplain [name] (List.prefix_append [name] names) (List.cons_ne_nil _ _) child
          (by simp [walkFrom, hchild]))
      obtain ⟨hfollows, hlinks⟩ : T.Follows root final 0 child names _ ∧ _ :=
        ih fun first hfirst _ inode hwalk => hplain (name :: first)
          (List.cons_prefix_cons.mpr ⟨rfl, hfirst⟩) (List.cons_ne_nil _ _) inode
          (by rw [walkFrom, hchild]; exact hwalk)
      refine ⟨.plain hchild hone hfollows, fun child' hchild' => ?_⟩
      obtain rfl := Option.some.inj (hchild.symm.trans hchild')
      exact ⟨fun _ => hlinks, fun _ htarget => absurd hone htarget.not_plain⟩

theorem resolve_plain (hlinks : T.NoLinks comps) (hmounts : T.PlainMounts)
    (hcomps : ∀ name ∈ comps, Component name) (lead : Bool) (n : Nat) :
    T.vfsResolvePath (n + 1) (pathText lead comps) = some (T.resolveFold comps) ∧
      T.vfsResolvePathNoFollow (pathText lead comps) = some (T.resolveFold comps) := by
  cases hroot : T.root with
  | none => simp [vfsResolvePath, FileTree.vfsResolvePathNoFollow, resolveFold, hroot]
  | some root =>
    have hplain := fun first hfirst hne => hlinks first hfirst hne root hroot
    obtain ⟨hfollows, hlinks⟩ : T.Follows root true _ _ _ _ ∧ T.LinksToRoot root _ _ :=
      walkFrom_follows true hplain
    have hmiddle : T.Follows root false _ _ _ _ := (walkFrom_follows false hplain).1
    have hfold : T.resolveFold comps = (T.walkFrom root comps).map T.vfsResolveMount := by
      rw [resolveFold, hroot, Option.bind_some]
    rw [hfold, vfsResolvePath_eq hroot hmounts hcomps]
    exact ⟨hlinks.loopRight hcomps hfollows (Nat.zero_le _) le_rfl,
      hlinks.vfsResolvePathNoFollow hroot hcomps hmiddle (Nat.zero_le _) lead⟩

end Loops

section Fold

theorem NoLinks.left
    {T : FileTree ι κ} {first second : List Text} (h : T.NoLinks (first ++ second)) :
    T.NoLinks first :=
  fun sub hsub => h sub (hsub.trans (List.prefix_append _ _))

theorem resolveFold_snoc (T : FileTree ι κ) (first : List Text) (name : Text) :
    T.resolveFold (first ++ [name]) =
      (T.resolveFold first).bind (fun dir => (T.lookupIn dir name).map T.vfsResolveMount) := by
  unfold resolveFold
  cases T.root with
  | none => rfl
  | some root =>
    simp only [Option.bind_some, walkFrom_append]
    cases T.walkFrom root first with
    | none => rfl
    | some inode => simp [walkFrom]

/--
On a path without symbolic links the two resolvers agree with the fold over its
components, and so does the lookup of its name in its directory part.
-/
theorem resolve_path_is_fold
    (T : FileTree ι κ) (hmounts : T.PlainMounts) (lead : Bool) (comps : List Text)
    (hcomps : ∀ name ∈ comps, Component name) (hlen : (pathText lead comps).length ≤ 255)
    (hlinks : T.NoLinks comps) (n : Nat) :
    T.vfsResolvePath (n + 1) (pathText lead comps) = some (T.resolveFold comps) ∧
      T.vfsResolvePathNoFollow (pathText lead comps) = some (T.resolveFold comps) ∧
      (comps ≠ [] → ∃ dir,
        T.vfsResolvePath (n + 1) (vfsSplitPath (pathText lead comps) 256 64).1 = some dir ∧
        T.resolveFold comps = dir.bind (fun d =>
          (T.lookupIn d (vfsSplitPath (pathText lead comps) 256 64).2).map T.vfsResolveMount)) := by
  obtain ⟨hfollow, hnoFollow⟩ := resolve_plain hlinks hmounts hcomps lead n
  refine ⟨hfollow, hnoFollow, ?_⟩
  intro hne
  obtain ⟨first, name, rfl⟩ : ∃ first name, comps = first ++ [name] :=
    ⟨comps.dropLast, comps.getLast hne, (List.dropLast_append_getLast hne).symm⟩
  have hfirst : ∀ x ∈ first, Component x := fun x hx => hcomps x (List.mem_append_left _ hx)
  have hname : Component name := hcomps name (by simp)
  have hsplit : vfsSplitPath (pathText lead (first ++ [name])) 256 64 =
      (pathText true first, name) := by
    rw [vfsSplitPath_joined (skipSep_pathText hcomps lead) hname.2.2 hlen,
      List.take_of_length_le hname.2.1]
    rfl
  rw [hsplit]
  refine ⟨T.resolveFold first, (resolve_plain hlinks.left hmounts hfirst true n).1, ?_⟩
  exact T.resolveFold_snoc first name

/-- A root directory with a directory `a`, where a file system with a file `b` is mounted. -/
def smallTree (mounted : InodeType) : FileTree Nat Unit where
  iNo := id
  iType := fun i => if i = 2 then mounted else if i = 3 then .file else .dir
  ops := fun _ => some ()
  lookup := fun _ => some (fun i name =>
    if i = 0 ∧ name = [0x61#8] then some 1
    else if i = 2 ∧ name = [0x62#8] then some 3
    else none)
  readlink := fun _ => some (fun _ => some [slash])
  mounts := [(1, 2)]
  root := some 0

/-- `/a/b`, and `b` in the directory `/a`. -/
theorem resolve_path_is_fold_small :
    (smallTree .dir).PlainMounts ∧ (smallTree .dir).NoLinks [[0x61#8], [0x62#8]] ∧
      (smallTree .dir).vfsResolvePath 1 [slash, 0x61#8, slash, 0x62#8] = some (some 3) ∧
      (smallTree .dir).vfsResolvePathNoFollow [slash, 0x61#8, slash, 0x62#8] = some (some 3) ∧
      vfsSplitPath [slash, 0x61#8, slash, 0x62#8] 256 64 = ([slash, 0x61#8], [0x62#8]) ∧
      ∃ dir, (smallTree .dir).vfsResolvePath 1 [slash, 0x61#8] = some dir ∧
        some 3 = dir.bind (fun d => ((smallTree .dir).lookupIn d [0x62#8]).map
          (smallTree .dir).vfsResolveMount) := by
  have hdirs : ∀ inode, (smallTree .dir).iType inode ≠ .symlink := by
    intro inode
    change (if inode = 2 then InodeType.dir else if inode = 3 then .file else .dir) ≠ .symlink
    split_ifs <;> decide
  have hmounts : (smallTree .dir).PlainMounts := fun m _ => hdirs m.2
  have hlinks : (smallTree .dir).NoLinks [[0x61#8], [0x62#8]] :=
    fun _ _ _ _ _ inode _ => hdirs inode
  obtain ⟨hfollow, hnoFollow, hsplit⟩ := resolve_path_is_fold (smallTree .dir) hmounts true
    [[0x61#8], [0x62#8]] (by simp [Component, IsPart, slash]) (by decide) hlinks 0
  exact ⟨hmounts, hlinks, hfollow, hnoFollow, by decide, hsplit (List.cons_ne_nil _ _)⟩

/--
A path without a component is not the lookup of its name in its directory part;
and with a symbolic link as the root of a mount the two resolvers do not agree.
-/
theorem split_and_mounted_link_differ :
    ((smallTree .dir).vfsResolvePath 1 (pathText true []) = some (some 0) ∧
      vfsSplitPath (pathText true []) 256 64 = ([slash], []) ∧
      (smallTree .dir).lookupIn 0 [] = none) ∧
    ((smallTree .symlink).vfsResolvePath 2 [slash, 0x61#8] = some (some 0) ∧
      (smallTree .symlink).vfsResolvePathNoFollow [slash, 0x61#8] = some (some 2)) := by
  decide

end Fold

end FileTree

end Vfs
end Homunculos
