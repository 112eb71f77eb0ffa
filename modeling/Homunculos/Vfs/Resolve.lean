import Homunculos.Ext2.FileData
import Homunculos.Lib.Parts

/-!
# Path resolution

`vfs_resolve_mount`, `vfs_resolve_path`, `vfs_resolve_path_no_follow` and
`vfs_split_path`.  The file systems are whatever stands behind the operation
tables: a table has a lookup and a readlink, or a null pointer in their place.
Both resolvers read the path through a buffer of 64 bytes.
-/

namespace Homunculos
namespace Vfs

open Ext2 Parts

/-- A C string without its final zero byte. -/
abbrev Text := List (BitVec 8)

def slash : BitVec 8 := 0x2f#8

/--
What path resolution sees of the inodes: their numbers, types and operation
tables, the calls in these tables, the mount table and `vfs_root`.
-/
structure FileTree (ι κ : Type) where
  iNo : ι → Nat
  iType : ι → InodeType
  ops : ι → Option κ
  lookup : κ → Option (ι → Text → Option ι)
  readlink : κ → Option (ι → Option Text)
  mounts : List (ι × ι)
  root : Option ι

namespace FileTree

variable {ι κ : Type} [DecidableEq κ] (T : FileTree ι κ)

/-- `vfs_resolve_mount`: a mount point is known by its number and its table. -/
def vfsResolveMount (inode : ι) : ι :=
  match T.mounts.find? (fun m => decide (T.iNo m.1 = T.iNo inode ∧ T.ops m.1 = T.ops inode)) with
  | some m => m.2
  | none => inode

/-- The lookup of an inode, if there is a table and the table has one. -/
def lookupOp (inode : ι) : Option (ι → Text → Option ι) :=
  (T.ops inode).bind T.lookup

/-- The readlink of a symbolic link that the resolvers follow. -/
def linkOp (inode : ι) : Option (ι → Option Text) :=
  if T.iType inode = .symlink then (T.ops inode).bind T.readlink else none

/-- The inner loop of `vfs_resolve_path`, which follows symbolic links: `left` more of them are
allowed. Gives the inode, the links that are left and the path; `some none` is a return of 0, and
`none` is a call through a null pointer. -/
def followLinks (root : ι) : Nat → ι → Text → Option (Option (ι × Nat × Text))
  | left, current, path =>
    match T.linkOp current with
    | none => some (some (current, left, path))
    | some readlink =>
      match left with
      | 0 => some none
      | left + 1 =>
        match readlink current with
        | none => some none
        | some target =>
          if target.head? = some slash then
            followLinks root left root (skipSep slash path)
          else
            match T.lookupOp (T.vfsResolveMount current) with
            | none => none
            | some lookup =>
              match lookup (T.vfsResolveMount current) target with
              | none => some none
              | some next => followLinks root left next path

/-- The outer loop of `vfs_resolve_path`; it ends after as many rounds as bytes. -/
def resolveLoop (root : ι) : Nat → Nat → ι → Text → Option (Option (ι × Nat))
  | _, left, current, [] => some (some (current, left))
  | 0, _, _, _ :: _ => none
  | n + 1, left, current, c :: text =>
    let next := nextPart slash 63 (c :: text)
    let dir := T.vfsResolveMount current
    match T.lookupOp dir with
    | none => some none
    | some lookup =>
      match lookup dir next.1 with
      | none => some none
      | some child =>
        match T.followLinks root left child next.2 with
        | none => none
        | some none => some none
        | some (some (child, left, path)) => resolveLoop root n left child (skipSep slash path)

/-- `vfs_resolve_path`: the inode or 0. A symbolic link that is mounted as a root is followed at
the end, by a call of itself; `none` if that does not end. -/
def vfsResolvePath : Nat → Text → Option (Option ι)
  | 0, _ => none
  | n + 1, path =>
    match T.root with
    | none => some none
    | some root =>
      let path := skipSep slash path
      if path = [] then
        some (some (T.vfsResolveMount root))
      else
        match T.resolveLoop root path.length 9 root path with
        | none => none
        | some none => some none
        | some (some (current, left)) =>
          let current := T.vfsResolveMount current
          match T.linkOp current with
          | none => some (some current)
          | some readlink =>
            if left = 0 then
              some none
            else
              match readlink current with
              | none => some none
              | some target =>
                if target.head? = some slash then
                  vfsResolvePath n target
                else
                  let dir := T.vfsResolveMount root
                  match T.lookupOp dir with
                  | none => none
                  | some lookup => some ((lookup dir target).map T.vfsResolveMount)

/-- The inner loop of `vfs_resolve_path_no_follow`; it leaves the path alone. -/
def followMiddle (root : ι) : Nat → ι → Option (Option (ι × Nat))
  | left, current =>
    match T.linkOp current with
    | none => some (some (current, left))
    | some readlink =>
      match left with
      | 0 => some none
      | left + 1 =>
        match readlink current with
        | none => some none
        | some target =>
          if target.head? = some slash then
            followMiddle root left root
          else
            match T.lookupOp (T.vfsResolveMount current) with
            | none => none
            | some lookup =>
              match lookup (T.vfsResolveMount current) target with
              | none => some none
              | some next => followMiddle root left next

/-- The outer loop of `vfs_resolve_path_no_follow`. -/
def noFollowLoop (root : ι) : Nat → Nat → ι → Text → Option (Option ι)
  | _, _, current, [] => some (some current)
  | 0, _, _, _ :: _ => none
  | n + 1, left, current, c :: text =>
    let next := nextPart slash 63 (c :: text)
    let dir := T.vfsResolveMount current
    match T.lookupOp dir with
    | none => some none
    | some lookup =>
      match lookup dir next.1 with
      | none => some none
      | some child =>
        if next.2.head? = some slash then
          match T.followMiddle root left child with
          | none => none
          | some none => some none
          | some (some (child, left)) => noFollowLoop root n left child next.2.tail
        else
          noFollowLoop root n left child next.2

def vfsResolvePathNoFollow (path : Text) : Option (Option ι) :=
  match T.root with
  | none => some none
  | some root =>
    let path := skipSep slash path
    if path = [] then
      some (some (T.vfsResolveMount root))
    else
      match T.noFollowLoop root path.length 9 root path with
      | none => none
      | some none => some none
      | some (some current) => some (some (T.vfsResolveMount current))

end FileTree

/-- `vfs_split_path` with buffers for the directory and the name. -/
def vfsSplitPath (path : Text) (dirSize nameSize : Nat) : Text × Text :=
  let p := skipSep slash path
  match lastSepFrom slash 0 none p with
  | some last =>
    (slash :: (p.take last).take (dirSize - 2), (p.drop (last + 1)).take (nameSize - 1))
  | none => ([slash], p.take (nameSize - 1))

/-- A path of components, with or without a slash in front. -/
def pathText (lead : Bool) (comps : List Text) : Text :=
  if lead then slash :: joined slash comps else joined slash comps

/-- A component of 1 to 63 bytes. -/
def Component (name : Text) : Prop :=
  IsPart slash 63 name

namespace FileTree

variable {ι κ : Type} [DecidableEq κ] (T : FileTree ι κ)

/-- A component is looked up in an inode; 0 if the inode has no lookup. -/
def lookupIn (dir : ι) (name : Text) : Option ι :=
  (T.lookupOp dir).bind (fun lookup => lookup dir name)

/-- Component by component: first the mount, then the lookup. -/
def walkFrom : ι → List Text → Option ι
  | current, [] => some current
  | current, name :: names =>
    (T.lookupIn (T.vfsResolveMount current) name).bind (fun next => walkFrom next names)

/-- What path resolution is for, when there are no symbolic links. -/
def resolveFold (comps : List Text) : Option ι :=
  (T.root.bind (fun root => T.walkFrom root comps)).map T.vfsResolveMount

/-- No inode on the way of the components is a symbolic link. -/
def NoLinks (comps : List Text) : Prop :=
  ∀ first, first <+: comps → first ≠ [] → ∀ root, T.root = some root →
    ∀ inode, T.walkFrom root first = some inode → T.iType inode ≠ .symlink

/-- What is mounted is not a symbolic link. -/
def PlainMounts : Prop :=
  ∀ m ∈ T.mounts, T.iType m.2 ≠ .symlink

section Plain

variable {T} {root current : ι} {comps : List Text} {n left : Nat} {path : Text}

omit [DecidableEq κ] in
theorem linkOp_of_plain (h : T.iType current ≠ .symlink) :
    T.linkOp current = none :=
  if_neg h

theorem followLinks_of_plain (h : T.linkOp current = none) :
    T.followLinks root left current path = some (some (current, left, path)) := by
  unfold followLinks
  rw [h]

theorem followMiddle_of_plain (h : T.linkOp current = none) :
    T.followMiddle root left current = some (some (current, left)) := by
  unfold followMiddle
  rw [h]

theorem walkFrom_append (first second : List Text) :
    T.walkFrom current (first ++ second) =
      (T.walkFrom current first).bind (fun next => T.walkFrom next second) := by
  induction first generalizing current with
  | nil => rfl
  | cons name first ih =>
    rw [List.cons_append, walkFrom, walkFrom, Option.bind_assoc]
    exact Option.bind_congr (fun next _ => ih)

variable {name : Text}

theorem joined_next (hname : Component name) (comps : List Text) :
    ∃ c text, joined slash (name :: comps) = c :: text ∧
      nextPart slash 63 (c :: text) = (name, Parts.tail slash comps) := by
  have hpart : nextPart slash 63 (joined slash (name :: comps)) =
      (name, Parts.tail slash comps) :=
    nextPart_joined hname
  obtain ⟨c, text, htext⟩ : ∃ c text, joined slash (name :: comps) = c :: text := by
    apply List.exists_cons_of_ne_nil
    rw [joined_cons]
    exact List.append_ne_nil_of_left_ne_nil hname.1 _
  exact ⟨c, text, htext, htext ▸ hpart⟩

/-- One round of the outer loop of `vfs_resolve_path`. -/
theorem resolveLoop_cons
    (hname : Component name) (root current : ι) (n left : Nat) (comps : List Text) :
    T.resolveLoop root (n + 1) left current (joined slash (name :: comps)) =
      match T.lookupIn (T.vfsResolveMount current) name with
      | none => some none
      | some child =>
        match T.followLinks root left child (Parts.tail slash comps) with
        | none => none
        | some none => some none
        | some (some (child, left, path)) =>
          T.resolveLoop root n left child (skipSep slash path) := by
  obtain ⟨c, text, htext, hpart⟩ := joined_next hname comps
  rw [htext]
  rw [resolveLoop]
  simp only [hpart, lookupIn]
  cases T.lookupOp (T.vfsResolveMount current) with
  | none => rfl
  | some lookup => simp only [Option.bind_some]

/-- One round of the outer loop of `vfs_resolve_path_no_follow`. -/
theorem noFollowLoop_cons
    (hname : Component name) (root current : ι) (n left : Nat) (comps : List Text) :
    T.noFollowLoop root (n + 1) left current (joined slash (name :: comps)) =
      match T.lookupIn (T.vfsResolveMount current) name with
      | none => some none
      | some child =>
        if comps = [] then
          T.noFollowLoop root n left child []
        else
          match T.followMiddle root left child with
          | none => none
          | some none => some none
          | some (some (child, left)) => T.noFollowLoop root n left child (joined slash comps) := by
  obtain ⟨c, text, htext, hpart⟩ := joined_next hname comps
  rw [htext]
  rw [noFollowLoop]
  simp only [hpart, lookupIn]
  cases T.lookupOp (T.vfsResolveMount current) with
  | none => rfl
  | some lookup =>
    simp only [Option.bind_some]
    cases lookup (T.vfsResolveMount current) name with
    | none => rfl
    | some child =>
      cases comps with
      | nil => rfl
      | cons next comps => rfl

theorem length_joined_succ
    (hname : Component name) (hn : (joined slash (name :: comps)).length ≤ n) :
    ∃ m, n = m + 1 ∧ (joined slash comps).length ≤ m := by
  have hlt : (Parts.tail slash comps).length < (joined slash (name :: comps)).length :=
    length_tail_lt hname.1
  have hle : (joined slash comps).length ≤ (Parts.tail slash comps).length :=
    length_joined_le_tail comps
  exact ⟨n - 1, by omega, by omega⟩

variable (hcomps : ∀ name ∈ comps, Component name)
include hcomps

theorem skipSep_pathText (lead : Bool) :
    skipSep slash (pathText lead comps) = joined slash comps := by
  cases lead with
  | true => simp [pathText, skipSep]
  | false => exact skipSep_joined hcomps

end Plain

end FileTree

theorem vfsSplitPath_joined
    {path name : Text} {first : List Text}
    (hpath : skipSep slash path = joined slash (first ++ [name]))
    (hname : slash ∉ name) (hlen : path.length ≤ 255) :
    vfsSplitPath path 256 64 = (slash :: joined slash first, name.take 63) := by
  have hle : (joined slash (first ++ [name])).length ≤ 255 :=
    hpath ▸ (length_skipSep_le slash path).trans hlen
  unfold vfsSplitPath
  simp only [hpath]
  by_cases hnil : first = []
  · subst hnil
    have hnone : lastSepFrom slash 0 none (joined slash ([] ++ [name])) = none :=
      lastSepFrom_of_notMem _ _ hname
    rw [hnone]
    rfl
  · have hlen' : (joined slash first).length ≤ 254 := by
      rw [joined_snoc hnil, List.length_append, List.length_cons] at hle
      omega
    rw [lastSep_snoc hnil hname, joined_snoc hnil]
    simp only [List.take_left, List.take_of_length_le hlen']
    have hdrop : (joined slash first ++ slash :: name).drop ((joined slash first).length + 1) =
        name := by
      simp
    rw [hdrop]

end Vfs
end Homunculos
