import Homunculos.Lib.Bytes
import Homunculos.Lib.Tiling

/-!
# Directory records

`struct ext2_dirent` inside a block, and the three ways in which
`ext2_add_entry` makes room for a new one: it takes over a dead record, it
splits a dead record, or it splits the unused end of a live record.  Each of them
replaces one record of a tiling by one or two that tile the same bytes, and adds
one name.
-/

namespace Homunculos
namespace Ext2

open Bytes Tiling

/-- `(n + 3) & ~3` -/
def round4 (n : Nat) : Nat :=
  (n + 3) / 4 * 4

/-- `struct ext2_dirent` with its name. -/
structure Dirent where
  inode : Nat
  recLen : Nat
  name : List (BitVec 8)
deriving DecidableEq

/-- The record at an offset of a block. -/
def direntAt (m : Nat → BitVec 8) (o : Nat) : Dirent where
  inode := u32 m o
  recLen := u16 m (o + 4)
  name := (List.range (m (o + 6)).toNat).map (fun k => m (o + 8 + k))

/-- The bytes that the record itself needs. -/
def Dirent.used (d : Dirent) : Nat :=
  round4 (8 + d.name.length)

/-- `rec_len - used`, in 32 bits. -/
def Dirent.slack (d : Dirent) : Nat :=
  (d.recLen + (2 ^ 32 - d.used)) % 2 ^ 32

def needRecLen (name : List (BitVec 8)) : Nat :=
  max 12 (round4 (8 + name.length))

/-- Room for a new record: a dead record, or the end of a live one. -/
inductive Room where
  | dead (recLen slack : Nat)
  | live (recLen used : Nat)
deriving DecidableEq

/-- The two tests of `ext2_add_entry` at a record. -/
def roomIn (need : Nat) (d : Dirent) : Option Room :=
  if d.inode = 0 ∧ need ≤ d.slack then
    some (.dead d.recLen d.slack)
  else if need < d.recLen ∧ d.inode ≠ 0 then
    if d.recLen < d.used + need then
      none
    else
      some (.live d.recLen d.used)
  else
    none

/-- `memcpy (de->name, name, name_len)` -/
def putName (m : Nat → BitVec 8) (o : Nat) (name : List (BitVec 8)) : Nat → BitVec 8 :=
  copy m (o + 8) (fun k => name.getD k 0#8) name.length

/-- A dead record is taken over and, if its slack is larger than needed, split. The length that
is left is stored in 16 bits, and wraps if the slack did. -/
def reuseDirent (m : Nat → BitVec 8) (o recLen slack inode : Nat)
    (name : List (BitVec 8)) : Nat → BitVec 8 :=
  let need := needRecLen name
  let m := putName (putU8 (putU8 (putU32 m o inode) (o + 6) name.length) (o + 7) 1) o name
  if need < slack then
    let rest := (recLen + (2 ^ 16 - need % 2 ^ 16)) % 2 ^ 16
    putU16 (putU8 (putU16 (putU32 m (o + need) 0) (o + need + 4) rest)
      (o + need + 6) 0) (o + 4) need
  else
    m

/-- A record is written with all its fields. -/
def putDirent (m : Nat → BitVec 8) (o inode recLen : Nat)
    (name : List (BitVec 8)) : Nat → BitVec 8 :=
  putName (putU8 (putU8 (putU16 (putU32 m o inode) (o + 4) recLen) (o + 6) name.length)
    (o + 7) 1) o name

/-- A live record is cut down to what it needs, with a new record behind it. -/
def splitDirent (m : Nat → BitVec 8) (o recLen used inode : Nat)
    (name : List (BitVec 8)) : Nat → BitVec 8 :=
  putDirent (putU16 m (o + 4) used) (o + used) inode (recLen - used) name

/-- The new record is put into the room that was found. -/
def fillRoom (m : Nat → BitVec 8) (o : Nat) (inode : Nat)
    (name : List (BitVec 8)) : Room → Nat → BitVec 8
  | .dead recLen slack => reuseDirent m o recLen slack inode name
  | .live recLen used => splitDirent m o recLen used inode name

/-- The record is long enough and keeps the alignment. -/
structure Dirent.Ok (d : Dirent) : Prop where
  aligned : d.recLen % 4 = 0
  fits : d.used ≤ d.recLen

/-- The bytes from `o` to `e` are tiled by records. -/
structure Records (m : Nat → BitVec 8) (o e : Nat) (ds : List Dirent) : Prop where
  tiled : Tiled (direntAt m) Dirent.recLen o e ds
  ok : ∀ d ∈ ds, d.Ok

/-- The names of live records with their inodes. -/
def bindings (ds : List Dirent) : List (List (BitVec 8) × Nat) :=
  (ds.filter (fun d => d.inode ≠ 0)).map (fun d => (d.name, d.inode))

section Decode

variable {m m' : Nat → BitVec 8} {o e : Nat} {name : List (BitVec 8)}

theorem round4_le (n : Nat) :
    n ≤ round4 n ∧ round4 n < n + 4 ∧ round4 n % 4 = 0 := by
  unfold round4
  omega

theorem Dirent.Ok.header {d : Dirent} (h : d.Ok) :
    8 + d.name.length ≤ d.recLen := by
  have hround := (round4_le (8 + d.name.length)).1
  have hfits := h.fits
  unfold Dirent.used at hfits
  omega

theorem direntAt_name_length (m : Nat → BitVec 8) (o : Nat) :
    (direntAt m o).name.length = (m (o + 6)).toNat := by
  simp [direntAt]

theorem direntAt_congr (h : ∀ q, o ≤ q → q < o + 8 + (direntAt m o).name.length → m' q = m q) :
    direntAt m' o = direntAt m o := by
  rw [direntAt_name_length] at h
  have hinode : u32 m' o = u32 m o := u32_congr (fun j hj => h (o + j) (by omega) (by omega))
  have hlen : u16 m' (o + 4) = u16 m (o + 4) :=
    u16_congr (fun j hj => h (o + 4 + j) (by omega) (by omega))
  have hname : (List.range (m' (o + 6)).toNat).map (fun k => m' (o + 8 + k)) =
      (List.range (m (o + 6)).toNat).map (fun k => m (o + 8 + k)) := by
    rw [h (o + 6) (by omega) (by omega)]
    apply List.map_congr_left
    intro k hk
    have hk' := List.mem_range.mp hk
    exact h (o + 8 + k) (by omega) (by omega)
  unfold direntAt
  rw [hinode, hlen, hname]

theorem direntAt_eq {inode recLen : Nat} (hname : name.length < 256) (hinode : u32 m o = inode)
    (hlen : u16 m (o + 4) = recLen) (hnameLen : m (o + 6) = BitVec.ofNat 8 name.length)
    (hbytes : ∀ k, k < name.length → m (o + 8 + k) = name.getD k 0#8) :
    direntAt m o = ⟨inode, recLen, name⟩ := by
  have hcount : (m (o + 6)).toNat = name.length := by
    rw [hnameLen, BitVec.toNat_ofNat, Nat.mod_eq_of_lt hname]
  have hlist : (List.range (m (o + 6)).toNat).map (fun k => m (o + 8 + k)) = name := by
    rw [hcount]
    apply List.ext_getElem
    · simp
    · intro k hk hk'
      simp [hbytes k hk', hk']
  unfold direntAt
  rw [hinode, hlen, hlist]

theorem Records.congr
    {ds : List Dirent} (h : Records m o e ds) (hsame : ∀ q, o ≤ q → q < e → m' q = m q) :
    Records m' o e ds := by
  refine ⟨h.tiled.congr ?_, h.ok⟩
  intro p hp hmem hend
  have hheader := (h.ok _ hmem).header
  apply direntAt_congr
  intro q hq hq'
  exact hsame q (by omega) (by omega)

theorem Records.append
    {p : Nat} {ds ds' : List Dirent} (h : Records m o p ds) (h' : Records m p e ds') :
    Records m o e (ds ++ ds') := by
  refine ⟨h.tiled.append h'.tiled, ?_⟩
  intro d hd
  rcases List.mem_append.mp hd with hd | hd
  · exact h.ok d hd
  · exact h'.ok d hd

theorem Records.single {d : Dirent} (hd : direntAt m o = d) (hok : d.Ok) :
    Records m o (o + d.recLen) [d] := by
  have hheader := hok.header
  subst hd
  refine ⟨Tiled.step (by omega) (Tiled.done _), ?_⟩
  intro d hd
  rw [List.mem_singleton.mp hd]
  exact hok

/-- Records between `p` and `q` are replaced, and the bytes around them are kept. -/
theorem Records.replace
    {p q : Nat} {pre new post : List Dirent} (hpre : Records m o p pre) (hnew : Records m' p q new)
    (hpost : Records m q e post) (hframe : ∀ i, i < p ∨ q ≤ i → m' i = m i) :
    Records m' o e (pre ++ (new ++ post)) :=
  (hpre.congr (fun i _ hi => hframe i (Or.inl hi))).append
    (hnew.append (hpost.congr (fun i hi _ => hframe i (Or.inr hi))))

theorem putName_outside {k : Nat} (h : k < o + 8 ∨ o + 8 + name.length ≤ k) :
    putName m o name k = m k :=
  copy_outside h

theorem putName_inside {k : Nat} (h : k < name.length) :
    putName m o name (o + 8 + k) = name.getD k 0#8 := by
  unfold putName
  rw [copy_inside (by omega) (by omega), Nat.add_sub_cancel_left]

theorem needRecLen_bounds (name : List (BitVec 8)) :
    12 ≤ needRecLen name ∧ round4 (8 + name.length) ≤ needRecLen name ∧
      needRecLen name % 4 = 0 ∧ needRecLen name < 16 + name.length := by
  have hround := round4_le (8 + name.length)
  unfold needRecLen
  omega

end Decode

section Edits

variable {m : Nat → BitVec 8} {o inode recLen : Nat} {name : List (BitVec 8)}

theorem direntAt_putDirent
    (hname : name.length < 256) (hinode : inode < 2 ^ 32) (hlen : recLen < 65536) :
    direntAt (putDirent m o inode recLen name) o = ⟨inode, recLen, name⟩ := by
  apply direntAt_eq hname
  · have hword : u32 (putDirent m o inode recLen name) o = u32 (putU32 m o inode) o := by
      apply u32_congr
      intro j hj
      unfold putDirent
      rw [putName_outside (by omega), putU8_of_ne (by omega), putU8_of_ne (by omega),
        putU16_of_ne (by omega) (by omega)]
    rw [hword, u32_putU32_self, Nat.mod_eq_of_lt hinode]
  · have hword : u16 (putDirent m o inode recLen name) (o + 4) =
        u16 (putU16 (putU32 m o inode) (o + 4) recLen) (o + 4) := by
      apply u16_congr
      intro j hj
      unfold putDirent
      rw [putName_outside (by omega), putU8_of_ne (by omega), putU8_of_ne (by omega)]
    rw [hword, u16_putU16_self, Nat.mod_eq_of_lt hlen]
  · unfold putDirent
    rw [putName_outside (by omega), putU8_of_ne (by omega), putU8_self]
  · intro k hk
    exact putName_inside hk

theorem putDirent_outside {k : Nat} (h : k < o ∨ o + 8 + name.length ≤ k) :
    putDirent m o inode recLen name k = m k := by
  unfold putDirent
  rw [putName_outside (by omega), putU8_of_ne (by omega), putU8_of_ne (by omega),
    putU16_of_ne (by omega) (by omega), putU32_of_apart (by omega)]

/-- What a dead record that is taken over becomes. -/
def reused (recLen slack inode : Nat) (name : List (BitVec 8)) : List Dirent :=
  if needRecLen name < slack then
    [⟨inode, needRecLen name, name⟩, ⟨0, recLen - needRecLen name, []⟩]
  else
    [⟨inode, recLen, name⟩]

theorem reuseDirent_outside
    {slack k : Nat} (hfits : needRecLen name < slack → needRecLen name + 8 ≤ recLen)
    (hneed : needRecLen name ≤ recLen) (h : k < o ∨ o + recLen ≤ k) :
    reuseDirent m o recLen slack inode name k = m k := by
  have hbounds := needRecLen_bounds name
  have hround := round4_le (8 + name.length)
  unfold reuseDirent
  split
  · rw [putU16_of_ne (by omega) (by omega), putU8_of_ne (by omega),
      putU16_of_ne (by omega) (by omega), putU32_of_apart (by omega),
      putName_outside (by omega), putU8_of_ne (by omega), putU8_of_ne (by omega),
      putU32_of_apart (by omega)]
  · rw [putName_outside (by omega), putU8_of_ne (by omega), putU8_of_ne (by omega),
      putU32_of_apart (by omega)]

theorem direntAt_reuseDirent {slack : Nat} (hname : name.length < 256) (hinode : inode < 2 ^ 32)
    (hold : u16 m (o + 4) = recLen) (hlen : recLen < 65536) (hneed : needRecLen name ≤ recLen) :
    direntAt (reuseDirent m o recLen slack inode name) o =
      ⟨inode, if needRecLen name < slack then needRecLen name else recLen, name⟩ := by
  have hbounds := needRecLen_bounds name
  have hround := round4_le (8 + name.length)
  unfold reuseDirent
  dsimp only
  apply direntAt_eq hname
  · have hword : ∀ m' : Nat → BitVec 8, (∀ q, q < o + 4 → m' q = putU32 m o inode q) →
        u32 m' o = inode := by
      intro m' hsame
      rw [u32_congr (fun j hj => hsame (o + j) (by omega)), u32_putU32_self,
        Nat.mod_eq_of_lt hinode]
    apply hword
    intro q hq
    split
    · rw [putU16_of_ne (by omega) (by omega), putU8_of_ne (by omega),
        putU16_of_ne (by omega) (by omega), putU32_of_apart (by omega),
        putName_outside (by omega), putU8_of_ne (by omega), putU8_of_ne (by omega)]
    · rw [putName_outside (by omega), putU8_of_ne (by omega), putU8_of_ne (by omega)]
  · split
    · rw [u16_putU16_self, Nat.mod_eq_of_lt (by omega)]
    · rw [← hold]
      apply u16_congr
      intro j hj
      rw [putName_outside (by omega), putU8_of_ne (by omega), putU8_of_ne (by omega),
        putU32_of_apart (by omega)]
  · split
    · rw [putU16_of_ne (by omega) (by omega), putU8_of_ne (by omega),
        putU16_of_ne (by omega) (by omega), putU32_of_apart (by omega),
        putName_outside (by omega), putU8_of_ne (by omega), putU8_self]
    · rw [putName_outside (by omega), putU8_of_ne (by omega), putU8_self]
  · intro k hk
    split
    · rw [putU16_of_ne (by omega) (by omega), putU8_of_ne (by omega),
        putU16_of_ne (by omega) (by omega), putU32_of_apart (by omega), putName_inside hk]
    · exact putName_inside hk

theorem direntAt_reuseDirent_rest
    {slack : Nat} (hlen : recLen < 65536) (hneed : needRecLen name ≤ recLen)
    (hsplit : needRecLen name < slack) :
    direntAt (reuseDirent m o recLen slack inode name) (o + needRecLen name) =
      ⟨0, recLen - needRecLen name, []⟩ := by
  have hbounds := needRecLen_bounds name
  have hrest : (recLen + (2 ^ 16 - needRecLen name % 2 ^ 16)) % 2 ^ 16 =
      recLen - needRecLen name := by
    omega
  unfold reuseDirent
  dsimp only
  rw [if_pos hsplit, hrest]
  generalize putName (putU8 (putU8 (putU32 m o inode) (o + 6) name.length) (o + 7) 1) o name = m1
  apply direntAt_eq (by simp)
  · refine (u32_congr fun j hj => ?_).trans (u32_putU32_self m1 (o + needRecLen name) 0)
    rw [putU16_of_ne (by omega) (by omega), putU8_of_ne (by omega),
      putU16_of_ne (by omega) (by omega)]
  · refine (u16_congr fun j hj => ?_).trans ((u16_putU16_self
      (putU32 m1 (o + needRecLen name) 0) (o + needRecLen name + 4) _).trans
        (Nat.mod_eq_of_lt (show recLen - needRecLen name < 2 ^ 16 by omega)))
    rw [putU16_of_ne (by omega) (by omega), putU8_of_ne (by omega)]
  · rw [putU16_of_ne (by omega) (by omega), putU8_self]
    rfl
  · intro k hk
    exact absurd hk (Nat.not_lt_zero k)

theorem reuseDirent_records {slack : Nat} (hname : name.length < 256) (hinode : inode < 2 ^ 32)
    (hold : u16 m (o + 4) = recLen) (hlen : recLen < 65536) (haligned : recLen % 4 = 0)
    (hneed : needRecLen name ≤ recLen)
    (hfits : needRecLen name < slack → needRecLen name + 8 ≤ recLen) :
    Records (reuseDirent m o recLen slack inode name) o (o + recLen)
      (reused recLen slack inode name) := by
  have hbounds := needRecLen_bounds name
  have hfirst : direntAt (reuseDirent m o recLen slack inode name) o = _ :=
    direntAt_reuseDirent hname hinode hold hlen hneed
  unfold reused
  by_cases hsplit : needRecLen name < slack
  · have hrest : direntAt (reuseDirent m o recLen slack inode name) (o + needRecLen name) = _ :=
      direntAt_reuseDirent_rest hlen hneed hsplit
    rw [if_pos hsplit] at hfirst ⊢
    have hrestOk : Dirent.Ok ⟨0, recLen - needRecLen name, []⟩ := by
      refine ⟨?_, ?_⟩
      · change (recLen - needRecLen name) % 4 = 0
        omega
      · change round4 (8 + 0) ≤ recLen - needRecLen name
        unfold round4
        omega
    have hend : o + recLen = o + needRecLen name + (recLen - needRecLen name) := by omega
    rw [hend]
    exact (Records.single hfirst ⟨hbounds.2.2.1, hbounds.2.1⟩).append
      (Records.single hrest hrestOk)
  · rw [if_neg hsplit] at hfirst ⊢
    exact Records.single hfirst ⟨haligned, hbounds.2.1.trans hneed⟩

theorem splitDirent_outside
    {used k : Nat} (hused : 8 ≤ used) (hfits : used + 8 + name.length ≤ recLen)
    (h : k < o ∨ o + recLen ≤ k) :
    splitDirent m o recLen used inode name k = m k := by
  unfold splitDirent
  rw [putDirent_outside (by omega), putU16_of_ne (by omega) (by omega)]

theorem splitDirent_records
    {d : Dirent} (hd : direntAt m o = d) (hok : d.Ok) (hname : name.length < 256)
    (hinode : inode < 2 ^ 32) (hlen : d.recLen < 65536)
    (hneed : d.used + needRecLen name ≤ d.recLen) :
    Records (splitDirent m o d.recLen d.used inode name) o (o + d.recLen)
      [⟨d.inode, d.used, d.name⟩, ⟨inode, d.recLen - d.used, name⟩] := by
  have hbounds := needRecLen_bounds name
  have hused := round4_le (8 + d.name.length)
  have haligned := hok.aligned
  change 8 + d.name.length ≤ d.used ∧ d.used < 8 + d.name.length + 4 ∧ d.used % 4 = 0 at hused
  have hnew : direntAt (splitDirent m o d.recLen d.used inode name) (o + d.used) =
      ⟨inode, d.recLen - d.used, name⟩ :=
    direntAt_putDirent hname hinode (by omega)
  -- the record in front keeps its bytes but for the length
  have hfront : direntAt (splitDirent m o d.recLen d.used inode name) o =
      ⟨d.inode, d.used, d.name⟩ := by
    have hbytes : ∀ q, q < o + d.used → splitDirent m o d.recLen d.used inode name q =
        putU16 m (o + 4) d.used q := by
      intro q hq
      exact putDirent_outside (Or.inl hq)
    have hsame : direntAt (splitDirent m o d.recLen d.used inode name) o =
        direntAt (putU16 m (o + 4) d.used) o := by
      apply direntAt_congr
      intro q _ hq
      apply hbytes
      rw [direntAt_name_length, putU16_of_ne (by omega) (by omega), ← direntAt_name_length,
        hd] at hq
      omega
    rw [hsame]
    unfold direntAt
    rw [u32_putU16_of_apart (by omega), u16_putU16_self, Nat.mod_eq_of_lt (by omega),
      putU16_of_ne (by omega) (by omega), ← hd]
    congr 1
    apply List.map_congr_left
    intro k _
    exact putU16_of_ne (by omega) (by omega)
  have hend : o + d.recLen = o + d.used + (d.recLen - d.used) := by omega
  rw [hend]
  refine (Records.single hfront ⟨hused.2.2, le_refl _⟩).append (Records.single hnew ⟨?_, ?_⟩)
  · change (d.recLen - d.used) % 4 = 0
    omega
  · change round4 (8 + name.length) ≤ d.recLen - d.used
    omega

/-- What the record with room for the new one becomes. -/
def filled (d : Dirent) (inode : Nat) (name : List (BitVec 8)) : Room → List Dirent
  | .dead recLen slack => reused recLen slack inode name
  | .live recLen used => [⟨d.inode, used, d.name⟩, ⟨inode, recLen - used, name⟩]

theorem Dirent.Ok.slack_eq {d : Dirent} (h : d.Ok) (hlen : d.recLen < 65536) :
    d.slack = d.recLen - d.used := by
  have hfits := h.fits
  unfold Dirent.slack
  omega

/-- The new record is put where there is room, inside the bytes of the old record. -/
theorem fillRoom_records
    {d : Dirent} {room : Room} (hd : direntAt m o = d) (hok : d.Ok) (hlen : d.recLen < 65536)
    (hroom : roomIn (needRecLen name) d = some room) (hname : name.length < 256)
    (hinode : inode < 2 ^ 32) :
    Records (fillRoom m o inode name room) o (o + d.recLen) (filled d inode name room) ∧
      ∀ k, k < o ∨ o + d.recLen ≤ k → fillRoom m o inode name room k = m k := by
  have hslack := hok.slack_eq hlen
  have hbounds := needRecLen_bounds name
  have hround := round4_le (8 + name.length)
  have hused := round4_le (8 + d.name.length)
  change 8 + d.name.length ≤ d.used ∧ d.used < 8 + d.name.length + 4 ∧ d.used % 4 = 0 at hused
  have hold : u16 m (o + 4) = d.recLen := by
    rw [← hd]
    rfl
  unfold roomIn at hroom
  split at hroom
  · cases hroom
    refine ⟨?_, ?_⟩
    · exact reuseDirent_records hname hinode hold hlen hok.aligned (by omega) (by omega)
    · intro k hk
      exact reuseDirent_outside (by omega) (by omega) hk
  · split at hroom
    · split at hroom
      · cases hroom
      · cases hroom
        refine ⟨?_, ?_⟩
        · exact splitDirent_records hd hok hname hinode hlen (by omega)
        · intro k hk
          exact splitDirent_outside (by omega) (by omega) hk
    · cases hroom

theorem bindings_filled {d : Dirent} {room : Room} {need : Nat} (hroom : roomIn need d = some room)
    (hinode : inode ≠ 0) :
    bindings (filled d inode name room) = bindings [d] ++ [(name, inode)] := by
  unfold roomIn at hroom
  split at hroom
  · rename_i hdead
    cases hroom
    simp only [filled, reused]
    split
    · simp [bindings, hinode, hdead.1]
    · simp [bindings, hinode, hdead.1]
  · split at hroom
    · rename_i hlive
      split at hroom
      · cases hroom
      · cases hroom
        simp only [filled]
        simp [bindings, hinode, hlive.2]
    · cases hroom

end Edits

end Ext2
end Homunculos
