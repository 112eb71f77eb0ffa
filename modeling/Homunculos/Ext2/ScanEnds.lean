import Homunculos.Ext2.Unlink
import Homunculos.Lib.Loop

/-!
# Scans of directories with any contents

`ext2_readdir`, and the question whether the scans of directories come to an end.  A
scan that meets a record of length 0 leaves the block without moving on.  If it is
behind the size of the directory there, it ends; otherwise it reads the same record
for ever.
-/

namespace Homunculos
namespace Ext2

open Bytes Block Tiling Loop

universe u v

section Records

variable {σ : Type u} {γ : Type v} {ρ : Type}

/-- How the inner loop ends: at the end of the block, at a record of length 0, or with
a record that the visitor wants. -/
inductive WalkEnd (σ : Type u) (γ : Type v) where
  | ended (s : σ)
  | zero (s : σ) (o : Nat)
  | hit (o : Nat) (x : γ)

/-- The inner loop for a visitor with a state. -/
def walkRecords (record : Nat → ρ) (len : ρ → Nat) (visit : σ → ρ → σ ⊕ γ)
    (e : Nat) : Nat → σ → Nat → WalkEnd σ γ
  | 0, s, o => .zero s o
  | n + 1, s, o =>
    if e ≤ o then
      .ended s
    else if len (record o) = 0 then
      .zero s o
    else
      match visit s (record o) with
      | .inl s => walkRecords record len visit e n s (o + len (record o))
      | .inr x => .hit o x

/-- The first record of length 0 on the way through a block. -/
def zeroRecord (record : Nat → ρ) (len : ρ → Nat) (e : Nat) : Nat → Nat → Option Nat
  | 0, o => some o
  | n + 1, o =>
    if e ≤ o then
      none
    else if len (record o) = 0 then
      some o
    else
      zeroRecord record len e n (o + len (record o))

variable {record : Nat → ρ} {len : ρ → Nat} {visit : σ → ρ → σ ⊕ γ} {e : Nat}

theorem walkRecords_cases
    (record : Nat → ρ) (len : ρ → Nat) (visit : σ → ρ → σ ⊕ γ) (e n : Nat) (s : σ) (o : Nat) :
    (∃ p x, walkRecords record len visit e n s o = .hit p x) ∨
      (∃ s', walkRecords record len visit e n s o = .ended s' ∧
        zeroRecord record len e n o = none) ∨
      ∃ s' z, walkRecords record len visit e n s o = .zero s' z ∧
        zeroRecord record len e n o = some z := by
  induction n generalizing s o with
  | zero => exact Or.inr (Or.inr ⟨s, o, rfl, rfl⟩)
  | succ n ih =>
    rw [walkRecords, zeroRecord]
    by_cases he : e ≤ o
    · rw [if_pos he, if_pos he]
      exact Or.inr (Or.inl ⟨s, rfl, rfl⟩)
    rw [if_neg he, if_neg he]
    by_cases hlen : len (record o) = 0
    · rw [if_pos hlen, if_pos hlen]
      exact Or.inr (Or.inr ⟨s, o, rfl, rfl⟩)
    rw [if_neg hlen, if_neg hlen]
    cases visit s (record o) with
    | inl s' => exact ih s' (o + len (record o))
    | inr x => exact Or.inl ⟨o, x, rfl⟩

theorem wanted_of_hit
    {n : Nat} {s : σ} {o p : Nat} {x : γ} (h : walkRecords record len visit e n s o = .hit p x) :
    ∃ s, visit s (record p) = .inr x := by
  induction n generalizing s o with
  | zero => cases h
  | succ n ih =>
    rw [walkRecords] at h
    split at h
    · cases h
    · split at h
      · cases h
      · cases hcase : visit s (record o) with
        | inl s' =>
          rw [hcase] at h
          exact ih h
        | inr x' =>
          rw [hcase] at h
          cases h
          exact ⟨s, hcase⟩

theorem zeroRecord_spec
    {n o z : Nat} (hfuel : e - o < n) (h : zeroRecord record len e n o = some z) :
    z < e ∧ len (record z) = 0 := by
  induction n generalizing o with
  | zero => omega
  | succ n ih =>
    rw [zeroRecord] at h
    split at h
    · cases h
    next he =>
      split at h
      next hlen =>
        cases h
        exact ⟨by omega, hlen⟩
      next hlen =>
        exact ih (by omega) h

end Records

section Rounds

variable {σ : Type u} {γ : Type v}

/-- One round of the outer loop for a visitor with a state. -/
def dirRound (visit : σ → Dirent → σ ⊕ γ) (raw : Ext2Inode) :
    Ext2Fs × Nat × σ → (Ext2Fs × Nat × σ) ⊕ (ScanEnd γ × Ext2Fs)
  | (fs, offset, s) =>
    if raw.size ≤ offset then
      .inr (.done, fs)
    else
      let b := ext2InodeBmap fs raw (offset / fs.blockSize)
      if b.1 = 0 then
        .inl (b.2, (offset + (fs.blockSize - offset % fs.blockSize)) % 2 ^ 32, s)
      else
        let r := b.2.readBuf b.1
        if r.1 then
          match walkRecords (direntAt r.2.buf) Dirent.recLen visit r.2.blockSize
              (r.2.blockSize + 1) s (offset % fs.blockSize) with
          | .ended s => .inl (r.2, (offset / fs.blockSize + 1) * fs.blockSize % 2 ^ 32, s)
          | .zero s z => .inl (r.2, (offset / fs.blockSize * fs.blockSize + z) % 2 ^ 32, s)
          | .hit o x => .inr (.found b.1 o x, r.2)
        else
          .inr (.failed, r.2)

/-- A visitor without a state. -/
def stateless (visit : Dirent → Option γ) (_ : Unit) (d : Dirent) : Unit ⊕ γ :=
  match visit d with
  | none => .inl ()
  | some x => .inr x

theorem walkRecords_stateless (record : Nat → Dirent) (visit : Dirent → Option γ) (e n o : Nat) :
    walkRecords record Dirent.recLen (stateless visit) e n () o =
      match scan record Dirent.recLen visit e n o with
      | none => .zero () (stopAt record Dirent.recLen visit e n o)
      | some none => .ended ()
      | some (some (p, x)) => .hit p x := by
  induction n generalizing o with
  | zero => rfl
  | succ n ih =>
    rw [walkRecords, scan, stopAt]
    by_cases he : e ≤ o
    · rw [if_pos he, if_pos he]
    rw [if_neg he, if_neg he]
    by_cases hlen : (record o).recLen = 0
    · rw [if_pos hlen, if_pos hlen, if_pos (Or.inr hlen)]
    rw [if_neg hlen, if_neg hlen, if_neg (not_or.mpr ⟨he, hlen⟩)]
    unfold stateless
    cases visit (record o) with
    | none => exact ih (o + (record o).recLen)
    | some x => rfl

/-- The scans of `ext2_lookup` and the others are such loops. -/
theorem scanDir_eq_loop
    (visit : Dirent → Option γ) (n : Nat) (fs : Ext2Fs) (raw : Ext2Inode) (offset : Nat) :
    scanDir visit n fs raw offset = loop (dirRound (stateless visit) raw) n (fs, offset, ()) := by
  induction n generalizing fs offset with
  | zero => rfl
  | succ n ih =>
    rw [scanDir, loop, dirRound]
    by_cases hsize : raw.size ≤ offset
    · rw [if_pos hsize, if_pos hsize]
    rw [if_neg hsize, if_neg hsize]
    by_cases hzero : (ext2InodeBmap fs raw (offset / fs.blockSize)).1 = 0
    · rw [if_pos hzero, if_pos hzero]
      exact ih _ _
    rw [if_neg hzero, if_neg hzero]
    by_cases hread : ((ext2InodeBmap fs raw (offset / fs.blockSize)).2.readBuf
        (ext2InodeBmap fs raw (offset / fs.blockSize)).1).1 = true
    · rw [if_pos hread, if_pos hread, walkRecords_stateless]
      unfold scanBlock blockStop
      cases scan _ Dirent.recLen visit _ _ (offset % fs.blockSize) with
      | none => exact ih _ _
      | some found =>
        cases found with
        | none => exact ih _ _
        | some px => rfl
    · rw [if_neg hread, if_neg hread]

end Rounds

section Readdir

/-- Live records are counted down to 0. -/
def nthLive (index : Nat) (d : Dirent) : Nat ⊕ Dirent :=
  if d.inode = 0 then .inl index
  else if index = 0 then .inr d
  else .inl (index - 1)

end Readdir

section Static

variable {fs fs' : Ext2Fs} {raw : Ext2Inode}

/-- The same file system, with something else in the part of `ext2_buf` that is read over. -/
structure Near (fs fs' : Ext2Fs) : Prop where
  same : fs' = fs.withBuf fs'.buf
  behind : ∀ k, 512 * (fs.blockSize / 512) ≤ k → fs'.buf k = fs.buf k

theorem Near.refl (fs : Ext2Fs) :
    Near fs fs :=
  ⟨rfl, fun _ _ => rfl⟩

theorem Near.blockSize (h : Near fs fs') :
    fs'.blockSize = fs.blockSize := by
  rw [h.same]
  rfl

theorem blockReadLoop_static (dev : BlockDevice) (lba i n : Nat) (buf buf' : Nat → BitVec 8) :
    (blockReadLoop dev lba i n buf).1 = (blockReadLoop dev lba i n buf').1 ∧
      ∀ k, 512 * (i + n) ≤ k → (blockReadLoop dev lba i n buf).2 k = buf k := by
  induction n generalizing i buf buf' with
  | zero => exact ⟨rfl, fun _ _ => rfl⟩
  | succ n ih =>
    unfold blockReadLoop
    by_cases hok : dev.readOk (sectorNo lba i) = true
    · rw [if_pos hok, if_pos hok]
      obtain ⟨hsame, hframe⟩ := ih (i + 1) (copy buf (512 * i) (dev.data (sectorNo lba i)) 512)
        (copy buf' (512 * i) (dev.data (sectorNo lba i)) 512)
      refine ⟨hsame, ?_⟩
      intro k hk
      rw [hframe k (by omega), copy_outside (by omega)]
    · rw [if_neg hok, if_neg hok]
      exact ⟨rfl, fun _ _ => rfl⟩

theorem Near.readBuf (h : Near fs fs') (nr : Nat) :
    (fs'.readBuf nr).1 = (fs.readBuf nr).1 ∧ Near fs (fs'.readBuf nr).2 ∧
      ((fs.readBuf nr).1 = true → (fs'.readBuf nr).2 = (fs.readBuf nr).2) := by
  have hread : fs'.readBuf nr =
      ((ext2ReadBlock fs nr fs'.buf).1, fs.withBuf (ext2ReadBlock fs nr fs'.buf).2) := by
    rw [h.same]
    rfl
  have hstatic := blockReadLoop_static fs.dev (fs.blockLba nr) 0 (fs.blockSize / 512)
  refine ⟨?_, ⟨?_, ?_⟩, ?_⟩
  · rw [hread]
    exact (hstatic fs'.buf fs.buf).1
  · rw [hread]
    rfl
  · intro k hk
    rw [hread]
    refine ((hstatic fs'.buf fs.buf).2 k ?_).trans (h.behind k hk)
    rw [Nat.zero_add]
    exact hk
  · intro hok
    have hok' : (ext2ReadBlock fs nr fs'.buf).1 = true := (hstatic fs'.buf fs.buf).1.trans hok
    rw [hread]
    change fs.withBuf _ = fs.withBuf _
    congr 1
    funext k
    refine (blockReadLoop_done hok' k).trans (Eq.trans ?_ (blockReadLoop_done hok k).symm)
    split
    · rfl
    next hk =>
      exact h.behind k (by omega)

theorem follow_static
    {fs1 fs2 : Ext2Fs} (js : List Nat) (p : Nat) (h1 : Near fs fs1) (h2 : Near fs fs2) :
    (follow js p fs1).1 = (follow js p fs2).1 ∧ Near fs (follow js p fs1).2 := by
  induction js generalizing p fs1 fs2 with
  | nil => exact ⟨rfl, h1⟩
  | cons j js ih =>
    obtain ⟨hok1, hnear1, hsame1⟩ := h1.readBuf p
    obtain ⟨hok2, hnear2, hsame2⟩ := h2.readBuf p
    rw [follow, follow]
    by_cases hok : (fs.readBuf p).1 = true
    · rw [if_pos (hok1.trans hok), if_pos (hok2.trans hok)]
      rw [hsame1 hok] at hnear1 ⊢
      rw [hsame2 hok]
      exact ih _ hnear1 hnear1
    · rw [if_neg (by rw [hok1]; exact hok), if_neg (by rw [hok2]; exact hok)]
      exact ⟨rfl, hnear1⟩

theorem Near.bmap (h : Near fs fs') (raw : Ext2Inode) (i : Nat) :
    (ext2InodeBmap fs' raw i).1 = (ext2InodeBmap fs raw i).1 ∧
      Near fs (ext2InodeBmap fs' raw i).2 := by
  have hptrs : fs'.ptrsPerBlock = fs.ptrsPerBlock := by
    unfold Ext2Fs.ptrsPerBlock
    rw [h.blockSize]
  unfold ext2InodeBmap
  rw [hptrs]
  cases route fs.ptrsPerBlock i with
  | none => exact ⟨rfl, h⟩
  | some sj => exact follow_static sj.2 (raw.block sj.1) h (Near.refl fs)

end Static

section Ending

variable {σ : Type u} {γ : Type v} {fs fs' : Ext2Fs} {raw : Ext2Inode}
variable {visit : σ → Dirent → σ ⊕ γ} {i o : Nat} {s : σ}

/-- The block that the directory has at an index. -/
def dirBlock (fs : Ext2Fs) (raw : Ext2Inode) (i : Nat) : Nat :=
  (ext2InodeBmap fs raw i).1

/-- The record that a scan sees at an offset of a block. -/
def blockRecord (fs : Ext2Fs) (nr : Nat) : Nat → Dirent :=
  direntAt (fs.readBuf nr).2.buf

/-- The first record of length 0 on the way through a block of the directory. -/
def zeroOf (fs : Ext2Fs) (raw : Ext2Inode) (i : Nat) : Option Nat :=
  zeroRecord (blockRecord fs (dirBlock fs raw i)) Dirent.recLen fs.blockSize (fs.blockSize + 1) 0

/-- The block sizes that `ext2_mount` can come to. -/
def BlockSizeSet (fs : Ext2Fs) : Prop :=
  0 < fs.blockSize ∧ fs.blockSize ≤ 2 ^ 31
deriving Decidable

/-- On the way through a block no scan comes to a record of length 0 below the size of the
directory. A block behind one that cannot be read is not reached. -/
def NoZeroRecord (fs : Ext2Fs) (raw : Ext2Inode) : Prop :=
  ∀ i, i * fs.blockSize < raw.size →
    (∀ j, j ≤ i → dirBlock fs raw j ≠ 0 → (fs.readBuf (dirBlock fs raw j)).1 = true) →
    dirBlock fs raw i ≠ 0 →
    ∀ z, zeroOf fs raw i = some z → raw.size ≤ i * fs.blockSize + z

theorem round_offsets (hbs : BlockSizeSet fs) (hsize : raw.size < 2 ^ 31) (ho : o < fs.blockSize)
    (hlt : i * fs.blockSize + o < raw.size) :
    (i * fs.blockSize + o) / fs.blockSize = i ∧ (i * fs.blockSize + o) % fs.blockSize = o ∧
      (i + 1) * fs.blockSize % 2 ^ 32 = (i + 1) * fs.blockSize ∧
      (i * fs.blockSize + o + (fs.blockSize - o)) % 2 ^ 32 = (i + 1) * fs.blockSize := by
  have hle := hbs.2
  have hsucc : (i + 1) * fs.blockSize = i * fs.blockSize + fs.blockSize := Nat.succ_mul _ _
  refine ⟨?_, ?_, ?_, ?_⟩
  · rw [Nat.mul_comm, Nat.mul_add_div hbs.1, Nat.div_eq_of_lt ho, Nat.add_zero]
  · rw [Nat.mul_comm, Nat.mul_add_mod, Nat.mod_eq_of_lt ho]
  · rw [Nat.mod_eq_of_lt (by omega)]
  · omega

theorem dirRound_cases
    (hbs : BlockSizeSet fs) (hsize : raw.size < 2 ^ 31) (h : Near fs fs') (ho : o < fs.blockSize)
    (hlt : i * fs.blockSize + o < raw.size) (visit : σ → Dirent → σ ⊕ γ) (s : σ) :
    (dirBlock fs raw i = 0 ∧ ∃ f, Near fs f ∧
        dirRound visit raw (fs', i * fs.blockSize + o, s) = .inl (f, (i + 1) * fs.blockSize, s)) ∨
      (dirBlock fs raw i ≠ 0 ∧ (fs.readBuf (dirBlock fs raw i)).1 = false ∧
        ∃ r, dirRound visit raw (fs', i * fs.blockSize + o, s) = .inr r) ∨
      (dirBlock fs raw i ≠ 0 ∧ (fs.readBuf (dirBlock fs raw i)).1 = true ∧ ∃ f, Near fs f ∧
        dirRound visit raw (fs', i * fs.blockSize + o, s) =
          match walkRecords (blockRecord fs (dirBlock fs raw i)) Dirent.recLen visit fs.blockSize
              (fs.blockSize + 1) s o with
          | .ended s => .inl (f, (i + 1) * fs.blockSize, s)
          | .zero s z => .inl (f, (i * fs.blockSize + z) % 2 ^ 32, s)
          | .hit p x => .inr (.found (dirBlock fs raw i) p x, f)) := by
  obtain ⟨hdiv, hmod, hnext, hskip⟩ := round_offsets hbs hsize ho hlt
  obtain ⟨hbmap, hnear⟩ := h.bmap raw i
  obtain ⟨hok, hnear', hsame⟩ := hnear.readBuf (dirBlock fs raw i)
  have hround : dirRound visit raw (fs', i * fs.blockSize + o, s) =
      let b := ext2InodeBmap fs' raw i
      if dirBlock fs raw i = 0 then
        .inl (b.2, (i + 1) * fs.blockSize, s)
      else
        let r := b.2.readBuf (dirBlock fs raw i)
        if r.1 then
          match walkRecords (direntAt r.2.buf) Dirent.recLen visit r.2.blockSize
              (r.2.blockSize + 1) s o with
          | .ended s => .inl (r.2, (i + 1) * fs.blockSize, s)
          | .zero s z => .inl (r.2, (i * fs.blockSize + z) % 2 ^ 32, s)
          | .hit p x => .inr (.found (dirBlock fs raw i) p x, r.2)
        else
          .inr (.failed, r.2) := by
    rw [dirRound, if_neg (by omega)]
    dsimp only
    rw [h.blockSize, hdiv, hmod, hbmap, hskip, hnext]
    rfl
  by_cases hzero : dirBlock fs raw i = 0
  · rw [if_pos hzero] at hround
    exact Or.inl ⟨hzero, _, hnear, hround⟩
  rw [if_neg hzero] at hround
  by_cases hread : (fs.readBuf (dirBlock fs raw i)).1 = true
  · rw [if_pos (hok.trans hread), hsame hread] at hround
    rw [hsame hread] at hnear'
    exact Or.inr (Or.inr ⟨hzero, hread, _, hnear', hround⟩)
  · rw [if_neg (by rw [hok]; exact hread)] at hround
    exact Or.inr (Or.inl ⟨hzero, by simpa using hread, _, hround⟩)

theorem dirRound_behind
    {offset : Nat} (h : raw.size ≤ offset) (visit : σ → Dirent → σ ⊕ γ) (s : σ) :
    dirRound visit raw (fs', offset, s) = .inr (.done, fs') := by
  rw [dirRound, if_pos h]

variable (hbs : BlockSizeSet fs) (hsize : raw.size < 2 ^ 31)
include hbs hsize

/-- One round from the start of a block: to the next block, out of the loop, or to a
record of length 0. -/
theorem blockRound_cases (h : Near fs fs')
    (hlt : i * fs.blockSize < raw.size) (visit : σ → Dirent → σ ⊕ γ) (s : σ) :
    (∃ f s', Near fs f ∧
        dirRound visit raw (fs', i * fs.blockSize, s) = .inl (f, (i + 1) * fs.blockSize, s') ∧
        (dirBlock fs raw i ≠ 0 →
          (fs.readBuf (dirBlock fs raw i)).1 = true ∧ zeroOf fs raw i = none)) ∨
      (∃ r, dirRound visit raw (fs', i * fs.blockSize, s) = .inr r ∧
        ((dirBlock fs raw i ≠ 0 ∧ (fs.readBuf (dirBlock fs raw i)).1 = false) ∨
          ∃ s m o x, visit s (direntAt m o) = .inr x)) ∨
      ∃ f s' z, Near fs f ∧
        dirRound visit raw (fs', i * fs.blockSize, s) = .inl (f, i * fs.blockSize + z, s') ∧
        dirBlock fs raw i ≠ 0 ∧ (fs.readBuf (dirBlock fs raw i)).1 = true ∧
        zeroOf fs raw i = some z := by
  rcases dirRound_cases hbs hsize h (o := 0) hbs.1 hlt visit s with
    ⟨hhole, f, hf, hround⟩ | ⟨hmapped, hbad, r, hround⟩ | ⟨hmapped, hread, f, hf, hround⟩
  · exact Or.inl ⟨f, s, hf, hround, fun hmapped => absurd hhole hmapped⟩
  · exact Or.inr (Or.inl ⟨r, hround, Or.inl ⟨hmapped, hbad⟩⟩)
  · rcases walkRecords_cases (blockRecord fs (dirBlock fs raw i)) Dirent.recLen visit
        fs.blockSize (fs.blockSize + 1) s 0 with
      ⟨p, x, hwalk⟩ | ⟨s', hwalk, hz⟩ | ⟨s', z, hwalk, hz⟩
    · obtain ⟨s', hvisit⟩ := wanted_of_hit hwalk
      rw [hwalk] at hround
      exact Or.inr (Or.inl ⟨_, hround, Or.inr ⟨s', _, p, x, hvisit⟩⟩)
    · rw [hwalk] at hround
      exact Or.inl ⟨f, s', hf, hround, fun _ => ⟨hread, hz⟩⟩
    · have hzlt := (zeroRecord_spec (by omega) hz).1
      have hle := hbs.2
      rw [hwalk] at hround
      dsimp only at hround
      rw [Nat.mod_eq_of_lt (by omega)] at hround
      exact Or.inr (Or.inr ⟨f, s', z, hf, hround, hmapped, hread, hz⟩)

/-- Without a record of length 0 below the size, a scan from the start of a block ends in
as many rounds as there are bytes left. -/
theorem NoZeroRecord.loop (hzero : NoZeroRecord fs raw)
    (visit : σ → Dirent → σ ⊕ γ) {n : Nat} (h : Near fs fs')
    (hreads : ∀ j, j < i → dirBlock fs raw j ≠ 0 → (fs.readBuf (dirBlock fs raw j)).1 = true)
    (hn : raw.size - i * fs.blockSize < n) :
    (Loop.loop (dirRound visit raw) n (fs', i * fs.blockSize, s)).isSome = true := by
  induction n generalizing fs' i s with
  | zero => omega
  | succ n ih =>
    by_cases hbehind : raw.size ≤ i * fs.blockSize
    · rw [loop_exit (dirRound_behind hbehind visit s)]
      rfl
    have hpos := hbs.1
    have hsucc : (i + 1) * fs.blockSize = i * fs.blockSize + fs.blockSize := Nat.succ_mul _ _
    have hreads' : (dirBlock fs raw i ≠ 0 → (fs.readBuf (dirBlock fs raw i)).1 = true) →
        ∀ j, j ≤ i → dirBlock fs raw j ≠ 0 → (fs.readBuf (dirBlock fs raw j)).1 = true := by
      intro hi j hj hne
      rcases Nat.lt_or_eq_of_le hj with hlt | rfl
      · exact hreads j hlt hne
      · exact hi hne
    rcases blockRound_cases hbs hsize h (Nat.lt_of_not_le hbehind) visit s with
      ⟨f, s', hf, hround, hread⟩ | ⟨r, hround, -⟩ | ⟨f, s', z, -, hround, hmapped, hread, hz⟩
    · rw [loop_next hround]
      refine ih hf ?_ (by omega)
      exact fun j hj => hreads' (fun hne => (hread hne).1) j (Nat.lt_succ_iff.mp hj)
    · rw [loop_exit hround]
      rfl
    · -- the record stands behind the size, so the next round is the last one
      have hend := hzero i (by omega) (hreads' (fun _ => hread)) hmapped z hz
      obtain ⟨m, rfl⟩ : ∃ m, n = m + 1 := ⟨n - 1, by omega⟩
      rw [loop_next hround, loop_exit (dirRound_behind hend visit s')]
      rfl

theorem not_ends_at_zero (h : Near fs fs') {z : Nat}
    (hz : z < fs.blockSize) (hlt : i * fs.blockSize + z < raw.size)
    (hmapped : dirBlock fs raw i ≠ 0) (hread : (fs.readBuf (dirBlock fs raw i)).1 = true)
    (hlen : (blockRecord fs (dirBlock fs raw i) z).recLen = 0) (visit : σ → Dirent → σ ⊕ γ)
    (s : σ) :
    ¬ Ends (dirRound visit raw) (fs', i * fs.blockSize + z, s) := by
  apply not_ends_of_going_on
    (I := fun t => Near fs t.1 ∧ t.2.1 = i * fs.blockSize + z)
  · rintro ⟨f, offset, s⟩ ⟨hf, rfl⟩
    have hwalk : walkRecords (blockRecord fs (dirBlock fs raw i)) Dirent.recLen visit
        fs.blockSize (fs.blockSize + 1) s z = .zero s z := by
      rw [walkRecords, if_neg (by omega), if_pos hlen]
    rcases dirRound_cases hbs hsize hf hz hlt visit s with
      ⟨hhole, -⟩ | ⟨-, hbad, -⟩ | ⟨-, -, f', hf', hround⟩
    · exact absurd hhole hmapped
    · rw [hread] at hbad
      cases hbad
    · rw [hwalk] at hround
      refine ⟨_, hround, hf', ?_⟩
      exact Nat.mod_eq_of_lt (by omega)
  · exact ⟨h, rfl⟩

theorem ends_at_block (hvisit : ∀ s m o x, visit s (direntAt m o) ≠ .inr x)
    (hends : Ends (dirRound visit raw) (fs, 0, s)) (hlt : i * fs.blockSize < raw.size)
    (hreads : ∀ j, j < i → dirBlock fs raw j ≠ 0 → (fs.readBuf (dirBlock fs raw j)).1 = true) :
    ∃ f s', Near fs f ∧ Ends (dirRound visit raw) (f, i * fs.blockSize, s') := by
  induction i with
  | zero =>
    refine ⟨fs, s, Near.refl fs, ?_⟩
    rw [Nat.zero_mul]
    exact hends
  | succ i ih =>
    have hsucc : (i + 1) * fs.blockSize = i * fs.blockSize + fs.blockSize := Nat.succ_mul _ _
    obtain ⟨f, s', hf, hends'⟩ := ih (by omega) (fun j hj => hreads j (by omega))
    rcases blockRound_cases hbs hsize hf (i := i) (by omega) visit s' with
      ⟨f', s'', hf', hround, -⟩ | ⟨r, -, ⟨hmapped, hbad⟩ | ⟨s, m, o, x, hwanted⟩⟩ |
        ⟨f', s'', z, hf', hround, hmapped, hread, hz⟩
    · exact ⟨f', s'', hf', hends'.next hround⟩
    · rw [hreads i (Nat.lt_succ_self i) hmapped] at hbad
      cases hbad
    · exact absurd hwanted (hvisit s m o x)
    · obtain ⟨hzlt, hlen⟩ := zeroRecord_spec (by omega) hz
      exact absurd (hends'.next hround)
        (not_ends_at_zero hbs hsize hf' hzlt (by omega) hmapped hread hlen visit s'')

theorem noZeroRecord_of_ends (hvisit : ∀ s m o x, visit s (direntAt m o) ≠ .inr x)
    (hends : Ends (dirRound visit raw) (fs, 0, s)) :
    NoZeroRecord fs raw := by
  intro i hlt hreads hmapped z hz
  by_contra hbelow
  obtain ⟨hzlt, hlen⟩ := zeroRecord_spec (by omega) hz
  have hread := hreads i (Nat.le_refl i) hmapped
  obtain ⟨f, s', hf, hends'⟩ := ends_at_block hbs hsize hvisit hends hlt
    (fun j hj => hreads j (Nat.le_of_lt hj))
  rcases blockRound_cases hbs hsize hf hlt visit s' with
    ⟨f', s'', -, -, hnone⟩ | ⟨r, -, ⟨-, hbad⟩ | ⟨s, m, o, x, hwanted⟩⟩ |
      ⟨f', s'', z', hf', hround, -, -, hz'⟩
  · rw [hz] at hnone
    cases (hnone hmapped).2
  · rw [hread] at hbad
    cases hbad
  · exact hvisit s m o x hwanted
  · rw [hz, Option.some_inj] at hz'
    subst hz'
    exact not_ends_at_zero hbs hsize hf' hzlt (by omega) hmapped hread hlen visit s''
      (hends'.next hround)

omit hsize hbs

/-- The scans of the directory calls. -/
inductive DirScan where
  | readdir (index : Nat)
  | lookup (name : List (BitVec 8))
  | addEntry (name : List (BitVec 8))
  | removeEntry (name : List (BitVec 8))
  | unlink (name : List (BitVec 8))
  | rmdir (name : List (BitVec 8))

/-- The scan comes to its end, however many rounds it takes. -/
def DirScan.Returns (fs : Ext2Fs) (raw : Ext2Inode) : DirScan → Prop
  | .readdir index => ∃ n, (loop (dirRound nthLive raw) n (fs, 0, index)).isSome = true
  | .addEntry name => ∃ n, (scanDir (roomIn (needRecLen name)) n fs raw 0).isSome = true
  | .lookup name => ∃ n, (scanDir (nameIs name) n fs raw 0).isSome = true
  | .removeEntry name => ∃ n, (scanDir (nameIs name) n fs raw 0).isSome = true
  | .unlink name => ∃ n, (scanDir (nameIs name) n fs raw 0).isSome = true
  | .rmdir name => ∃ n, (scanDir (nameIs name) n fs raw 0).isSome = true

theorem NoZeroRecord.scanDir
    {γ : Type v} (hbs : BlockSizeSet fs) (hsize : raw.size < 2 ^ 31) (hzero : NoZeroRecord fs raw)
    (visit : Dirent → Option γ) :
    (scanDir visit (raw.size + 1) fs raw 0).isSome = true := by
  rw [scanDir_eq_loop, ← Nat.zero_mul fs.blockSize]
  exact hzero.loop hbs hsize (stateless visit) (Near.refl fs)
    (fun j hj => absurd hj (Nat.not_lt_zero j)) (by omega)

theorem nameIs_long
    {name : List (BitVec 8)} (hname : 256 ≤ name.length) (m : Nat → BitVec 8) (o : Nat) :
    nameIs name (direntAt m o) = none := by
  have hne : (direntAt m o).name ≠ name := by
    intro heq
    have hlen := congrArg List.length heq
    simp only [direntAt, List.length_map, List.length_range] at hlen
    omega
  unfold nameIs
  rw [if_neg hne, ite_self]

/--
All scans of a directory end, for every name and index, exactly if no record of length 0
stands below the size of the directory on the way through a block.
-/
theorem dirScans_return_iff
    (fs : Ext2Fs) (raw : Ext2Inode) (hbs : BlockSizeSet fs) (hsize : raw.size < 2 ^ 31) :
    (∀ scan : DirScan, scan.Returns fs raw) ↔ NoZeroRecord fs raw := by
  constructor
  · intro h
    obtain ⟨n, hn⟩ := h (.lookup (List.replicate 256 0))
    rw [scanDir_eq_loop] at hn
    refine noZeroRecord_of_ends hbs hsize ?_ ⟨n, hn⟩
    intro s m o x
    rw [stateless, nameIs_long (Nat.le_of_eq List.length_replicate.symm)]
    exact Sum.inl_ne_inr
  · intro h scan
    have hscan : ∀ {γ : Type} (visit : Dirent → Option γ),
        ∃ n, (scanDir visit n fs raw 0).isSome = true :=
      fun visit => ⟨raw.size + 1, h.scanDir hbs hsize visit⟩
    cases scan with
    | readdir index =>
      refine ⟨raw.size + 1, ?_⟩
      rw [← Nat.zero_mul fs.blockSize]
      exact h.loop hbs hsize nthLive (Near.refl fs) (fun j hj => absurd hj (Nat.not_lt_zero j))
        (by omega)
    | _ => exact hscan _

/-- A file system whose blocks all hold one record of length `len`. -/
def recordFs (len : BitVec 8) : Ext2Fs where
  dev :=
    { data := fun _ k => if k = 5 then len else 0
      readOk := fun _ => true
      writeOk := fun _ => true }
  buf := fun _ => 0
  sb := ⟨fun _ => 0⟩
  blockSize := 1024
  bgdescBlock := 2
  bgdescCount := 1

/-- A directory of one block. -/
def oneBlockDir : Ext2Inode :=
  (Ext2Inode.zero.setSize 1024).setBlock 0 5

theorem dirScans_return_iff_record :
    oneBlockDir.size = 1024 ∧ ∀ scan : DirScan, scan.Returns (recordFs 4) oneBlockDir := by
  have hsize : oneBlockDir.size = 1024 := by decide +kernel
  refine ⟨hsize, ?_⟩
  refine (dirScans_return_iff (recordFs 4) oneBlockDir (by decide) (by decide)).mpr ?_
  intro i hlt _ _ z hz
  obtain rfl : i = 0 := by
    change i * 1024 < 1024 at hlt
    omega
  cases hz

/-- In a directory block of zeros `ext2_lookup` never comes to an end. -/
theorem lookup_never_returns :
    ¬ (DirScan.lookup [0x61#8]).Returns (recordFs 0) oneBlockDir := by
  rintro ⟨n, hn⟩
  rw [scanDir_eq_loop] at hn
  have hends : Ends (dirRound (stateless (nameIs [0x61#8])) oneBlockDir)
      (recordFs 0, 0 * (recordFs 0).blockSize + 0, ()) := ⟨n, hn⟩
  refine not_ends_at_zero (by decide) (by decide) (Near.refl _) (by decide)
    (by decide) ?_ ?_ ?_ _ _ hends
  · decide +kernel
  · decide +kernel
  · decide +kernel

end Ending

end Ext2
end Homunculos
