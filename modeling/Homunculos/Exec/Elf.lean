import Homunculos.Lib.Bytes
import Homunculos.Mm.KernelHalf

/-!
# Loading an ELF file

`elf_validate`, `elf_load`, `elf_brk_start` and `elf_copy_segments` of
`kernel/elf.c`.  The file stands in a buffer of physical frames; `elf_load`
maps pages for its segments in a new page directory, and `elf_copy_segments`
copies the segments there once that directory is in use.

The kernel reads the first 16 MiB through the identity map and everything above
through the pages of the task that runs, whose bytes are the argument `user`.
Addresses wrap around at `2 ^ 32`.
-/

namespace Homunculos
namespace Exec

open Bytes Mm

/-- The byte that the kernel reads at an address. -/
def byteOf (s : State) (user : Nat → BitVec 8) (a : Nat) : BitVec 8 :=
  if a % 2 ^ 32 / 4096 < identPages then
    byteAt (s.mem (a % 2 ^ 32 / 4096) (a % 4096 / 4)) (a % 4)
  else
    user (a % 2 ^ 32)

def ptLoad : Nat := 1

/-- The fields of `struct elf32_phdr` that are used. -/
structure Phdr where
  pType : Nat
  pOffset : Nat
  pVaddr : Nat
  pFilesz : Nat
  pMemsz : Nat
deriving DecidableEq

def readPhdr (m : Nat → BitVec 8) (a : Nat) : Phdr where
  pType := u32 m a
  pOffset := u32 m (a + 4)
  pVaddr := u32 m (a + 8)
  pFilesz := u32 m (a + 16)
  pMemsz := u32 m (a + 20)

section Header

variable (m : Nat → BitVec 8) (ehdr : Nat)

/-- `elf_validate`; `true` is the return of 0. -/
def elfValidate : Bool :=
  ehdr != 0 && u32 m ehdr == 0x464C457F && (m (ehdr + 4)).toNat == 1 &&
    (m (ehdr + 5)).toNat == 1 && u16 m (ehdr + 16) == 2 && u16 m (ehdr + 18) == 3

def eEntry : Nat :=
  u32 m (ehdr + 24)

def ePhoff : Nat :=
  u32 m (ehdr + 28)

def ePhnum : Nat :=
  u16 m (ehdr + 44)

/-- The address of `phdr[i]`. -/
def phdrAddr (i : Nat) : Nat :=
  ehdr + ePhoff m ehdr + 32 * i

/-- `phdr[i]` -/
def phdrAt (i : Nat) : Phdr :=
  readPhdr m (phdrAddr m ehdr i)

end Header

namespace Phdr

def vaStart (p : Phdr) : Nat :=
  pageDown p.pVaddr

def vaEnd (p : Phdr) : Nat :=
  pageUp (p.pVaddr + p.pMemsz)

/-- The number of rounds of the loop from `va_start` to `va_end`. -/
def pages (p : Phdr) : Nat :=
  (p.vaEnd - p.vaStart) / 4096

end Phdr

/-- The pages of the segments to load, one after the other. -/
def segmentPages (ps : List Phdr) : List Nat :=
  ps.flatMap fun p => if p.pType = ptLoad then walkPages p.vaStart p.pages else []

/-- The loop of `elf_load` over the first program headers, from address `phdr` on: the headers as
it read them and the memory it leaves. The error value has the number of pages that were mapped
before the failure. -/
def loadLoop (user : Nat → BitVec 8) (phdr pdir : Nat)
    (s : State) : Nat → Except (Nat × State) (List Phdr × State)
  | 0 => .ok ([], s)
  | i + 1 =>
    match loadLoop user phdr pdir s i with
    | .error e => .error e
    | .ok (ps, s') =>
      let p := readPhdr (byteOf s' user) (phdr + 32 * i)
      if p.pType = ptLoad then
        match allocRange s' pdir p.vaStart tableFlags p.pages with
        | .error (k, e) => .error ((segmentPages ps).length + k, e)
        | .ok s'' => .ok (ps ++ [p], s'')
      else
        .ok (ps ++ [p], s')

def elfLoad (s : State) (user : Nat → BitVec 8)
    (ehdr pdir : Nat) : Except (Nat × State) (List Phdr × State) :=
  let m := byteOf s user
  if elfValidate m ehdr = true ∧ pdir ≠ 0 then
    loadLoop user (ehdr + ePhoff m ehdr) pdir s (ePhnum m ehdr)
  else
    .error (0, s)

/-- The loop of `elf_brk_start` over the first `n` program headers. -/
def brkTop (m : Nat → BitVec 8) (ehdr : Nat) : Nat → Nat
  | 0 => 0
  | i + 1 =>
    let p := phdrAt m ehdr i
    if p.pType = ptLoad then
      max (brkTop m ehdr i) ((p.pVaddr + p.pMemsz) % 2 ^ 32)
    else
      brkTop m ehdr i

def elfBrkStart (m : Nat → BitVec 8) (ehdr : Nat) : Nat :=
  pageUp (brkTop m ehdr (ePhnum m ehdr))

/-- `memcpy` to the addresses from `dst` on. -/
def memcpyTo (mem : Nat → BitVec 8) (dst : Nat) (src : Nat → BitVec 8)
    (len : Nat) : Nat → BitVec 8 :=
  fun a => if (a + 2 ^ 32 - dst) % 2 ^ 32 < len then src ((a + 2 ^ 32 - dst) % 2 ^ 32) else mem a

/-- The loop of `elf_copy_segments` over the first `n` program headers. -/
def copyLoop (m : Nat → BitVec 8) (ehdr : Nat) (mem : Nat → BitVec 8) : Nat → Nat → BitVec 8
  | 0 => mem
  | i + 1 =>
    let p := phdrAt m ehdr i
    if p.pType = ptLoad then
      memcpyTo (copyLoop m ehdr mem i) p.pVaddr (fun k => m (ehdr + p.pOffset + k)) p.pFilesz
    else
      copyLoop m ehdr mem i

/-- `elf_copy_segments`: the memory of the new program, with the buffer and the
headers as they are read in `m`. -/
def elfCopySegments (m : Nat → BitVec 8) (ehdr : Nat) (mem : Nat → BitVec 8) : Nat → BitVec 8 :=
  copyLoop m ehdr mem (ePhnum m ehdr)

/-- The runs of bytes that `elf_copy_segments` reads: their first address and
their length. -/
inductive Reads (m : Nat → BitVec 8) (ehdr : Nat) : Nat → Nat → Prop
  | phoff :
      Reads m ehdr (ehdr + 28) 4
  | phnum :
      Reads m ehdr (ehdr + 44) 2
  | type
      (i : Nat) (hi : i < ePhnum m ehdr) :
      Reads m ehdr (phdrAddr m ehdr i) 4
  | offsetVaddr
      (i : Nat) (hi : i < ePhnum m ehdr) (hload : (phdrAt m ehdr i).pType = ptLoad) :
      Reads m ehdr (phdrAddr m ehdr i + 4) 8
  | filesz
      (i : Nat) (hi : i < ePhnum m ehdr) (hload : (phdrAt m ehdr i).pType = ptLoad) :
      Reads m ehdr (phdrAddr m ehdr i + 16) 4
  | data
      (i : Nat) (hi : i < ePhnum m ehdr) (hload : (phdrAt m ehdr i).pType = ptLoad) :
      Reads m ehdr (ehdr + (phdrAt m ehdr i).pOffset) (phdrAt m ehdr i).pFilesz

/-- The address lies in the buffer of `size` bytes at `base`. -/
def Inside (base size a : Nat) : Prop :=
  base ≤ a ∧ a < base + size

/-- The address lies in a page of the segment, and this page shows a frame that
was free before `elf_load`. -/
structure MappedFor (s s' : State) (pdir : Nat) (p : Phdr) (a : Nat) : Prop where
  low : p.vaStart ≤ a
  high : a < p.vaEnd
  shown : Shown s' pdir (a / 4096)
  fresh : bitmapTest s (entryFrame (pageSlot s' pdir (a / 4096))) = false

/-- What `elf_copy_segments` reads lies in the buffer, and what it writes lies
in pages that `elf_load` mapped from `s` to `s'` for the same one of the
headers `ps` that it read. -/
structure CopySafe (user : Nat → BitVec 8) (ehdr size pdir : Nat) (s s' : State)
    (ps : List Phdr) : Prop where
  reads : ∀ a len, Reads (byteOf s' user) ehdr a len →
    ∀ k, k < len → Inside ehdr size ((a + k) % 2 ^ 32)
  writes : ∀ i, i < ePhnum (byteOf s' user) ehdr →
    (phdrAt (byteOf s' user) ehdr i).pType = ptLoad →
    ∀ p, ps[i]? = some p → ∀ k, k < (phdrAt (byteOf s' user) ehdr i).pFilesz →
      MappedFor s s' pdir p (((phdrAt (byteOf s' user) ehdr i).pVaddr + k) % 2 ^ 32)

/-- The program headers lie in the file as far as they are used, and each
segment to load lies in the file and below its `va_end`. -/
def SegmentsFit (phoff size : Nat) (ps : List Phdr) : Prop :=
  ∀ i p, ps[i]? = some p →
    phoff + 32 * i + 4 ≤ size ∧
    (p.pType = ptLoad →
      phoff + 32 * i + 20 ≤ size ∧
      (p.pFilesz = 0 ∨ (p.pOffset + p.pFilesz ≤ size ∧ p.pVaddr + p.pFilesz ≤ p.vaEnd)))

section Ranges

theorem inside_iff {base size x len : Nat} (hsize : base + size ≤ 2 ^ 24) (hx : x < 2 ^ 32) :
    (∀ k, k < len → Inside base size ((base + x + k) % 2 ^ 32)) ↔
      len = 0 ∨ x + len ≤ size := by
  unfold Inside
  constructor
  · intro h
    by_contra hno
    have hlast := h (size - x) (by omega)
    omega
  · intro h k hk
    omega

theorem writes_iff {p : Phdr} (hvaddr : p.pVaddr < 2 ^ 32) :
    (∀ k, k < p.pFilesz → p.vaStart ≤ (p.pVaddr + k) % 2 ^ 32 ∧ (p.pVaddr + k) % 2 ^ 32 < p.vaEnd) ↔
      p.pFilesz = 0 ∨ p.pVaddr + p.pFilesz ≤ p.vaEnd := by
  have hend : p.vaEnd ≤ 2 ^ 32 - 4096 := by
    unfold Phdr.vaEnd pageUp
    omega
  have hstart : p.vaStart ≤ p.pVaddr := by
    unfold Phdr.vaStart pageDown
    omega
  constructor
  · intro h
    by_contra hno
    have hlast := h (p.vaEnd - p.pVaddr) (by omega)
    omega
  · intro h k hk
    omega

theorem segment_le {p : Phdr} (hpos : 0 < p.pages) :
    p.vaStart + p.pages * 4096 ≤ 2 ^ 32 := by
  have hend : p.vaEnd ≤ 2 ^ 32 - 4096 := by
    unfold Phdr.vaEnd pageUp
    omega
  unfold Phdr.pages at *
  omega

theorem inRange_segment (p : Phdr) (n : Nat) :
    InRange p.vaStart p.pages n ↔ p.vaStart ≤ n * 4096 ∧ n * 4096 < p.vaEnd := by
  have hend : p.vaEnd ≤ 2 ^ 32 - 4096 := by
    unfold Phdr.vaEnd pageUp
    omega
  have halignedEnd : p.vaEnd % 4096 = 0 := by
    unfold Phdr.vaEnd pageUp
    omega
  have halignedStart : p.vaStart % 4096 = 0 := by
    unfold Phdr.vaStart pageDown
    omega
  by_cases hempty : p.vaEnd ≤ p.vaStart
  · have hpages : p.pages = 0 := by
      unfold Phdr.pages
      omega
    rw [hpages]
    constructor
    · intro h
      exact absurd h (inRange_zero _ _)
    · intro h
      omega
  · rw [inRange_iff (by unfold Phdr.pages; omega)]
    unfold Phdr.pages
    omega

end Ranges

section Load

variable {kernel : Nat → Prop} {kpt : Nat → Nat} {dirs : List Nat} {d : Nat}
variable {s s' s'' : State} {user : Nat → BitVec 8}

theorem sameUse_trans (h : SameUse s s') (h' : SameUse s' s'') :
    SameUse s s'' := by
  refine ⟨fun f => (h'.used f).trans (h.used f), ?_⟩
  intro f hf
  rw [h'.mem f ((h.used f).trans hf), h.mem f hf]

/-- These pages were mapped in the user half of `d`, one after the other. -/
structure Loaded (kernel : Nat → Prop) (dirs : List Nat) (d : Nat) (s s' : State)
    (pages : List Nat) : Prop where
  edit : UserEdit kernel dirs d s s' (fun n => n ∈ pages ∨ Shown s d n)
  user : ∀ n ∈ pages, UserPage n
  unchanged : pages = [] → SameUse s s'
  nodup : pages.Nodup
  frames : freeFrames s = freeFrames s' + framesFor s d pages
  tables : ∀ i, present (s'.mem d i) = true ↔
    present (s.mem d i) = true ∨ i ∈ pages.map (· / 1024)

theorem loaded_refl (ho : Owned kernel s dirs) :
    Loaded kernel dirs d s s [] :=
  ⟨ho.userEdit_refl.congr (fun n _ => by simp), fun _ h => absurd h List.not_mem_nil,
    fun _ => SameUse.refl s, List.nodup_nil, by simp [framesFor], fun i => by simp⟩

theorem nodup_walkPages {va n : Nat} (hle : 0 < n → va + n * 4096 ≤ 2 ^ 32) :
    (walkPages va n).Nodup := by
  refine List.Nodup.map_on ?_ List.nodup_range
  intro i hi j hj heq
  have hi' := List.mem_range.mp hi
  have hle' := hle (by omega)
  rw [pageNo_of_le hle' hi', pageNo_of_le hle' (List.mem_range.mp hj)] at heq
  omega

theorem Loaded.range
    {va n : Nat} {pages : List Nat} (h : Loaded kernel dirs d s s' pages) (hd : d ∈ dirs)
    {s1 : State} (hfill : Filled kernel dirs d va tableFlags s' s1 n)
    (hle : 0 < n → va + n * 4096 ≤ 2 ^ 32) (hsame : SameUse s1 s'')
    (hzero : n = 0 → SameUse s' s'') :
    Loaded kernel dirs d s s'' (pages ++ walkPages va n) := by
  have hedit := hsame.userEdit hfill.edit.owned hd
  have hdir : s''.mem d = s1.mem d := hsame.mem d (hfill.edit.owned.dirUsed d hd)
  have huser : ∀ m ∈ walkPages va n, UserPage m := by
    intro m hm
    obtain ⟨k, hk, rfl⟩ := mem_walkPages.mp hm
    exact hfill.user k hk
  refine ⟨((h.edit.trans hfill.edit).trans hedit).congr ?_, ?_, ?_, ?_, ?_, ?_⟩
  · intro m hm
    rw [hfill.edit.shown m hm, h.edit.shown m hm, List.mem_append, mem_walkPages]
    simp only [present_tableFlags, and_true]
    tauto
  · intro m hm
    rcases List.mem_append.mp hm with hm | hm
    · exact h.user m hm
    · exact huser m hm
  · intro hno
    obtain ⟨hpages, hwalk⟩ := List.append_eq_nil_iff.mp hno
    refine sameUse_trans (h.unchanged hpages) (hzero ?_)
    rwa [walkPages, List.map_eq_nil_iff, List.range_eq_nil] at hwalk
  · refine List.nodup_append'.mpr ⟨h.nodup, nodup_walkPages hle, ?_⟩
    intro m hold hnew
    exact hfill.was m (mem_walkPages.mp hnew)
      ((h.edit.shown m (h.user m hold)).mpr (Or.inl hold))
  · rw [framesFor_append h.tables, h.frames, hfill.frames, hsame.freeFrames_eq]
    omega
  · intro i
    rw [hdir, hfill.tables, h.tables, List.map_append, List.mem_append, or_assoc]

/-- Of the pages that are wanted these were mapped, and the next one was refused. -/
structure Stopped (kernel : Nat → Prop) (dirs : List Nat) (d : Nat) (s s' : State)
    (pages wanted : List Nat) : Prop where
  loaded : Loaded kernel dirs d s s' pages
  next : ∃ m, pages ++ [m] <+: wanted ∧ Refused s' d m

theorem Loaded.allocRange {va n : Nat} {pages : List Nat} (h : Loaded kernel dirs d s s' pages)
    (hk : KernelHalf kernel kpt s dirs) (hd : d ∈ dirs)
    (hle : 0 < n → va + n * 4096 ≤ 2 ^ 32) :
    (∃ s'', Mm.allocRange s' d va tableFlags n = .ok s'' ∧
        Loaded kernel dirs d s s'' (pages ++ walkPages va n)) ∨
      ∃ k s'', Mm.allocRange s' d va tableFlags n = .error (k, s'') ∧
        Stopped kernel dirs d s s'' (pages ++ walkPages va k) (pages ++ walkPages va n) := by
  have hwalk : ∀ k, k < n → Walkable kernel dirs d tableFlags s' va k :=
    fun k _ => (hk.of_edit h.edit).walk hd tableFlags va k
  rcases allocRange_spec h.edit.owned hd tableFlags_lt n hwalk with
    ⟨s1, hrange, hfill⟩ | ⟨k, s1, s2, hkn, hrange, hfill, hsame, hwhy⟩
  · refine Or.inl ⟨s1, hrange, h.range hd hfill hle (SameUse.refl s1) ?_⟩
    rintro rfl
    cases hrange
    exact SameUse.refl s'
  · refine Or.inr ⟨k, s2, hrange, h.range hd hfill ?_ hsame ?_, pageNo va k, ?_,
      hsame.refused hfill.edit.owned hd hwhy⟩
    · exact fun _ => (Nat.add_le_add_left (Nat.mul_le_mul_right _ hkn.le) va).trans
        (hle (by omega))
    · rintro rfl
      exact allocRange_error_zero h.edit.owned hd tableFlags_lt n hwalk hrange
    · rw [List.append_assoc, ← walkPages_succ]
      exact (List.prefix_append_right_inj _).mpr (walkPages_isPrefix va hkn)

/-- A header as `elf_load` reads it between two of its pages. -/
def ReadLater
    (kernel : Nat → Prop) (dirs : List Nat) (d : Nat) (s : State) (user : Nat → BitVec 8) (a : Nat)
    (p : Phdr) : Prop :=
  ∃ s' new, UserEdit kernel dirs d s s' new ∧ p = readPhdr (byteOf s' user) a

theorem segmentPages_append (ps : List Phdr) (p : Phdr) :
    segmentPages (ps ++ [p]) = segmentPages ps ++
      if p.pType = ptLoad then walkPages p.vaStart p.pages else [] := by
  simp [segmentPages]

/-- The state after all pages of the headers `ps` were mapped. -/
structure LoadedAll
    (kernel : Nat → Prop) (dirs : List Nat) (d : Nat) (user : Nat → BitVec 8) (phdr : Nat)
    (s s' : State) (ps : List Phdr) : Prop where
  read : ∀ i p, ps[i]? = some p → ReadLater kernel dirs d s user (phdr + 32 * i) p
  pages : Loaded kernel dirs d s s' (segmentPages ps)

theorem LoadedAll.read_append
    {phdr : Nat} {ps : List Phdr} (h : LoadedAll kernel dirs d user phdr s s' ps) :
    ∀ i p, (ps ++ [readPhdr (byteOf s' user) (phdr + 32 * ps.length)])[i]? = some p →
      ReadLater kernel dirs d s user (phdr + 32 * i) p := by
  intro i p hp
  rcases Nat.lt_or_ge i ps.length with hi | hi
  · rw [List.getElem?_append_left hi] at hp
    exact h.read i p hp
  · have hlast : i = ps.length := by
      have hlen := (List.getElem?_eq_some_iff.mp hp).1
      rw [List.length_append, List.length_singleton] at hlen
      omega
    subst hlast
    rw [List.getElem?_append_right (Nat.le_refl _), Nat.sub_self] at hp
    cases hp
    exact ⟨s', _, h.pages.edit, rfl⟩

theorem LoadedAll.step {phdr : Nat} {ps : List Phdr} (h : LoadedAll kernel dirs d user phdr s s' ps)
    (hk : KernelHalf kernel kpt s dirs) (hd : d ∈ dirs)
    (hloop : loadLoop user phdr d s ps.length = .ok (ps, s')) :
    ∃ p, (∀ i q, (ps ++ [p])[i]? = some q → ReadLater kernel dirs d s user (phdr + 32 * i) q) ∧
      ((∃ s'', loadLoop user phdr d s (ps.length + 1) = .ok (ps ++ [p], s'') ∧
          Loaded kernel dirs d s s'' (segmentPages (ps ++ [p]))) ∨
        ∃ pages s'', loadLoop user phdr d s (ps.length + 1) = .error (pages.length, s'') ∧
          Stopped kernel dirs d s s'' pages (segmentPages (ps ++ [p]))) := by
  refine ⟨_, h.read_append, ?_⟩
  rw [loadLoop, hloop]
  dsimp only
  generalize readPhdr (byteOf s' user) (phdr + 32 * ps.length) = p
  rw [segmentPages_append]
  by_cases htype : p.pType = ptLoad
  · rw [if_pos htype, if_pos htype]
    rcases h.pages.allocRange hk hd segment_le with ⟨s1, hrange, hpages⟩ | ⟨k, s1, hrange, hstop⟩
    · rw [hrange]
      exact Or.inl ⟨s1, rfl, hpages⟩
    · rw [hrange]
      refine Or.inr ⟨_, s1, ?_, hstop⟩
      simp [walkPages]
  · rw [if_neg htype, if_neg htype, List.append_nil]
    exact Or.inl ⟨s', rfl, h.pages⟩

/-- The loop of `elf_load` maps the pages of every segment, or stops at one. -/
theorem loadLoop_spec
    (user : Nat → BitVec 8) (ho : Owned kernel s dirs) (hk : KernelHalf kernel kpt s dirs)
    (hd : d ∈ dirs) (phdr n : Nat) :
    (∃ ps s', loadLoop user phdr d s n = .ok (ps, s') ∧ ps.length = n ∧
        LoadedAll kernel dirs d user phdr s s' ps) ∨
      ∃ ps pages s', loadLoop user phdr d s n = .error (pages.length, s') ∧ ps.length ≤ n ∧
        (∀ i p, ps[i]? = some p → ReadLater kernel dirs d s user (phdr + 32 * i) p) ∧
        Stopped kernel dirs d s s' pages (segmentPages ps) := by
  induction n with
  | zero =>
    left
    refine ⟨[], s, rfl, rfl, ?_, loaded_refl ho⟩
    intro i p hp
    cases hp
  | succ n ih =>
    rcases ih with ⟨ps, s1, hloop, rfl, hall⟩ | ⟨ps, pages, s1, hloop, hlen, hrest⟩
    · obtain ⟨p, hread, ⟨s2, hstep, hpages⟩ | ⟨pages, s2, hstep, hstop⟩⟩ := hall.step hk hd hloop
      · exact Or.inl ⟨ps ++ [p], s2, hstep, by simp, hread, hpages⟩
      · exact Or.inr ⟨ps ++ [p], pages, s2, hstep, by simp, hread, hstop⟩
    · right
      refine ⟨ps, pages, s1, ?_, by omega, hrest⟩
      rw [loadLoop, hloop]

theorem Loaded.fresh {n : Nat} {pages : List Nat} (h : Loaded kernel dirs d s s' pages)
    (hempty : ∀ n, UserPage n → ¬ Shown s d n) (hn : n ∈ pages) :
    Shown s' d n ∧ bitmapTest s (entryFrame (pageSlot s' d n)) = false := by
  have huser := h.user n hn
  have hshown : Shown s' d n := (h.edit.shown n huser).mpr (Or.inl hn)
  refine ⟨hshown, ?_⟩
  by_contra hused
  obtain ⟨m, hm, hold, _⟩ := h.edit.pages _ (by simpa using hused) ⟨n, huser, hshown, rfl⟩
  exact hempty m hm hold

end Load

section Copy

variable {kernel : Nat → Prop} {kpt : Nat → Nat} {dirs : List Nat}
variable {s s' : State} {user : Nat → BitVec 8} {ehdr size pdir : Nat}

/-- When `elf_load` is called: a directory without user pages, and a buffer of
frames that the kernel holds. -/
structure LoadSetting (kernel : Nat → Prop) (kpt : Nat → Nat) (dirs : List Nat) (s : State)
    (ehdr size pdir : Nat) : Prop where
  owned : Owned kernel s dirs
  half : KernelHalf kernel kpt s dirs
  dir : pdir ∈ dirs
  empty : ∀ n, UserPage n → ¬ Shown s pdir n
  buffer : ∀ a, Inside ehdr size a → kernel (a / 4096) ∧ a / 4096 ∉ dirs
  low : ehdr + size ≤ 2 ^ 24
  header : 46 ≤ size

variable (h : LoadSetting kernel kpt dirs s ehdr size pdir)
include h

variable {new : Nat → Prop}

variable (hedit : UserEdit kernel dirs pdir s s' new)
include hedit

theorem LoadSetting.byteOf_eq {x : Nat} (hx : x < size) :
    byteOf s' user (ehdr + x) = byteOf s user (ehdr + x) := by
  have hlow := h.low
  have haddr : (ehdr + x) % 2 ^ 32 = ehdr + x := Nat.mod_eq_of_lt (by omega)
  obtain ⟨hkernel, hdir⟩ := h.buffer (ehdr + x) ⟨by omega, by omega⟩
  unfold byteOf
  rw [haddr, hedit.words _ hkernel hdir]

theorem LoadSetting.u32_eq {x : Nat} (hx : x + 4 ≤ size) :
    u32 (byteOf s' user) (ehdr + x) = u32 (byteOf s user) (ehdr + x) := by
  apply u32_congr
  intro j hj
  rw [Nat.add_assoc]
  exact h.byteOf_eq hedit (by omega)

theorem LoadSetting.ePhoff_eq :
    ePhoff (byteOf s' user) ehdr = ePhoff (byteOf s user) ehdr :=
  h.u32_eq hedit (by have := h.header; omega)

theorem LoadSetting.ePhnum_eq :
    ePhnum (byteOf s' user) ehdr = ePhnum (byteOf s user) ehdr := by
  have hheader := h.header
  apply u16_congr
  intro j hj
  rw [Nat.add_assoc]
  exact h.byteOf_eq hedit (by omega)

omit h hedit

/-- Two headers agree on the fields that `elf_copy_segments` uses. -/
structure SameCopy (p q : Phdr) : Prop where
  offset : p.pOffset = q.pOffset
  vaddr : p.pVaddr = q.pVaddr
  filesz : p.pFilesz = q.pFilesz

theorem LoadSetting.header_eq
    {x : Nat} {p : Phdr} (h : LoadSetting kernel kpt dirs s ehdr size pdir)
    (hread : ReadLater kernel dirs pdir s user (ehdr + x) p)
    (hedit : UserEdit kernel dirs pdir s s' new) :
    (x + 4 ≤ size → p.pType = (readPhdr (byteOf s' user) (ehdr + x)).pType) ∧
      (x + 20 ≤ size → SameCopy p (readPhdr (byteOf s' user) (ehdr + x))) := by
  obtain ⟨s1, new1, hedit1, rfl⟩ := hread
  have hword : ∀ y, x + y + 4 ≤ size →
      u32 (byteOf s1 user) (ehdr + x + y) = u32 (byteOf s' user) (ehdr + x + y) := by
    intro y hy
    rw [Nat.add_assoc, h.u32_eq hedit1 (by omega), h.u32_eq hedit (by omega)]
  refine ⟨fun hx => hword 0 (by omega), fun hx => ⟨?_, ?_, ?_⟩⟩
  · exact hword 4 (by omega)
  · exact hword 8 (by omega)
  · exact hword 16 (by omega)

/-- `elf_load` succeeds when its loop over the headers does. -/
theorem elfLoad_ok {ps : List Phdr} (h : LoadSetting kernel kpt dirs s ehdr size pdir)
    (hload : elfLoad s user ehdr pdir = .ok (ps, s')) :
    ps.length = ePhnum (byteOf s user) ehdr ∧
      LoadedAll kernel dirs pdir user (ehdr + ePhoff (byteOf s user) ehdr) s s' ps := by
  unfold elfLoad at hload
  dsimp only at hload
  split at hload
  · rcases loadLoop_spec user h.owned h.half h.dir
        (ehdr + ePhoff (byteOf s user) ehdr) (ePhnum (byteOf s user) ehdr) with
      ⟨ps', s1, hloop, hlen, hall⟩ | ⟨_, _, _, hloop, _⟩
    · rw [hloop] at hload
      cases hload
      exact ⟨hlen, hall⟩
    · rw [hloop] at hload
      cases hload
  · cases hload

section Headers

variable {ps : List Phdr} {i : Nat} {p : Phdr}

variable (h : LoadSetting kernel kpt dirs s ehdr size pdir)
variable (hall : LoadedAll kernel dirs pdir user (ehdr + ePhoff (byteOf s user) ehdr) s s' ps)
include h hall

/-- The header `i` when `elf_copy_segments` reads it. -/
theorem LoadSetting.phdrAt_eq (i : Nat) :
    phdrAddr (byteOf s' user) ehdr i = ehdr + (ePhoff (byteOf s user) ehdr + 32 * i) := by
  unfold phdrAddr
  rw [h.ePhoff_eq hall.pages.edit, Nat.add_assoc]

theorem LoadSetting.read_eq (hp : ps[i]? = some p) :
    (ePhoff (byteOf s user) ehdr + 32 * i + 4 ≤ size →
        p.pType = (phdrAt (byteOf s' user) ehdr i).pType) ∧
      (ePhoff (byteOf s user) ehdr + 32 * i + 20 ≤ size →
        SameCopy p (phdrAt (byteOf s' user) ehdr i)) := by
  have hread := hall.read i p hp
  rw [Nat.add_assoc] at hread
  unfold phdrAt
  rw [h.phdrAt_eq hall i]
  exact h.header_eq hread hall.pages.edit

theorem LoadSetting.copySafe (hlen : ps.length = ePhnum (byteOf s user) ehdr)
    (hfit : SegmentsFit (ePhoff (byteOf s user) ehdr) size ps) :
    CopySafe user ehdr size pdir s s' ps := by
  have hlow := h.low
  have hheader := h.header
  have hget : ∀ i, i < ePhnum (byteOf s' user) ehdr → ∃ p, ps[i]? = some p := by
    intro i hi
    rw [h.ePhnum_eq hall.pages.edit, ← hlen] at hi
    exact ⟨ps[i], List.getElem?_eq_getElem hi⟩
  refine ⟨?_, ?_⟩
  · intro a len hreads
    cases hreads with
    | phoff => exact (inside_iff hlow (by omega)).mpr (Or.inr (by omega))
    | phnum => exact (inside_iff hlow (by omega)).mpr (Or.inr (by omega))
    | type i hi =>
      obtain ⟨p, hp⟩ := hget i hi
      have hfirst := (hfit i p hp).1
      rw [h.phdrAt_eq hall i]
      exact (inside_iff hlow (by omega)).mpr (Or.inr hfirst)
    | offsetVaddr i hi hload =>
      obtain ⟨p, hp⟩ := hget i hi
      obtain ⟨hfirst, hrest⟩ := hfit i p hp
      have hbounds := (hrest (((h.read_eq hall hp).1 hfirst).trans hload)).1
      rw [h.phdrAt_eq hall i, Nat.add_assoc]
      exact (inside_iff hlow (by omega)).mpr (Or.inr (by omega))
    | filesz i hi hload =>
      obtain ⟨p, hp⟩ := hget i hi
      obtain ⟨hfirst, hrest⟩ := hfit i p hp
      have hbounds := (hrest (((h.read_eq hall hp).1 hfirst).trans hload)).1
      rw [h.phdrAt_eq hall i, Nat.add_assoc]
      exact (inside_iff hlow (by omega)).mpr (Or.inr (by omega))
    | data i hi hload =>
      obtain ⟨p, hp⟩ := hget i hi
      obtain ⟨hfirst, hrest⟩ := hfit i p hp
      obtain ⟨hbounds, hplace⟩ := hrest (((h.read_eq hall hp).1 hfirst).trans hload)
      have hsame := (h.read_eq hall hp).2 hbounds
      apply (inside_iff hlow (u32_lt _ _)).mpr
      rcases hplace with hempty | ⟨hfile, _⟩
      · exact Or.inl (hsame.filesz ▸ hempty)
      · right
        change (phdrAt (byteOf s' user) ehdr i).pOffset +
          (phdrAt (byteOf s' user) ehdr i).pFilesz ≤ size
        rw [← hsame.offset, ← hsame.filesz]
        exact hfile
  · intro i hi hload p hp k hk
    obtain ⟨hfirst, hrest⟩ := hfit i p hp
    have htype := ((h.read_eq hall hp).1 hfirst).trans hload
    obtain ⟨hbounds, hplace⟩ := hrest htype
    have hsame := (h.read_eq hall hp).2 hbounds
    rw [← hsame.vaddr]
    rw [← hsame.filesz] at hk
    have hvaddr : p.pVaddr < 2 ^ 32 := hsame.vaddr ▸ u32_lt _ _
    have hrange := (writes_iff hvaddr).mpr
      (hplace.elim (fun he => absurd hk (by omega)) (fun hin => Or.inr hin.2)) k hk
    have hpage : (p.pVaddr + k) % 2 ^ 32 / 4096 ∈ segmentPages ps := by
      refine List.mem_flatMap.mpr ⟨p, List.mem_of_getElem? hp, ?_⟩
      rw [if_pos htype, mem_walkPages, inRange_segment]
      have hstart : p.vaStart % 4096 = 0 := by
        unfold Phdr.vaStart pageDown
        omega
      omega
    obtain ⟨hshown, hfresh⟩ := hall.pages.fresh h.empty hpage
    exact ⟨hrange.1, hrange.2, hshown, hfresh⟩

theorem LoadSetting.segmentsFit (hlen : ps.length = ePhnum (byteOf s user) ehdr)
    (hsafe : CopySafe user ehdr size pdir s s' ps) :
    SegmentsFit (ePhoff (byteOf s user) ehdr) size ps := by
  have hlow := h.low
  intro i p hp
  have hnum : ePhnum (byteOf s' user) ehdr = ePhnum (byteOf s user) ehdr :=
    h.ePhnum_eq hall.pages.edit
  have hi : i < ePhnum (byteOf s' user) ehdr := by
    rw [hnum, ← hlen]
    exact (List.getElem?_eq_some_iff.mp hp).1
  have hcount : ePhnum (byteOf s' user) ehdr < 65536 := u16_lt _ _
  -- the first header bounds the offset of the table, so that no header wraps
  have hphoff : ePhoff (byteOf s user) ehdr + 4 ≤ size := by
    have hfirst := hsafe.reads _ _ (.type 0 (Nat.zero_lt_of_lt hi))
    rw [h.phdrAt_eq hall 0] at hfirst
    have hoff : ePhoff (byteOf s user) ehdr < 2 ^ 32 := u32_lt _ _
    rcases (inside_iff hlow (by omega)).mp hfirst with h0 | h0
    · omega
    · omega
  have htype : ePhoff (byteOf s user) ehdr + 32 * i + 4 ≤ size := by
    have hreads := hsafe.reads _ _ (.type i hi)
    rw [h.phdrAt_eq hall i] at hreads
    rcases (inside_iff hlow (by omega)).mp hreads with h0 | h0
    · omega
    · exact h0
  refine ⟨htype, ?_⟩
  intro hload
  have hload' := ((h.read_eq hall hp).1 htype).symm.trans hload
  have hbounds : ePhoff (byteOf s user) ehdr + 32 * i + 20 ≤ size := by
    have hreads := hsafe.reads _ _ (.filesz i hi hload')
    rw [h.phdrAt_eq hall i, Nat.add_assoc] at hreads
    rcases (inside_iff hlow (by omega)).mp hreads with h0 | h0
    · omega
    · omega
  have hsame := (h.read_eq hall hp).2 hbounds
  have hfile := (inside_iff hlow (u32_lt _ _)).mp (hsafe.reads _ _ (.data i hi hload'))
  have hvaddr : p.pVaddr < 2 ^ 32 := hsame.vaddr ▸ u32_lt _ _
  have hmem := (writes_iff hvaddr).mp (by
    intro k hk
    have hmapped := hsafe.writes i hi hload' p hp k (hsame.filesz ▸ hk)
    rw [← hsame.vaddr] at hmapped
    exact ⟨hmapped.low, hmapped.high⟩)
  have hoffset := hsame.offset
  have hfilesz := hsame.filesz
  refine ⟨hbounds, ?_⟩
  rcases hmem with hno | hmem
  · exact Or.inl hno
  · rcases hfile with hno | hfile
    · left
      exact hfilesz.trans hno
    · right
      refine ⟨?_, hmem⟩
      rw [hoffset, hfilesz]
      exact hfile

end Headers

/-- After a successful `elf_load`, `elf_copy_segments` stays in the buffer and in
the pages of each segment exactly when the headers say so; nothing tests it. -/
theorem elf_copy_safe_iff
    (h : LoadSetting kernel kpt dirs s ehdr size pdir) (user : Nat → BitVec 8) {ps : List Phdr}
    (hload : elfLoad s user ehdr pdir = .ok (ps, s')) :
    CopySafe user ehdr size pdir s s' ps ↔
      SegmentsFit (ePhoff (byteOf s user) ehdr) size ps := by
  obtain ⟨hlen, hall⟩ := elfLoad_ok h hload
  exact ⟨h.segmentsFit hall hlen, h.copySafe hall hlen⟩

/--
The booted kernel with an executable of one segment in frame 6: its offset,
address, size in the file and size in memory.
-/
def elfSpace (offset vaddr filesz memsz : BitVec 32) : State where
  frameBitmap := Function.update (fun _ => 0) 0 0x7F
  mem := fun f i =>
    if f = 6 then
      [0x464C457F#32, 0x101#32, 0#32, 0#32, 0x30002#32, 1#32, vaddr, 52#32, 0#32, 0#32,
        0x200034#32, 1#32, 0#32, 1#32, offset, vaddr, vaddr, filesz, memsz].getD i 0#32
    else
      bootedSpace.mem f i

theorem elfSpace_setting (offset vaddr filesz memsz : BitVec 32) :
    LoadSetting (fun f => f < 5 ∨ f = 6) (· + 1) [5] (elfSpace offset vaddr filesz memsz)
      0x6000 0x1000 5 := by
  have hstart : MmStart (fun f => f < 5 ∨ f = 6) (elfSpace offset vaddr filesz memsz) [5] := by
    have hused : ∀ f, f < 7 → Bitmap.test (Function.update (fun _ => 0#32) 0 0x7F) f = true := by
      decide
    refine ⟨by decide, ?_, ?_, ?_⟩
    · intro f hf
      exact hused f (by omega)
    · intro d hd
      obtain rfl : d = 5 := by simpa using hd
      exact hused 5 (by decide)
    · intro d hd i hlo hhi
      obtain rfl : d = 5 := by simpa using hd
      exact bootedSpace_start.empty 5 (by decide) i hlo hhi
  have hhalf : KernelHalf (fun f => f < 5 ∨ f = 6) (· + 1)
      (elfSpace offset vaddr filesz memsz) [5] := by
    refine ⟨fun i hi => Or.inl (by omega), bootedSpace_kernelHalf.notDir,
      bootedSpace_kernelHalf.lt, ?_, ?_⟩
    · intro d hd i hi
      obtain rfl : d = 5 := by simpa using hd
      exact bootedSpace_kernelHalf.entry 5 (by decide) i hi
    · intro i j hi hj
      have hne : i + 1 ≠ 6 := by omega
      simp only [elfSpace, if_neg hne]
      exact bootedSpace_kernelHalf.ident i j hi hj
  refine ⟨hstart.owned, hhalf, by decide, ?_, ?_, by decide, by decide⟩
  · intro n hn
    have habsent := hstart.empty 5 (by decide) (n / 1024) hn.pd.1 hn.pd.2
    unfold Shown pageSlot slot
    rw [habsent]
    simp
  · intro a ha
    have hframe : a / 4096 = 6 := by
      unfold Inside at ha
      omega
    rw [hframe]
    exact ⟨Or.inr rfl, by decide⟩

/-- An executable that loads four bytes at 128 MiB. -/
theorem elf_copy_safe_iff_small :
    ∃ ps s', elfLoad (elfSpace 0 0x8000000 4 4) (fun _ => 0#8) 0x6000 5 = .ok (ps, s') ∧
      CopySafe (fun _ => 0#8) 0x6000 0x1000 5 (elfSpace 0 0x8000000 4 4) s' ps := by
  have hheaders : (elfLoad (elfSpace 0 0x8000000 4 4) (fun _ => 0#8) 0x6000 5).toOption.map
      Prod.fst = some [⟨1, 0, 0x8000000, 4, 4⟩] := by
    decide +kernel
  cases hload : elfLoad (elfSpace 0 0x8000000 4 4) (fun _ => 0#8) 0x6000 5 with
  | error e =>
    rw [hload] at hheaders
    cases hheaders
  | ok r =>
    obtain ⟨ps, s'⟩ := r
    rw [hload] at hheaders
    obtain rfl : ps = [⟨1, 0, 0x8000000, 4, 4⟩] := by simpa [Except.toOption] using hheaders
    refine ⟨_, s', rfl, (elf_copy_safe_iff (elfSpace_setting 0 0x8000000 4 4) _ hload).mpr ?_⟩
    intro i p hp
    have hi : i = 0 := by
      have := (List.getElem?_eq_some_iff.mp hp).1
      simpa using this
    subst hi
    cases hp
    decide

/-- An executable with one byte in the file and none in memory: `elf_load` maps
no page, and the byte goes to the kernel's page at 0x1000. -/
theorem elf_copy_writes_kernel :
    ∃ ps, elfLoad (elfSpace 0 0x1000 1 0) (fun _ => 0#8) 0x6000 5 =
        .ok (ps, elfSpace 0 0x1000 1 0) ∧
      pageSlot (elfSpace 0 0x1000 1 0) 5 1 = mkEntry 1 tableFlags ∧
      ¬ CopySafe (fun _ => 0#8) 0x6000 0x1000 5 (elfSpace 0 0x1000 1 0)
        (elfSpace 0 0x1000 1 0) ps := by
  refine ⟨[⟨1, 0, 0x1000, 1, 0⟩], ?_, by decide +kernel, ?_⟩
  · rfl
  · intro hsafe
    have hmapped := hsafe.writes 0 (by decide) (by rfl) _ rfl 0
      (by decide)
    exact absurd hmapped.high (by decide)

end Copy

end Exec
end Homunculos
