import Homunculos.Exec.SysExec

/-!
# The frames that an exec call takes

When the frames of the file buffer come out right, and what a call that fails leaves of
the frames in use.  The pages of the new program are taken one by one, in the order of the
program headers, and none of them is given back on failure; so a call is right only if the
free frames suffice for all of them or not for the first.
-/

namespace Homunculos
namespace Exec

open Bytes Mm

section Frames

variable {s s' : State} {c : ExecCall} {n b p : Nat} {rest : List Nat} {kpt : Nat → Nat}

/-- The identity map of the kernel and its directory stand in frames in use. -/
structure Booted (s : State) (kernelPdir : Nat) (kpt : Nat → Nat) : Prop where
  zero : bitmapTest s 0 = true
  dirUsed : bitmapTest s kernelPdir = true
  used : ∀ i, i < 4 → bitmapTest s (kpt i) = true
  lt : ∀ i, i < 4 → kpt i < identPages
  entry : ∀ i, i < 4 → s.mem kernelPdir i = mkEntry (kpt i) tableFlags
  ident : ∀ i j, i < 4 → j < dirSize →
    s.mem (kpt i) j = mkEntry (i * dirSize + j) tableFlags

/-- What is read from address `a` on is in frames in use, or in the pages of the task. -/
def Held (s : State) (a len : Nat) : Prop :=
  ∀ k, k < len → (a + k) % 2 ^ 32 / 4096 < identPages →
    bitmapTest s ((a + k) % 2 ^ 32 / 4096) = true

/-- The header of the file at `ehdr` and its program headers are in such frames. -/
structure HeadersHeld (s : State) (user : Nat → BitVec 8) (ehdr : Nat) : Prop where
  header : Held s ehdr 52
  table : ∀ i, i < ePhnum (byteOf s user) ehdr → Held s (phdrAddr (byteOf s user) ehdr i) 32

/-- The program headers of the file at `ehdr`. -/
def headers (m : Nat → BitVec 8) (ehdr : Nat) : List Phdr :=
  (List.range (ePhnum m ehdr)).map (phdrAt m ehdr)

section Held

variable {user : Nat → BitVec 8} {ehdr a len : Nat}

theorem Held.byteOf_eq (h : Held s a len) (hk : Keeps s s') {k : Nat} (hlt : k < len) :
    byteOf s' user (a + k) = byteOf s user (a + k) := by
  unfold byteOf
  split
  · rename_i hlow
    rw [hk.mem _ (h k hlt hlow)]
  · rfl

theorem Held.u32_eq (h : Held s a len) (hk : Keeps s s') {k : Nat} (hlt : k + 4 ≤ len) :
    u32 (byteOf s' user) (a + k) = u32 (byteOf s user) (a + k) := by
  apply u32_congr
  intro j hj
  rw [Nat.add_assoc]
  exact h.byteOf_eq hk (by omega)

theorem Held.u16_eq (h : Held s a len) (hk : Keeps s s') {k : Nat} (hlt : k + 2 ≤ len) :
    u16 (byteOf s' user) (a + k) = u16 (byteOf s user) (a + k) := by
  apply u16_congr
  intro j hj
  rw [Nat.add_assoc]
  exact h.byteOf_eq hk (by omega)

theorem Held.readPhdr_eq (h : Held s a 32) (hk : Keeps s s') :
    readPhdr (byteOf s' user) a = readPhdr (byteOf s user) a := by
  unfold readPhdr
  have hfirst : u32 (byteOf s' user) a = u32 (byteOf s user) a := h.u32_eq hk (k := 0) (by decide)
  rw [hfirst, h.u32_eq hk (by decide), h.u32_eq hk (by decide), h.u32_eq hk (by decide),
    h.u32_eq hk (by decide)]

variable (h : HeadersHeld s user ehdr) (hk : Keeps s s')
include h hk

theorem HeadersHeld.ePhoff_eq :
    ePhoff (byteOf s' user) ehdr = ePhoff (byteOf s user) ehdr :=
  h.header.u32_eq hk (by decide)

theorem HeadersHeld.ePhnum_eq :
    ePhnum (byteOf s' user) ehdr = ePhnum (byteOf s user) ehdr :=
  h.header.u16_eq hk (by decide)

theorem HeadersHeld.elfValidate_eq :
    elfValidate (byteOf s' user) ehdr = elfValidate (byteOf s user) ehdr := by
  have hmagic : u32 (byteOf s' user) ehdr = u32 (byteOf s user) ehdr :=
    h.header.u32_eq hk (k := 0) (by decide)
  unfold elfValidate
  rw [hmagic, h.header.byteOf_eq hk (by decide), h.header.byteOf_eq hk (by decide),
    h.header.u16_eq hk (by decide), h.header.u16_eq hk (by decide)]

theorem HeadersHeld.readPhdr_eq {i : Nat} (hi : i < ePhnum (byteOf s user) ehdr) :
    readPhdr (byteOf s' user) (ehdr + ePhoff (byteOf s user) ehdr + 32 * i) =
      phdrAt (byteOf s user) ehdr i :=
  (h.table i hi).readPhdr_eq hk

theorem HeadersHeld.headers_eq :
    headers (byteOf s' user) ehdr = headers (byteOf s user) ehdr := by
  unfold headers
  rw [h.ePhnum_eq hk]
  apply List.map_congr_left
  intro i hi
  rw [← h.readPhdr_eq hk (List.mem_range.mp hi)]
  unfold phdrAt phdrAddr
  rw [h.ePhoff_eq hk]

end Held

theorem Booted.of_keeps (h : Booted s c.kernelPdir kpt) (hk : Keeps s s') :
    Booted s' c.kernelPdir kpt := by
  refine ⟨hk.used _ h.zero, hk.used _ h.dirUsed, fun i hi => hk.used _ (h.used i hi), h.lt, ?_, ?_⟩
  · intro i hi
    rw [hk.mem _ h.dirUsed]
    exact h.entry i hi
  · intro i j hi hj
    rw [hk.mem _ (h.used i hi)]
    exact h.ident i j hi hj

theorem mem_storeBytes
    {a f : Nat} {data : List (BitVec 8)} (h : f * 4096 + 4096 ≤ a ∨ a + data.length ≤ f * 4096) :
    (storeBytes s a data).mem f = s.mem f := by
  funext i
  unfold storeBytes
  dsimp only
  split
  · rename_i hi
    unfold dirSize at hi
    rw [← word_byteAt (s.mem f i)]
    apply word_congr
    intro j hj
    rw [if_neg (by omega), word_byteAt]
  · rfl

theorem Taken.keeps_read
    {data : List (BitVec 8)} (h : Taken n s s' (b :: rest)) (hregion : RegionTaken n b (b :: rest))
    (hdata : data.length ≤ n * 4096) :
    Keeps s (storeBytes s' (b * 4096) data) := by
  refine ⟨fun f hf => (h.used f).mpr (Or.inl hf), ?_⟩
  intro f hf
  have hnot : ¬ (b ≤ f ∧ f < b + n) := by
    intro hin
    have hfree := h.free f ((hregion.mem_iff h f).mpr hin)
    rw [hf] at hfree
    cases hfree
  rw [mem_storeBytes (by omega), h.mem]

/-- The new directory in a frame `p` that was free. -/
def newDir (s : State) (p kernelPdir : Nat) : State :=
  copyKernelEntries (zeroFrame (bitmapSet s p) p) p kernelPdir

theorem bitmapTest_newDir (s : State) (p kernelPdir f : Nat) :
    bitmapTest (newDir s p kernelPdir) f = (decide (f = p) || bitmapTest s f) := by
  exact bitmapTest_bitmapSet s p f

theorem mem_newDir_of_ne {kernelPdir f : Nat} (hf : f ≠ p) :
    (newDir s p kernelPdir).mem f = s.mem f := by
  unfold newDir copyKernelEntries
  simp [hf, mem_zeroFrame_of_ne]

theorem keeps_newDir (kernelPdir : Nat) (hp : bitmapTest s p = false) :
    Keeps s (newDir s p kernelPdir) := by
  refine ⟨fun f hf => by simp [bitmapTest_newDir, hf], ?_⟩
  intro f hf
  apply mem_newDir_of_ne
  rintro rfl
  rw [hf] at hp
  cases hp

theorem mem_newDir_self {kernelPdir i : Nat} (hne : kernelPdir ≠ p) :
    (newDir s p kernelPdir).mem p i = if i < 4 then s.mem kernelPdir i else 0#32 := by
  unfold newDir copyKernelEntries
  simp [mem_zeroFrame_of_ne _ hne]

theorem Booted.loadSetting
    {a size : Nat} (h : Booted s c.kernelPdir kpt) (hp : bitmapTest s p = false)
    (hplt : p < identPages) (hbuffer : ∀ x, Inside a size x → bitmapTest s (x / 4096) = true)
    (hlow : a + size ≤ 2 ^ 24) (hsize : 46 ≤ size) :
    LoadSetting (fun f => bitmapTest s f = true) kpt [p] (newDir s p c.kernelPdir)
      a size p := by
  have hk := keeps_newDir c.kernelPdir hp
  have hne : ∀ f, bitmapTest s f = true → f ≠ p := by
    rintro f hf rfl
    rw [hf] at hp
    cases hp
  have hpdir := hne _ h.dirUsed
  have hstart : MmStart (fun f => bitmapTest s f = true) (newDir s p c.kernelPdir) [p] := by
    refine ⟨h.zero, hk.used, ?_, ?_⟩
    · intro d hd
      rw [List.mem_singleton.mp hd, bitmapTest_newDir]
      simp
    · intro d hd i hlo _
      rw [List.mem_singleton.mp hd, mem_newDir_self hpdir, if_neg (by omega)]
      exact present_zero
  have hhalf : KernelHalf (fun f => bitmapTest s f = true) kpt (newDir s p c.kernelPdir) [p] := by
    refine ⟨h.used, ?_, h.lt, ?_, ?_⟩
    · intro i hi hmem
      exact hne _ (h.used i hi) (List.mem_singleton.mp hmem)
    · intro d hd i hi
      rw [List.mem_singleton.mp hd, mem_newDir_self hpdir, if_pos hi]
      exact h.entry i hi
    · intro i j hi hj
      rw [hk.mem _ (h.used i hi)]
      exact h.ident i j hi hj
  refine ⟨hstart.owned, hhalf, List.mem_singleton.mpr rfl, ?_, ?_, hlow, hsize⟩
  · intro m hm
    have habsent := hstart.empty p (List.mem_singleton.mpr rfl) (m / 1024) hm.pd.1 hm.pd.2
    unfold Shown pageSlot slot
    rw [habsent]
    simp
  · intro x hx
    have hused := hbuffer x hx
    exact ⟨hused, fun hmem => hne _ hused (List.mem_singleton.mp hmem)⟩

/-- The pages of a program: those of its segments, and the stack. -/
def wantedPages (ps : List Phdr) : List Nat :=
  segmentPages ps ++ walkPages (userStackTop - userStackSize) (userStackSize / 4096)

theorem segmentPages_isPrefix {ps qs : List Phdr} (h : ps <+: qs) :
    segmentPages ps <+: segmentPages qs := by
  obtain ⟨rest, rfl⟩ := h
  unfold segmentPages
  rw [List.flatMap_append]
  exact List.prefix_append _ _

theorem keeps_edit {kernelPdir : Nat} {new : Nat → Prop}
    (h : UserEdit (fun f => bitmapTest s f = true) [p] p (newDir s p kernelPdir) s' new)
    (hp : bitmapTest s p = false) :
    Keeps s s' := by
  refine ⟨h.owned.kernelUsed, ?_⟩
  intro f hf
  have hne : f ≠ p := by
    rintro rfl
    rw [hf] at hp
    cases hp
  rw [h.words f hf (fun hmem => hne (List.mem_singleton.mp hmem)), mem_newDir_of_ne hne]

theorem HeadersHeld.read_prefix {user : Nat → BitVec 8} {ehdr kernelPdir : Nat} {ps : List Phdr}
    (h : HeadersHeld s user ehdr) (hp : bitmapTest s p = false)
    (hlen : ps.length ≤ ePhnum (byteOf s user) ehdr)
    (hread : ∀ i q, ps[i]? = some q → ReadLater (fun f => bitmapTest s f = true) [p] p
      (newDir s p kernelPdir) user (ehdr + ePhoff (byteOf s user) ehdr + 32 * i) q) :
    ps <+: headers (byteOf s user) ehdr := by
  rw [List.prefix_iff_getElem?]
  intro i hi
  obtain ⟨s', new, hedit, heq⟩ := hread i ps[i] (List.getElem?_eq_getElem hi)
  have hlt : i < ePhnum (byteOf s user) ehdr := by omega
  rw [heq, h.readPhdr_eq (keeps_edit hedit hp) hlt]
  simp [headers, hlt]

/-- `elf_load` of a valid file and then the stack: all pages are mapped, or the loading stops
at one of them. -/
theorem HeadersHeld.load {user : Nat → BitVec 8} {ehdr size kernelPdir : Nat}
    (h : HeadersHeld s user ehdr) (hp : bitmapTest s p = false) (hp0 : p ≠ 0)
    (hvalid : elfValidate (byteOf s user) ehdr = true)
    (hset : LoadSetting (fun f => bitmapTest s f = true) kpt [p] (newDir s p kernelPdir) ehdr size
      p) :
    (∃ pages e, elfLoad (newDir s p kernelPdir) user ehdr p = .error (pages.length, e) ∧
        Stopped (fun f => bitmapTest s f = true) [p] p (newDir s p kernelPdir) e pages
          (wantedPages (headers (byteOf s user) ehdr))) ∨
      ∃ s1, elfLoad (newDir s p kernelPdir) user ehdr p =
          .ok (headers (byteOf s user) ehdr, s1) ∧
        Loaded (fun f => bitmapTest s f = true) [p] p (newDir s p kernelPdir) s1
          (segmentPages (headers (byteOf s user) ehdr)) := by
  have hkeep := keeps_newDir kernelPdir hp
  have hrun : elfLoad (newDir s p kernelPdir) user ehdr p =
      loadLoop user (ehdr + ePhoff (byteOf s user) ehdr) p (newDir s p kernelPdir)
        (ePhnum (byteOf s user) ehdr) := by
    unfold elfLoad
    dsimp only
    rw [h.elfValidate_eq hkeep, h.ePhoff_eq hkeep, h.ePhnum_eq hkeep]
    exact if_pos ⟨hvalid, hp0⟩
  rw [hrun]
  rcases loadLoop_spec user hset.owned hset.half hset.dir (ehdr + ePhoff (byteOf s user) ehdr)
      (ePhnum (byteOf s user) ehdr) with
    ⟨ps, s1, hloop, hlen, hall⟩ | ⟨ps, pages, s1, hloop, hlen, hread, hstop⟩
  · have hps := (h.read_prefix hp hlen.le hall.read).eq_of_length (by simp [headers, hlen])
    subst hps
    exact Or.inr ⟨s1, hloop, hall.pages⟩
  · have hps := h.read_prefix hp hlen hread
    obtain ⟨m, hnext, hwhy⟩ := hstop.next
    exact Or.inl ⟨pages, s1, hloop, hstop.loaded, m,
      hnext.trans ((segmentPages_isPrefix hps).trans (List.prefix_append _ _)), hwhy⟩

section Fits

variable {kernel : Nat → Prop} {s0 t : State} {m : Nat} {pages wanted : List Nat}

variable (hfresh : ∀ m, UserPage m → present (t.mem p (m / 1024)) = false)
variable (hfree : freeFrames s0 = n + 1 + freeFrames t)
include hfresh hfree

end Fits

section Fail

variable {s1 s2 : State} {mapped : Nat}

variable (h : Taken n s s' (b :: rest)) (hrel : ReleasesTaken (bufferFrames b n) (b :: rest))
include h hrel

end Fail

section Load

variable {s1 : State} (h : Taken n s s' (b :: rest)) (hregion : RegionTaken n b (b :: rest))
variable (hused : ∀ f, bitmapTest s1 f = bitmapTest s' f) (hbooted : Booted s1 c.kernelPdir kpt)
variable (hheld : HeadersHeld s1 c.user (b * 4096))
variable (hvalid : elfValidate (byteOf s1 c.user) (b * 4096) = true)
include h hregion hused hbooted hheld hvalid

/--
From the allocation of the directory on, with a buffer that came out right and a valid file
in it: there is no frame for the directory, or the program is loaded below it, as far as the
frames suffice.
-/
theorem Taken.loadProgram_cases :
    (freeFrames s1 = 0 ∧ loadProgram c n (b :: rest) s1 = failRun s1 (b :: rest) n true 0) ∨
    ∃ p s2 pages, bitmapTest s1 p = false ∧ p < identPages ∧
      LoadSetting (fun f => bitmapTest s1 f = true) kpt [p] (newDir s1 p c.kernelPdir) (b * 4096)
        (n * 4096) p ∧
      ((Stopped (fun f => bitmapTest s1 f = true) [p] p (newDir s1 p c.kernelPdir) s2 pages
            (wantedPages (headers (byteOf s1 c.user) (b * 4096))) ∧
          loadProgram c n (b :: rest) s1 =
            failRun (mmFrameFree s2 p) (b :: rest) n true pages.length) ∨
        (Loaded (fun f => bitmapTest s1 f = true) [p] p (newDir s1 p c.kernelPdir) s2 pages ∧
          pages = wantedPages (headers (byteOf s1 c.user) (b * 4096)) ∧
          loadProgram c n (b :: rest) s1 = finishExec c n (b :: rest) p pages.length s2)) := by
  have hn : 0 < n := Nat.lt_of_lt_of_le (Nat.succ_pos _) h.length_le
  have hlast := h.lt _ (hregion (n - 1) (by omega))
  have hbuffer : ∀ x, Inside (b * 4096) (n * 4096) x → bitmapTest s1 (x / 4096) = true := by
    intro x hx
    unfold Inside at hx
    rw [hused, h.used, hregion.mem_iff h]
    right
    omega
  have hlow : b * 4096 + n * 4096 ≤ 2 ^ 24 := by
    unfold identPages at hlast
    omega
  rcases mmFrameAlloc_cases s1 hbooted.zero with hnone | ⟨p, hp0, hplt, hp, halloc⟩
  · left
    refine ⟨freeFrames_eq_zero s1 hbooted.zero hnone, ?_⟩
    unfold loadProgram
    rw [hnone]
    rfl
  right
  have hset : LoadSetting (fun f => bitmapTest s1 f = true) kpt [p]
      (newDir s1 p c.kernelPdir) (b * 4096) (n * 4096) p :=
    hbooted.loadSetting hp hplt hbuffer hlow (by omega)
  simp only [loadProgram, halloc, if_neg hp0, List.headD_cons, show copyKernelEntries
    (zeroFrame (bitmapSet s1 p) p) p c.kernelPdir = newDir s1 p c.kernelPdir from rfl]
  rcases hheld.load hp hp0 hvalid hset with ⟨pages, e, hload, hstop⟩ | ⟨s2, hload, hloaded⟩
  · rw [hload]
    exact ⟨p, e, pages, hp, hplt, hset, Or.inl ⟨hstop, rfl⟩⟩
  · rw [hload]
    dsimp only
    rcases hloaded.allocRange hset.half hset.dir
        (show 0 < userStackSize / 4096 → _ ≤ _ from fun _ => (by decide :
          userStackTop - userStackSize + userStackSize / 4096 * 4096 ≤ 2 ^ 32)) with
      ⟨s3, hrange, hall⟩ | ⟨k, e, hrange, hstop⟩
    · rw [hrange]
      refine ⟨p, s3, _, hp, hplt, hset, Or.inr ⟨hall, rfl, ?_⟩⟩
      simp [walkPages]
    · rw [hrange]
      refine ⟨p, e, _, hp, hplt, hset, Or.inl ⟨hstop, ?_⟩⟩
      simp [walkPages]

end Load

/-- The pages of the file that a call reads. -/
def ExecCall.filePages (c : ExecCall) : Nat :=
  match c.file with
  | none => 0
  | some file => if file.isFile = false then 0 else numPages file.size

variable {file : ExecFile}

theorem numPages_pos (h : 0 < numPages file.size) :
    file.data.length ≤ numPages file.size * 4096 := by
  have hlt := file.size_lt
  have hle := file.data_le
  unfold numPages at *
  omega

/-- The part of a call behind the loop that takes the buffer. -/
def readAndLoad (c : ExecCall) (file : ExecFile) (n : Nat) (taken : List Nat)
    (s : State) : ExecRun :=
  let s' := storeBytes s (taken.headD 0 * 4096) file.data
  if file.readOk = true ∧ elfValidate (byteOf s' c.user) (taken.headD 0 * 4096) = true then
    loadProgram c n taken s'
  else
    failRun s' taken n true 0

theorem sysExec_of_file
    (hfile : c.file = some file) (hregular : file.isFile = true) (s : State) :
    sysExec s c =
      if (allocBuffer (numPages file.size) s).1.length < numPages file.size then
        failRun (allocBuffer (numPages file.size) s).2 (allocBuffer (numPages file.size) s).1
          (numPages file.size) false 0
      else
        readAndLoad c file (numPages file.size) (allocBuffer (numPages file.size) s).1
          (allocBuffer (numPages file.size) s).2 := by
  unfold sysExec
  rw [hfile]
  simp only [hregular]
  rfl

/-- An empty file has no buffer, and its header is at the null pointer. -/
theorem readAndLoad_nil (c : ExecCall) (file : ExecFile) (n : Nat) (s : State) :
    readAndLoad c file n [] s = failRun (storeBytes s 0 file.data) [] n true 0 := by
  unfold readAndLoad
  simp [elfValidate]

/-- The frame at which the file buffer begins. -/
def bufferStart (s : State) : Nat :=
  (mmFrameAlloc s).1

/-- What the kernel reads with the file in its buffer. -/
def ExecCall.image (c : ExecCall) (file : ExecFile) (s : State) : Nat → BitVec 8 :=
  byteOf (storeBytes s (bufferStart s * 4096) file.data) c.user

/-- The call names a file that can be read and is accepted. -/
structure Executable (s : State) (c : ExecCall) (file : ExecFile) : Prop where
  file_eq : c.file = some file
  regular : file.isFile = true
  pages : 0 < numPages file.size
  readOk : file.readOk = true
  valid : elfValidate (c.image file s) (bufferStart s * 4096) = true

/-- The program headers that the call uses are in the file or in frames in use, or in the pages
of the task. -/
def HeadersStand (s : State) (c : ExecCall) : Prop :=
  ∀ file, Executable s c file →
    ∀ i k f, i < ePhnum (c.image file s) (bufferStart s * 4096) → k < 32 →
      (phdrAddr (c.image file s) (bufferStart s * 4096) i + k) % 2 ^ 32 / 4096 = f →
      f < identPages → bitmapTest s f = true ∨
        bufferStart s ≤ f ∧ f < bufferStart s + numPages file.size

theorem Taken.bufferStart_eq (h : Taken n s s' (b :: rest)) (hzero : bitmapTest s 0 = true) :
    bufferStart s = b := by
  have hclear := h.free b List.mem_cons_self
  unfold bufferStart
  rcases mmFrameAlloc_cases s hzero with hnone | ⟨f, _, _, hfree, hf⟩
  · have hfull := (Bitmap.zeros_eq_zero_iff _ _).mp (freeFrames_eq_zero s hzero hnone)
    rw [hfull b h.bound] at hclear
    cases hclear
  · have hleast : ∀ g, g < f → bitmapTest s g = true := fun g hg =>
      mmFrameAlloc_least (by rw [hf]; exact hg)
    rw [hf]
    rcases Nat.lt_trichotomy f b with hlt | heq | hgt
    · rw [h.first f hlt] at hfree
      cases hfree
    · exact heq
    · rw [hleast b hgt] at hclear
      cases hclear

theorem Taken.image_eq (h : Taken n s s' (b :: rest)) (hzero : bitmapTest s 0 = true) :
    c.image file s = byteOf (storeBytes s' (b * 4096) file.data) c.user := by
  unfold ExecCall.image byteOf storeBytes
  rw [h.bufferStart_eq hzero, h.mem]

theorem Taken.headersHeld (h : Taken n s s' (b :: rest)) (hregion : RegionTaken n b (b :: rest))
    (hzero : bitmapTest s 0 = true) (hn : n = numPages file.size) (hexec : Executable s c file)
    (hstand : HeadersStand s c) :
    HeadersHeld (storeBytes s' (b * 4096) file.data) c.user (b * 4096) := by
  have hused : ∀ f, bitmapTest s f = true ∨ b ≤ f ∧ f < b + n →
      bitmapTest (storeBytes s' (b * 4096) file.data) f = true := by
    intro f hf
    rw [← hregion.mem_iff h] at hf
    exact (h.used f).mpr hf
  have hstart := h.bufferStart_eq hzero
  have himage : c.image file s = _ := h.image_eq hzero
  have hpos := hexec.pages
  have hb := h.bound
  unfold identPages at hb
  refine ⟨?_, ?_⟩
  · intro k hk _
    exact hused _ (Or.inr (by omega))
  · intro i hi k hk hlow
    rw [← himage] at hi hlow ⊢
    have hplace := hstand file hexec i k _ (by rwa [hstart]) hk rfl (by rwa [hstart])
    rw [hstart, ← hn] at hplace
    exact hused _ hplace

end Frames

end Exec
end Homunculos
