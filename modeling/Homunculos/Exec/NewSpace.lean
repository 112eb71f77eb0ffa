import Homunculos.Exec.ExecFrames

/-!
# The address space that exec makes

With a file buffer in one piece and headers that put no byte below 16 MiB, `sys_exec` leaves
what was in use before it as it was, and a program that it returns has a directory of its own:
to the frames below that directory everything that was in use before is foreign.
-/

namespace Homunculos
namespace Exec

open Bytes Mm

/-- What a run leaves of the frames in use, and the directory of its program. -/
structure NewSpace (s : State) (r : ExecRun) : Prop where
  keeps : Keeps s r.sys
  fresh : ∀ q, r.program = some q → bitmapTest s q.pdir = false
  owned : ∀ q, r.program = some q → Owned (fun f => bitmapTest s f = true) r.sys [q.pdir]

section Frames

variable {s s' s1 t : State} {c : ExecCall} {n b p mapped : Nat} {rest : List Nat} {kpt : Nat → Nat}

theorem mem_freeAll (s : State) (frames : List Nat) :
    (freeAll s frames).mem = s.mem := by
  induction frames generalizing s with
  | nil => rfl
  | cons f frames ih => exact (ih (mmFrameFree s f)).trans (mem_mmFrameFree s f)

theorem keeps_mmFrameFree (hk : Keeps s t) (hp : bitmapTest s p = false) :
    Keeps s (mmFrameFree t p) := by
  refine ⟨?_, fun f hf => by rw [mem_mmFrameFree]; exact hk.mem f hf⟩
  intro f hf
  have hne : f ≠ p := by
    rintro rfl
    rw [hf] at hp
    cases hp
  rw [bitmapTest_mmFrameFree_of_ne t hne]
  exact hk.used f hf

theorem Taken.keeps_freeAll
    (h : Taken n s s' (b :: rest)) (hrel : ReleasesTaken (bufferFrames b n) (b :: rest))
    (hk : Keeps s t) :
    Keeps s (freeAll t (bufferFrames b n)) := by
  refine ⟨?_, fun f hf => by rw [mem_freeAll]; exact hk.mem f hf⟩
  intro f hf
  rw [bitmapTest_freeAll]
  refine ⟨hk.used f hf, fun hmem => ?_⟩
  have hfree := h.free f ((hrel f hmem.2).mp hmem.1)
  rw [hf] at hfree
  cases hfree

theorem Taken.newSpace_failRun
    (h : Taken n s s' (b :: rest)) (hrel : ReleasesTaken (bufferFrames b n) (b :: rest))
    (hk : Keeps s t) (wasRead : Bool) (mapped : Nat) :
    NewSpace s (failRun t (b :: rest) n wasRead mapped) :=
  ⟨h.keeps_freeAll hrel hk, fun _ hq => (by cases hq), fun _ hq => (by cases hq)⟩

/-- The segments with these headers lie above the identity map, and do not wrap around. -/
def AboveKernel (ps : List Phdr) : Prop :=
  ∀ q ∈ ps, q.pType = ptLoad → 2 ^ 24 ≤ q.pVaddr ∧ q.pVaddr + q.pFilesz ≤ 2 ^ 32

theorem AboveKernel.copyLoop_low {m mem : Nat → BitVec 8} {ehdr a k : Nat}
    (h : AboveKernel (headers m ehdr)) (hk : k ≤ ePhnum m ehdr) (ha : a < 2 ^ 24) :
    copyLoop m ehdr mem k a = mem a := by
  induction k with
  | zero => rfl
  | succ k ih =>
    have hmem : phdrAt m ehdr k ∈ headers m ehdr :=
      List.mem_map.mpr ⟨k, List.mem_range.mpr (by omega), rfl⟩
    rw [copyLoop]
    split
    · rename_i hload
      obtain ⟨hlo, hhi⟩ := h _ hmem hload
      unfold memcpyTo
      rw [if_neg (by omega)]
      exact ih (by omega)
    · exact ih (by omega)

theorem AboveKernel.storeLow_eq {user : Nat → BitVec 8} {ehdr : Nat}
    (h : AboveKernel (headers (byteOf s user) ehdr)) :
    storeLow s (elfCopySegments (byteOf s user) ehdr
      (fun a => if a < 2 ^ 24 then byteOf s user a else 0#8)) = s := by
  have hcopied : ∀ a, a < 2 ^ 24 → elfCopySegments (byteOf s user) ehdr
      (fun a => if a < 2 ^ 24 then byteOf s user a else 0#8) a = byteOf s user a :=
    fun a ha => (h.copyLoop_low le_rfl ha).trans (if_pos ha)
  generalize elfCopySegments (byteOf s user) ehdr _ = mem at hcopied
  have hmem : (storeLow s mem).mem = s.mem := by
    funext f i
    unfold storeLow
    dsimp only
    split
    · rename_i hin
      unfold identPages dirSize at hin
      rw [← word_byteAt (s.mem f i)]
      apply word_congr
      intro j hj
      rw [hcopied _ (by omega), byteOf, if_pos (by unfold identPages; omega),
        show (f * 4096 + 4 * i + j) % 2 ^ 32 / 4096 = f by omega,
        show (f * 4096 + 4 * i + j) % 4096 / 4 = i by omega,
        show (f * 4096 + 4 * i + j) % 4 = j by omega]
    · rfl
  exact congrArg (State.mk s.frameBitmap) hmem

theorem mem_strBuf {q f : Nat} (strBuf : Nat → BitVec 8) (hne : f ≠ q) :
    (storeBytes (bitmapSet s q) (q * 4096)
      ((List.range (copyArgs strBuf c.argv c.envp).strOffset).map
        (copyArgs strBuf c.argv c.envp).strBuf)).mem f = s.mem f := by
  have hoffset := copyArgs_strOffset strBuf c.argv c.envp
  have hsize : maxExecStrings = 4096 := rfl
  rw [mem_storeBytes, mem_bitmapSet]
  rw [List.length_map, List.length_range]
  omega

section Load

variable (h : Taken n s s' (b :: rest)) (hused : ∀ f, bitmapTest s1 f = bitmapTest s' f)
variable (hk1 : Keeps s s1) (hheld : HeadersHeld s1 c.user (b * 4096))
variable (hlow : AboveKernel (headers (byteOf s1 c.user) (b * 4096)))
include h hused hk1 hheld hlow

/-- `sys_exec` from the allocation of `str_buf` on, with the program loaded. -/
theorem Taken.newSpace_finishExec {s3 : State}
    (hrel : ReleasesTaken (bufferFrames b n) (b :: rest))
    (hzero : bitmapTest s 0 = true) (hp : bitmapTest s1 p = false) (hk3 : Keeps s1 s3)
    (ho : Owned (fun f => bitmapTest s1 f = true) s3 [p]) (mapped : Nat) :
    NewSpace s (finishExec c n (b :: rest) p mapped s3) := by
  have hk := hk1.trans hk3
  unfold finishExec
  rcases mmFrameAlloc_cases s3 ho.zeroUsed with hnone | ⟨q, hq0, hqlt, hqfree, hq⟩
  · rw [hnone]
    exact h.newSpace_failRun hrel hk true mapped
  · rw [hq]
    simp only [if_neg hq0, List.headD_cons]
    generalize hx : (fun k => byteOf (bitmapSet s3 q) c.user (q * 4096 + k)) = strBuf
    obtain ⟨s5, hs5⟩ : ∃ s5, storeBytes (bitmapSet s3 q) (q * 4096)
        ((List.range (copyArgs strBuf c.argv c.envp).strOffset).map
          (copyArgs strBuf c.argv c.envp).strBuf) = s5 := ⟨_, rfl⟩
    have hmem5 : ∀ f, f ≠ q → s5.mem f = s3.mem f := by
      intro f hne
      rw [← hs5]
      exact mem_strBuf strBuf hne
    have hused5 : ∀ f, bitmapTest s5 f = (decide (f = q) || bitmapTest s3 f) := by
      intro f
      rw [← hs5]
      exact bitmapTest_bitmapSet s3 q f
    have hneq : ∀ f, bitmapTest s3 f = true → f ≠ q := by
      rintro f hf rfl
      rw [hf] at hqfree
      cases hqfree
    have hqs : bitmapTest s q = false := by
      by_contra hq
      exact hneq q (hk.used q (Bool.not_eq_false _ ▸ hq)) rfl
    have hk35 : Keeps s3 s5 :=
      ⟨fun f hf => by simp [hused5, hf], fun f hf => hmem5 f (hneq f hf)⟩
    have hk5 := hk.trans hk35
    have hk15 := hk3.trans hk35
    have hk6 := keeps_mmFrameFree (h.keeps_freeAll hrel hk5) hqs
    -- the headers are what they were, so nothing below 16 MiB is written
    rw [← hheld.headers_eq hk15] at hlow
    rw [hs5, hlow.storeLow_eq]
    refine ⟨hk6, ?_, ?_⟩
    · intro _ hprogram
      cases hprogram
      by_contra hps
      have hps1 := hk1.used p (Bool.not_eq_false _ ▸ hps)
      rw [hp] at hps1
      cases hps1
    · intro _ hprogram
      cases hprogram
      refine ho.shrink hk1.used hzero hk6.used ?_ ?_
      · intro f hf
        rw [mem_mmFrameFree, mem_freeAll]
        exact hmem5 f (hneq f hf)
      · intro f hf hfree
        rw [bitmapTest_mmFrameFree_of_ne _ (hneq f hf)] at hfree
        -- only frames of the buffer are cleared
        have hin : f ∈ b :: rest := by
          by_contra hno
          have hset := (bitmapTest_freeAll s5 (bufferFrames b n) f).mpr
            ⟨by simp [hused5, hf], fun hmem => hno ((hrel f hmem.2).mp hmem.1)⟩
          rw [hset] at hfree
          cases hfree
        have hf1 : bitmapTest s1 f = true := by
          rw [hused, h.used]
          exact Or.inr hin
        refine ⟨hf1, ?_⟩
        rw [List.mem_singleton]
        rintro rfl
        rw [hf1] at hp
        cases hp

/-- `sys_exec` from the allocation of `new_pdir` on, with the file in its buffer. -/
theorem Taken.newSpace_loadProgram (hregion : RegionTaken n b (b :: rest))
    (hbooted : Booted s c.kernelPdir kpt)
    (hvalid : elfValidate (byteOf s1 c.user) (b * 4096) = true) :
    NewSpace s (loadProgram c n (b :: rest) s1) := by
  have hrel := hregion.releases h
  rcases h.loadProgram_cases hregion hused (hbooted.of_keeps hk1) hheld hvalid with
    ⟨-, hrun⟩ | ⟨p, s2, pages, hp, hplt, hset, ⟨hstop, hrun⟩ | ⟨hloaded, -, hrun⟩⟩
  · rw [hrun]
    exact h.newSpace_failRun hrel hk1 true 0
  · have hps : bitmapTest s p = false := by
      by_contra hset
      rw [hk1.used p (Bool.not_eq_false _ ▸ hset)] at hp
      cases hp
    rw [hrun]
    exact h.newSpace_failRun hrel
      (keeps_mmFrameFree (hk1.trans (keeps_edit hstop.loaded.edit hp)) hps) true _
  · rw [hrun]
    exact h.newSpace_finishExec hused hk1 hheld hlow hrel hbooted.zero hp
      (keeps_edit hloaded.edit hp) hloaded.edit.owned _

end Load

theorem newSpace_nothing (hk : Keeps s t) (wasRead : Bool) :
    NewSpace s (failRun t [] n wasRead 0) :=
  ⟨hk, fun _ hq => (by cases hq), fun _ hq => (by cases hq)⟩

/-- The buffer of a call comes out right, the number of its pages does not wrap, and the headers
of its file put no byte below 16 MiB. -/
structure Fits (s : State) (c : ExecCall) : Prop where
  buffer : BufferFits s c.filePages
  size : ∀ file, c.file = some file → file.size + 0xFFF < 2 ^ 32
  stand : HeadersStand s c
  above : ∀ file, Executable s c file →
    AboveKernel (headers (c.image file s) (bufferStart s * 4096))

theorem Taken.newSpace_readAndLoad
    {file : ExecFile} (h : Taken (numPages file.size) s s' (b :: rest))
    (hregion : RegionTaken (numPages file.size) b (b :: rest)) (hfile : c.file = some file)
    (hregular : file.isFile = true) (hbooted : Booted s c.kernelPdir kpt) (hfits : Fits s c) :
    NewSpace s (readAndLoad c file (numPages file.size) (b :: rest) s') := by
  have hpos : 0 < numPages file.size := Nat.lt_of_lt_of_le (Nat.succ_pos _) h.length_le
  have hk := h.keeps_read hregion (numPages_pos hpos)
  have hstart := h.bufferStart_eq hbooted.zero
  have himage : c.image file s = _ := h.image_eq hbooted.zero
  unfold readAndLoad
  dsimp only
  split
  · rename_i hok
    have hexec : Executable s c file :=
      ⟨hfile, hregular, hpos, hok.1, by rw [himage, hstart]; exact hok.2⟩
    have hlow := hfits.above file hexec
    rw [himage, hstart] at hlow
    exact h.newSpace_loadProgram (fun _ => rfl) hk
      (h.headersHeld hregion hbooted.zero rfl hexec hfits.stand) hlow hregion hbooted hok.2
  · exact h.newSpace_failRun (hregion.releases h) hk true 0

theorem Taken.newSpace_nil {file : ExecFile} (h : Taken (numPages file.size) s s' [])
    (hsize : file.size + 0xFFF < 2 ^ 32) :
    NewSpace s
      (if ([] : List Nat).length < numPages file.size then
        failRun s' [] (numPages file.size) false 0
      else
        readAndLoad c file (numPages file.size) [] s') := by
  have hk : Keeps s s' :=
    ⟨fun f hf => (h.used f).mpr (Or.inl hf), fun f _ => by rw [h.mem]⟩
  split
  · exact newSpace_nothing hk false
  · rename_i hlen
    have hnil : file.data = [] := by
      have hle := file.data_le
      rw [List.length_nil] at hlen
      unfold numPages at hlen
      exact List.length_eq_zero_iff.mp (by omega)
    rw [readAndLoad_nil]
    have hread : Keeps s (storeBytes s' 0 file.data) := by
      refine ⟨hk.used, ?_⟩
      intro f hf
      rw [mem_storeBytes (Or.inr (by simp [hnil]))]
      exact hk.mem f hf
    exact newSpace_nothing hread true

theorem Booted.newSpace_file
    {file : ExecFile} (hbooted : Booted s c.kernelPdir kpt) (hfile : c.file = some file)
    (hregular : file.isFile = true) (hfits : Fits s c) :
    NewSpace s (sysExec s c) := by
  have hbuffer := hfits.buffer
  rw [show c.filePages = numPages file.size by
    simp [ExecCall.filePages, hfile, hregular]] at hbuffer
  have htaken := allocBuffer_taken hbooted.zero (numPages file.size)
  rw [sysExec_of_file hfile hregular s]
  generalize (allocBuffer (numPages file.size) s).1 = taken at htaken
  cases taken with
  | nil => exact htaken.newSpace_nil (hfits.size file hfile)
  | cons b rest =>
    obtain ⟨hregion, hrel⟩ := (htaken.right_iff hbooted.zero).mpr hbuffer
    by_cases hshort : (b :: rest).length < numPages file.size
    · rw [if_pos hshort]
      exact htaken.newSpace_failRun hrel
        ⟨fun f hf => (htaken.used f).mpr (Or.inl hf), fun f _ => by rw [htaken.mem]⟩ false 0
    · have hlen : (b :: rest).length = numPages file.size :=
        Nat.le_antisymm htaken.length_le (Nat.not_lt.mp hshort)
      rw [if_neg hshort]
      exact htaken.newSpace_readAndLoad (hregion hlen) hfile hregular hbooted hfits

/-- A call whose buffer fits leaves what was in use, and its program has a directory that
shares nothing with it. -/
theorem Booted.newSpace_sysExec (hbooted : Booted s c.kernelPdir kpt) (hfits : Fits s c) :
    NewSpace s (sysExec s c) := by
  have hidle : NewSpace s (failRun s [] 0 false 0) :=
    newSpace_nothing ⟨fun _ hf => hf, fun _ _ => rfl⟩ false
  cases hfile : c.file with
  | none =>
    unfold sysExec
    rw [hfile]
    exact hidle
  | some file =>
    cases hregular : file.isFile with
    | false =>
      unfold sysExec
      rw [hfile]
      simp only [hregular]
      exact hidle
    | true => exact hbooted.newSpace_file hfile hregular hfits

end Frames

end Exec
end Homunculos
