import Homunculos.Ext2.UnlinkLaw

/-!
# Bytes that no write has stored

A file under any calls of `ext2_inode_write` and `ext2_truncate`.  Neither clears anything:
a block that is allocated keeps what it held, and a cut keeps what stands behind the new
end in the last block.  As long as a run meets zeros there, every byte that is not stored
reads as zero.
-/

namespace Homunculos
namespace Ext2

open Bytes Block

/-- A call of `ext2_inode_write` or `ext2_truncate`. -/
inductive FileCall where
  | write (c : WriteCall)
  | truncate (length : Nat)

namespace FileCall

/-- The position from which on a call writes. -/
def off : FileCall → Nat
  | .write c => c.off
  | .truncate _ => 0

/-- The number of bytes to write. -/
def size : FileCall → Nat
  | .write c => c.size
  | .truncate _ => 0

/-- The last position that a call asks for. -/
def stop : FileCall → Nat
  | .write c => c.off + c.size
  | .truncate length => length

/-- The position up to which a call extends the file without writing. -/
def gap : FileCall → Nat
  | .write c => if 0 < c.size then c.off else 0
  | .truncate length => length

/-- The number of bytes that are written, the inode in memory, the file system. -/
def run (fs : Ext2Fs) (inode : VfsInode) : FileCall → Nat × VfsInode × Ext2Fs
  | .write c =>
    let r := ext2InodeWrite fs inode c.off c.buf c.size
    (r.1.getD 0, r.2)
  | .truncate length => (0, (ext2Truncate fs inode length).2)

end FileCall

/-- A file and the positions stored since it was made or was last cut below them. -/
structure FileState where
  fs : Ext2Fs
  inode : VfsInode
  stored : Nat → Bool

namespace FileState

/-- One call on the inode `no`. -/
def call (no : Nat) (s : FileState) (c : FileCall) : FileState :=
  let r := c.run s.fs s.inode
  ⟨r.2.2, r.2.1, fun p => s.stored p && decide (p < (r.2.2.inodeOf no).size) ||
    decide (c.off ≤ p ∧ p < c.off + r.1)⟩

/--
A call in the direct blocks that brings nothing to light. Between the end of the file and the
position up to which the call extends it, the blocks of the file hold zeros; and so do the free
blocks that are next for the holes it reaches, where it does not write.
-/
structure Clean (no : Nat) (s : FileState) (c : FileCall) : Prop where
  stop_le : c.stop ≤ 12 * s.fs.blockSize
  gap : ∀ p, (s.fs.inodeOf no).size ≤ p → p < c.gap →
    (s.fs.inodeOf no).block (p / s.fs.blockSize) ≠ 0 →
    s.fs.diskByte ((s.fs.inodeOf no).block (p / s.fs.blockSize)) (p % s.fs.blockSize) = 0#8
  holes : NoStale s.fs (s.fs.inodeOf no) (max (s.fs.inodeOf no).size c.stop) c.off c.size

/-- All calls of a run are clean. -/
def CleanRun (no : Nat) : FileState → List FileCall → Prop
  | _, [] => True
  | s, c :: cs => s.Clean no c ∧ CleanRun no (s.call no c) cs

end FileState

/-- What a call in the direct blocks, which writes `n` bytes, does to a file. -/
structure DirectCall (fs fs' : Ext2Fs) (no : Nat) (c : FileCall) (n : Nat) : Prop where
  same : SameInodes {no} fs fs'
  owns : OwnsDirect fs'.view (fs'.inodeOf no)
  size_le : (fs'.inodeOf no).size ≤ 12 * fs.blockSize
  grown : ∀ p, (fs.inodeOf no).size ≤ p → p < (fs'.inodeOf no).size →
    ¬ (c.off ≤ p ∧ p < c.off + n) → p < c.gap
  kept : ∀ i, (fs.inodeOf no).block i ≠ 0 → (fs'.inodeOf no).block i ≠ 0 →
    (fs'.inodeOf no).block i = (fs.inodeOf no).block i
  fresh : ∀ p, p / fs.blockSize < 12 → (fs.inodeOf no).block (p / fs.blockSize) = 0 →
    (fs'.inodeOf no).block (p / fs.blockSize) ≠ 0 → ¬ (c.off ≤ p ∧ p < c.off + n) →
    p < (fs'.inodeOf no).size →
    NoStale fs (fs.inodeOf no) (max (fs.inodeOf no).size c.stop) c.off c.size →
    fs.diskByte ((fs'.inodeOf no).block (p / fs.blockSize)) (p % fs.blockSize) = 0#8
  bytes : ∀ p, p / fs.blockSize < 12 → (fs'.inodeOf no).block (p / fs.blockSize) ≠ 0 →
    ¬ (c.off ≤ p ∧ p < c.off + n) →
    fs'.diskByte ((fs'.inodeOf no).block (p / fs.blockSize)) (p % fs.blockSize) =
      fs.diskByte ((fs'.inodeOf no).block (p / fs.blockSize)) (p % fs.blockSize)

section Calls

variable {fs fs' : Ext2Fs} {inode : VfsInode} {no lo m : Nat}

theorem Cut.directCall
    (h : Cut {no} fs (fs.inodeOf no) lo m fs' (fs'.inodeOf no)) (hsize : BlockSizeOk fs)
    (howns : OwnsDirect fs.view (fs.inodeOf no)) (hle : lo + m ≤ 12)
    (hnew : (fs'.inodeOf no).size ≤ 12 * fs.blockSize) {c : FileCall}
    (hgap : (fs'.inodeOf no).size ≤ max (fs.inodeOf no).size c.gap) :
    DirectCall fs fs' no c 0 := by
  have hkept : ∀ i, (fs'.inodeOf no).block i ≠ 0 →
      (fs'.inodeOf no).block i = (fs.inodeOf no).block i := by
    intro i hne
    rw [h.block] at hne ⊢
    by_cases hcut : i < 12 ∧ lo ≤ i ∧ i < lo + m
    · exact absurd (if_pos hcut) hne
    · rw [if_neg hcut]
  have hdata : ∀ i, i < 12 → (fs'.inodeOf no).block i ≠ 0 →
      fs.DataBlock ((fs'.inodeOf no).block i) := by
    intro i hi hne
    have hkept' := hkept i hne
    rw [hkept'] at hne ⊢
    exact howns.data i hi hne
  refine ⟨h.same, ⟨?_, ?_, ?_⟩, hnew, fun p hp hp' _ => by omega,
    fun i _ hne => hkept i hne, fun p _ hzero hne => absurd ((hkept _ hne).trans hzero) hne, ?_⟩
  · intro i hi hne
    refine (h.used _).mpr ⟨?_, ?_⟩
    · have hkept' := hkept i hne
      rw [hkept'] at hne ⊢
      exact howns.used i hi hne
    · -- the blocks that are freed are other ones
      intro j hj hj' hne' heq
      rw [bmapOf_direct (by omega)] at hne' heq
      obtain rfl := howns.distinct j i (by omega) hi hne' (heq.trans (hkept i hne))
      rw [h.block, if_pos ⟨hi, hj, hj'⟩] at hne
      exact hne rfl
  · exact fun i hi hne => (h.same.dataBlock _).mpr (hdata i hi hne)
  · intro i j hi hj hne heq
    have hj' : (fs'.inodeOf no).block j ≠ 0 := fun hzero => hne (heq.trans hzero)
    rw [hkept j hj'] at heq
    have hkept' := hkept i hne
    rw [hkept'] at hne heq
    exact howns.distinct i j hi hj hne heq
  · intro p hp hne _
    exact h.bytes _ _ (hdata _ hp hne) (fun _ => Or.inr hle) (Nat.mod_lt _ hsize.pos)

variable (hv : Volume fs) (hno : fs.IsInode no) (howns : OwnsDirect fs.view (fs.inodeOf no))
variable (hle : (fs.inodeOf no).size ≤ 12 * fs.blockSize)
variable (htype : inode.iType = .file) (hdata : inode.privateData = some no)
include hv hno howns hle htype hdata

/-- `ext2_inode_write`. -/
theorem inodeWrite_direct {c : WriteCall} (hfits : c.off + c.size ≤ 12 * fs.blockSize) :
    DirectCall fs (ext2InodeWrite fs inode c.off c.buf c.size).2.2 no (.write c)
      ((ext2InodeWrite fs inode c.off c.buf c.size).1.getD 0) := by
  have hbs := hv.inOrder.layout.blockSize
  have hble : fs.blockSize ≤ 4096 := hv.inOrder.layout.blockSize_le
  by_cases hsize : 0 < c.size
  · obtain ⟨n, v, raw, final, inode', fs', hout, hn, hwritten, hfinal, hshows, -, hputs⟩ :=
      inodeWrite_spec hv.shows htype hdata hno howns c.buf hsize hfits
    obtain ⟨hsame, hself, howns'⟩ := hwritten.same hfinal hshows hno
    rw [hout]
    change DirectCall fs fs' no (.write c) n
    have hgrown : final.size ≤ max (fs.inodeOf no).size (c.off + n) := by
      rw [hfinal.size]
      split
      · exact le_rfl
      · exact le_max_left _ _
    refine ⟨hsame, howns', ?_, ?_, ?_, ?_, ?_⟩
    · rw [hself]
      exact hfinal.size_le hle (by omega)
    · intro p hend hlt (hout' : ¬ (c.off ≤ p ∧ p < c.off + n))
      rw [hself] at hlt
      change p < if 0 < c.size then c.off else 0
      rw [if_pos hsize]
      omega
    · intro i hne _
      rw [hself, hfinal.block]
      exact hwritten.kept i (Or.inl hne)
    · intro p hp hhole hne hout' hlt hclean
      rw [hself, hfinal.block] at hne ⊢
      rw [hself] at hlt
      obtain ⟨hreached, heq, hcount⟩ := (hv.written_block hputs hhole _).mp ⟨rfl, hne⟩
      rw [heq] at hcount ⊢
      exact hclean p (show p < max _ (c.off + c.size) by omega)
        (hwritten.not_asked hputs hhole hne hp hout') hhole hreached hcount
    · intro p hp hne (hout' : ¬ (c.off ≤ p ∧ p < c.off + n))
      rw [hself, hfinal.block] at hne
      have hblock := (hsame.dataBlock _).mpr (hwritten.dataBlocks ▸ hwritten.owns.data _ hp hne)
      have hbyte := hwritten.data p hp hne
      rw [if_neg hout'] at hbyte
      rw [hself, hfinal.block, ← hshows.data _ _ hblock
        (hsame.blockSize.symm ▸ Nat.mod_lt p hbs.pos)]
      exact hbyte
  have hzero : c.size = 0 := by omega
  have hcount : fs.fileBlocks (fs.inodeOf no).size ≤ 12 := hbs.fileBlocks_le hle
  rw [hzero]
  by_cases hoff : c.off = 0
  · have htree := TreeFile.of_direct hno howns hcount
    obtain ⟨fs', hout, htrim, hnew⟩ := htree.empty hv.toSkeleton htype hdata c.buf
    rw [hoff, hout]
    have hrange := range_le fs (Nat.zero_le _) (fs.inodeOf no).size_lt
    exact (htree.cut hv htrim hrange).directCall hbs howns (hrange.trans hcount)
      (by rw [hnew]; exact Nat.zero_le _)
      (by rw [hnew]; exact Nat.zero_le _)
  · obtain ⟨inode', buf', hout⟩ := inodeWrite_nothing hv hno htype hdata c.off (by omega) c.buf
    rw [hout, if_neg hoff]
    exact ⟨hv.sameInodes_withBuf buf', howns, hle,
      fun _ hge hlt => absurd hlt (Nat.not_lt.mpr hge), fun _ _ _ => rfl,
      fun _ _ hzero hne => absurd hzero hne, fun _ _ _ _ => rfl⟩

/-- `ext2_truncate`. -/
theorem truncate_direct {length : Nat} (hfits : length ≤ 12 * fs.blockSize) :
    ∃ fs', ext2Truncate fs inode length = (true, { inode with iSize := length }, fs') ∧
      DirectCall fs fs' no (.truncate length) 0 := by
  have hbs := hv.inOrder.layout.blockSize
  have hble : fs.blockSize ≤ 4096 := hv.inOrder.layout.blockSize_le
  have hcount : fs.fileBlocks (fs.inodeOf no).size ≤ 12 := hbs.fileBlocks_le hle
  have htree := TreeFile.of_direct hno howns hcount
  obtain ⟨fs', lo, m, hout, htrim, hnew, hn, -⟩ := htree.truncate_cases hv.toSkeleton htype hdata
    (show length < 2 ^ 32 by omega)
  exact ⟨fs', hout, (htree.cut hv htrim hn).directCall hbs howns (hn.trans hcount)
    (by rw [hnew]; exact hfits)
    (by rw [hnew]; exact le_max_right _ _)⟩

end Calls

/-- In the blocks of the file all bytes below its size are zero that are not stored. -/
structure ZeroFilled (no : Nat) (s : FileState) : Prop where
  volume : Volume s.fs
  isInode : s.fs.IsInode no
  type : s.inode.iType = .file
  data : s.inode.privateData = some no
  owns : OwnsDirect s.fs.view (s.fs.inodeOf no)
  size_le : (s.fs.inodeOf no).size ≤ 12 * s.fs.blockSize
  zero : ∀ p, p < (s.fs.inodeOf no).size →
    (s.fs.inodeOf no).block (p / s.fs.blockSize) ≠ 0 → s.stored p = false →
    s.fs.diskByte ((s.fs.inodeOf no).block (p / s.fs.blockSize)) (p % s.fs.blockSize) = 0#8

section Runs

variable {s : FileState} {no : Nat} {c : FileCall}

theorem ZeroFilled.run (h : ZeroFilled no s) (hstop : c.stop ≤ 12 * s.fs.blockSize) :
    DirectCall s.fs (c.run s.fs s.inode).2.2 no c (c.run s.fs s.inode).1 ∧
      (c.run s.fs s.inode).2.1.iType = .file ∧
      (c.run s.fs s.inode).2.1.privateData = some no := by
  cases c with
  | write c =>
    obtain ⟨n, hinode⟩ := inodeWrite_inode s.fs s.inode c.off c.size c.buf
    refine ⟨inodeWrite_direct h.volume h.isInode h.owns h.size_le h.type h.data hstop, ?_⟩
    simp only [FileCall.run, hinode]
    exact ⟨h.type, h.data⟩
  | truncate length =>
    have hfits : length ≤ 12 * s.fs.blockSize := hstop
    obtain ⟨fs', hout, hcall⟩ :=
      truncate_direct h.volume h.isInode h.owns h.size_le h.type h.data hfits
    simp only [FileCall.run, hout]
    exact ⟨hcall, h.type, h.data⟩

theorem ZeroFilled.call (h : ZeroFilled no s) (hclean : s.Clean no c) :
    ZeroFilled no (s.call no c) := by
  obtain ⟨hcall, htype, hdata⟩ := h.run hclean.stop_le
  have hbs := hcall.same.blockSize
  have hpos := h.volume.inOrder.layout.blockSize.pos
  refine ⟨hcall.same.volume, hcall.same.isInode h.isInode, htype, hdata, hcall.owns, ?_, ?_⟩
  · exact hbs.symm ▸ hcall.size_le
  · intro p hend hne hp
    simp only [FileState.call, Bool.or_eq_false_iff, decide_eq_false_iff_not,
      Bool.and_eq_false_iff] at hp hend hne ⊢
    obtain ⟨hold, hout⟩ := hp
    rw [hbs] at hne ⊢
    have hidx : p / s.fs.blockSize < 12 :=
      (Nat.div_lt_iff_lt_mul hpos).mpr (lt_of_lt_of_le hend hcall.size_le)
    rw [hcall.bytes p hidx hne hout]
    by_cases hnew : (s.fs.inodeOf no).block (p / s.fs.blockSize) = 0
    · exact hcall.fresh p hidx hnew hne hout hend hclean.holes
    · rw [hcall.kept _ hnew hne]
      by_cases hin : p < (s.fs.inodeOf no).size
      · exact h.zero p hin hnew (hold.resolve_right (fun hge => hge hend))
      · exact hclean.gap p (Nat.not_lt.mp hin) (hcall.grown p (Nat.not_lt.mp hin) hend hout) hnew

theorem ZeroFilled.calls {cs : List FileCall} (h : ZeroFilled no s) (hclean : s.CleanRun no cs) :
    ZeroFilled no (cs.foldl (FileState.call no) s) := by
  induction cs generalizing s with
  | nil => exact h
  | cons c cs ih => exact ih (h.call hclean.1) hclean.2

/--
Any clean calls of `ext2_inode_write` and `ext2_truncate` on a file that starts empty: a
byte of the file that is not stored reads as zero.
-/
theorem unwritten_reads_zero
    {fs : Ext2Fs} {inode : VfsInode} (hv : Volume fs) (hno : fs.IsInode no)
    (htype : inode.iType = .file) (hdata : inode.privateData = some no)
    (hsize : (fs.inodeOf no).size = 0) (hblock : ∀ i, i < 12 → (fs.inodeOf no).block i = 0)
    (cs : List FileCall) (hclean : FileState.CleanRun no ⟨fs, inode, fun _ => false⟩ cs)
    {s : FileState} (hs : cs.foldl (FileState.call no) ⟨fs, inode, fun _ => false⟩ = s) {p : Nat}
    (hp : p < (s.fs.inodeOf no).size) (hstored : s.stored p = false) :
    (ext2InodeRead s.fs s.inode p 1).1 = some [0#8] := by
  have hstart : ZeroFilled no ⟨fs, inode, fun _ => false⟩ :=
    ⟨hv, hno, htype, hdata, (Built.start hv hsize hblock).owns, by rw [hsize]; exact Nat.zero_le _,
      fun _ hlt => absurd hlt (by rw [hsize]; exact Nat.not_lt_zero _)⟩
  have h := hstart.calls hclean
  rw [hs] at h
  have hle := h.size_le
  have hidx : p / s.fs.blockSize < 12 :=
    (Nat.div_lt_iff_lt_mul h.volume.inOrder.layout.blockSize.pos).mpr (by omega)
  rw [AfterWrite.read_one h.volume h.type h.data h.isInode hp, byteOf_direct hidx]
  split
  · rfl
  · rename_i hne
    rw [h.zero p hp hne hstored]

end Runs

/-- An empty file is extended to five bytes, and the last one is read. -/
theorem unwritten_reads_zero_extended :
    ∃ s, [FileCall.truncate 5].foldl (FileState.call 12)
        ⟨namedFs emptyRaw, holeInode, fun _ => false⟩ = s ∧
      (ext2InodeRead s.fs s.inode 4 1).1 = some [0#8] := by
  obtain ⟨hdir, -, hused, hraw⟩ := namedFs_dir emptyRaw
  have hholes : ∀ i, i < 12 → ((namedFs emptyRaw).inodeOf 12).block i = 0 := by decide
  have hclean : FileState.CleanRun 12 ⟨namedFs emptyRaw, holeInode, fun _ => false⟩
      [.truncate 5] := by
    refine ⟨⟨?_, ?_, ?_⟩, trivial⟩
    · decide
    · intro p _ hp hne
      change p < 5 at hp
      exact absurd (hholes _ (lt_of_le_of_lt (Nat.div_le_self _ _) (by omega))) hne
    · rintro pos - - - ⟨q, -, hq, -⟩
      exact absurd hq (Nat.not_lt_zero q)
  refine ⟨_, rfl, unwritten_reads_zero hdir.volume (hdir.volume.shows.isInode_of_used hused) rfl rfl
    ?_ ?_ _ hclean rfl ?_ ?_⟩
  · decide
  · decide
  · decide +kernel
  · decide +kernel

/-- One byte is written behind the start, and the start reads as what the block held. -/
theorem write_past_end_shows_old :
    let s := [FileCall.write ⟨1, fun _ => 0x41#8, 1⟩].foldl (FileState.call 12)
      ⟨namedFs emptyRaw, holeInode, fun _ => false⟩
    (s.fs.inodeOf 12).size = 2 ∧ s.stored 0 = false ∧
      (ext2InodeRead s.fs s.inode 0 1).1 = some [0xFF#8] := by
  refine ⟨?_, ?_, ?_⟩
  · decide +kernel
  · decide +kernel
  · decide +kernel

end Ext2
end Homunculos
