import Homunculos.Vfs.Ext2Calls
import Homunculos.Vfs.Slots
import Homunculos.Ext2.WriteLaw

/-!
# Reading through a shared open file

`dup`, `dup2`, `F_DUPFD` and `fork` make descriptors of several tasks lead to one open
file, which has one position.  A system call is not interrupted, so the reads through
these descriptors happen one after the other, and each of them goes on where the one
before it has stopped.
-/

namespace Homunculos
namespace Vfs

open Ext2 Run

/-- A read, or a call on descriptors. -/
inductive SharedEvent where
  | read (t : Pid) (fd : Int) (len : Nat)
  | call (t : Pid) (c : Call)

/-- The kernel after an event. -/
def SharedEvent.step (k : Kernel) : SharedEvent → Kernel
  | .read t fd len => (k.read t fd len).2
  | .call t c => { k with sys := (c.run k.sys t).2 }

/-- What the reads among the events return, in their order; `none` stands for -1. -/
def returned : Kernel → List SharedEvent → List (Option (List (BitVec 8)))
  | _, [] => []
  | k, .read t fd len :: es =>
    (k.read t fd len).1 :: returned (SharedEvent.step k (.read t fd len)) es
  | k, .call t c :: es => returned (SharedEvent.step k (.call t c)) es

/--
Every read goes through a descriptor of the open file and asks for at least one byte and
at most `2 ^ 31 - 1` less the size of the file; the file stays open.
-/
def Shares (f : Slot) (size : Nat) (k : Kernel) : SharedEvent → Prop
  | .read t fd len => (∃ i, k.sys.fileAt t fd = some (i, f)) ∧ 1 ≤ len ∧ len ≤ 2 ^ 31 - 1 - size
  | .call t c => ((c.run k.sys t).2.files f).ops ≠ none

instance
    (f : Slot) (size : Nat) (k : Kernel) : DecidablePred (Shares f size k)
  | .read t fd len =>
    inferInstanceAs (Decidable ((∃ i, k.sys.fileAt t fd = some (i, f)) ∧ 1 ≤ len ∧
      len ≤ 2 ^ 31 - 1 - size))
  | .call t c => inferInstanceAs (Decidable (((c.run k.sys t).2.files f).ops ≠ none))

/-- An open file on a regular file of a device without errors. -/
structure OpenOn (k : Kernel) (f : Slot) (no pos : Nat) : Prop where
  readable : Readable k.st.fs no
  ops : (k.sys.files f).ops = some .vfsFileOps
  inode : ∃ ino inode, (k.sys.files f).privateData = .inode ino ∧ k.inodes ino = some inode ∧
    inode.ops = some .file ∧ inode.iType = .file ∧ inode.privateData = some no
  pos : (k.sys.files f).pos = pos

section Reads

variable {k : Kernel} {f : Slot} {no pos : Nat}

theorem length_fileBytes (fs : Ext2Fs) (n : Nat) :
    (fileBytes fs n).length = (fs.inodeOf n).size := by
  simp [fileBytes]

theorem fileBytes_withBuf {fs : Ext2Fs} (hsize : BlockSizeOk fs) (buf : Nat → BitVec 8) (n : Nat) :
    fileBytes (fs.withBuf buf) n = fileBytes fs n := by
  apply List.map_congr_left
  intro q _
  exact byteOf_congr hsize rfl (fun _ _ _ => rfl) (fun _ _ _ _ => rfl)

/-- The bytes from a position on, as `ext2_inode_read` counts them. -/
theorem take_drop_fileBytes (fs : Ext2Fs) (n pos len : Nat) :
    (List.range (min len ((fs.inodeOf n).size - pos))).map
        (fun i => byteOf fs (fs.inodeOf n) (pos + i)) =
      ((fileBytes fs n).drop pos).take len := by
  apply List.ext_getElem
  · simp [fileBytes]
  · intro i _ _
    simp [fileBytes]

theorem OpenOn.call
    (h : OpenOn k f no pos) (t : Pid) (c : Call) (hopen : ((c.run k.sys t).2.files f).ops ≠ none) :
    OpenOn (SharedEvent.step k (.call t c)) f no pos := by
  have hsame := (c.slotStep k.sys t f).same (by rw [h.ops]; exact Option.some_ne_none _) hopen
  obtain ⟨ino, inode, hdata, hrest⟩ := h.inode
  exact ⟨h.readable, hsame.ops.trans h.ops,
    ⟨ino, inode, hsame.privateData.trans hdata, hrest⟩, hsame.pos.trans h.pos⟩

theorem OpenOn.read
    (h : OpenOn k f no pos) {t : Pid} {fd : Int} {i : Fd} (hfd : k.sys.fileAt t fd = some (i, f))
    (len : Nat) (hlen : len + (k.st.fs.inodeOf no).size < 2 ^ 31)
    (hpos : pos ≤ (k.st.fs.inodeOf no).size) :
    (k.read t fd len).1 = some (((fileBytes k.st.fs no).drop pos).take len) ∧
      OpenOn (k.read t fd len).2 f no (pos + (((fileBytes k.st.fs no).drop pos).take len).length) ∧
      ∃ buf, (k.read t fd len).2.st.fs = k.st.fs.withBuf buf := by
  obtain ⟨ino, inode, hdata, hino, hops, htype, hno⟩ := h.inode
  have hfile : k.fileAt t fd = some (f, ino, inode) := by
    unfold Kernel.fileAt Kernel.opened
    rw [hfd, Option.bind_some, h.ops, hdata]
    dsimp only
    rw [hino]
    rfl
  obtain ⟨buf, hread⟩ : ∃ buf, ext2InodeRead k.st.fs inode pos len = (_, k.st.fs.withBuf buf) :=
    inodeRead_eq h.readable (by rw [htype]; decide) (by rw [htype]; decide) hno (by omega)
  rw [take_drop_fileBytes] at hread
  have hcount : (((fileBytes k.st.fs no).drop pos).take len).length ≤ len := List.length_take_le _ _
  have hkernel : k.read t fd len =
      (some (((fileBytes k.st.fs no).drop pos).take len),
        k.afterIo f (pos + (((fileBytes k.st.fs no).drop pos).take len).length)
          (k.st.fs.withBuf buf)) := by
    unfold Kernel.read
    rw [hfile]
    dsimp only
    unfold vfsFileRead
    rw [hops, h.pos]
    dsimp only
    rw [hread, Option.getD_some, Nat.mod_eq_of_lt (by omega)]
  rw [hkernel]
  refine ⟨rfl, ⟨?_, ?_, ⟨ino, inode, ?_, hino, hops, htype, hno⟩, ?_⟩, buf, rfl⟩
  · exact h.readable.withBuf buf
  · simp [Kernel.afterIo, FileSys.setFile, h.ops]
  · simp [Kernel.afterIo, FileSys.setFile, hdata]
  · simp [Kernel.afterIo, FileSys.setFile]

theorem OpenOn.returned
    {es : List SharedEvent} (h : OpenOn k f no pos) (hpos : pos ≤ (k.st.fs.inodeOf no).size)
    (hes : Allowed SharedEvent.step (Shares f (k.st.fs.inodeOf no).size) k es) :
    ∃ chunks, returned k es = chunks.map some ∧
      chunks.flatten <+: (fileBytes k.st.fs no).drop pos ∧
      ∀ pre post, chunks = pre ++ [] :: post → pre.flatten = (fileBytes k.st.fs no).drop pos := by
  induction es generalizing k pos with
  | nil =>
    refine ⟨[], rfl, List.nil_prefix, ?_⟩
    intro pre post hnil
    simp at hnil
  | cons e es ih =>
    cases e with
    | call t c => exact ih (h.call t c hes.1) hpos hes.2
    | read t fd len =>
      obtain ⟨⟨i, hfd⟩, hone, hlen⟩ := hes.1
      obtain ⟨hbytes, hnext, buf, hfs⟩ := h.read hfd len (by omega) hpos
      have hfile : fileBytes (k.read t fd len).2.st.fs no = fileBytes k.st.fs no := by
        rw [hfs]
        exact fileBytes_withBuf h.readable.layout.blockSize buf no
      have hsize : ((k.read t fd len).2.st.fs.inodeOf no).size = (k.st.fs.inodeOf no).size := by
        rw [hfs]
        rfl
      have hleft : ((fileBytes k.st.fs no).drop pos).length = (k.st.fs.inodeOf no).size - pos := by
        rw [List.length_drop, length_fileBytes]
      obtain ⟨rest, hrest⟩ := List.take_prefix len ((fileBytes k.st.fs no).drop pos)
      generalize hc : ((fileBytes k.st.fs no).drop pos).take len = c at hbytes hnext hrest
      have hdrop : (fileBytes k.st.fs no).drop (pos + c.length) = rest := by
        rw [← List.drop_drop, ← hrest, List.drop_left]
      have hcount : c.length ≤ ((fileBytes k.st.fs no).drop pos).length := by
        rw [← hrest, List.length_append]
        omega
      have hes' := hes.2
      rw [← hsize] at hes'
      obtain ⟨chunks, hreturned, hprefix, hzero⟩ := ih hnext (by omega) hes'
      rw [hfile, hdrop] at hprefix hzero
      refine ⟨c :: chunks, ?_, ?_, ?_⟩
      · rw [Vfs.returned, hbytes, SharedEvent.step, hreturned]
        rfl
      · rw [← hrest]
        exact List.prefix_append_right_inj c |>.mpr hprefix
      · intro pre post hsplit
        cases pre with
        | nil =>
          -- at least one byte was asked for, so nothing was left
          have hnil : c = [] := (List.cons.inj hsplit).1
          rw [hnil, List.take_eq_nil_iff] at hc
          rcases hc with hlen0 | hend
          · omega
          · rw [hend]
            rfl
        | cons first pre =>
          obtain ⟨rfl, htail⟩ := List.cons.inj hsplit
          rw [List.flatten_cons, hzero pre post htail, hrest]

/--
The chunks that are read through an open file, by whatever tasks and descriptors, are in
their order a prefix of the file, and a read returns nothing only when the whole file has
been returned.
-/
theorem shared_reads_in_order
    (k : Kernel) (f : Slot) (no : Nat) (h : OpenOn k f no 0) (es : List SharedEvent)
    (hes : Allowed SharedEvent.step (Shares f (k.st.fs.inodeOf no).size) k es) :
    ∃ chunks, returned k es = chunks.map some ∧
      chunks.flatten <+: fileBytes k.st.fs no ∧
      ∀ pre post, chunks = pre ++ [] :: post → pre.flatten = fileBytes k.st.fs no :=
  h.returned (Nat.zero_le _) hes

end Reads

/-- Inode 12 of the small image: a file of three bytes in block 10. -/
def shortRaw : Ext2Inode :=
  (Ext2Inode.zero.setSize 3).setBlock 0 10

def shortFs : Ext2Fs :=
  (ext2WriteInode smallFs 12 shortRaw).2

def shortInode : VfsInode where
  iNo := 7
  iSize := 3
  iType := .file
  iMode := 0x8000
  ops := some .file
  privateData := some 12
  iRdev := 0

/-- Task 0 has opened the file as descriptor 3, which is slot 4. -/
def shortKernel : Kernel where
  sys := ((Call.open true (some 7) none 0#32).run booted 0).2
  st := ⟨shortFs, 0, 0⟩
  inodes := fun ino => if ino = 7 then some shortInode else none

/-- Task 0 reads, its child 2 reads, and task 0 reads twice through a duplicate. -/
def sharedReads : List SharedEvent :=
  [.read 0 3 2, .call 0 (.fork true), .read 2 3 2, .call 0 (.dup 3), .read 0 4 1, .read 0 4 1]

theorem shortFs_readable :
    Readable shortFs 12 := by
  have hinode : smallFs.IsInode 12 := by
    unfold Ext2Fs.IsInode
    decide +kernel
  have hinode' : shortFs.IsInode 12 := by
    unfold Ext2Fs.IsInode
    decide +kernel
  exact (smallFs_volume.shows.writeInode hinode shortRaw).2.volume.readable hinode'

theorem shortKernel_open :
    OpenOn shortKernel 4 12 0 := by
  refine ⟨shortFs_readable, ?_, ⟨7, shortInode, ?_, rfl, rfl, rfl, rfl⟩, ?_⟩
  · decide +kernel
  · decide +kernel
  · decide +kernel

theorem sharedReads_shares :
    Allowed SharedEvent.step (Shares 4 (shortKernel.st.fs.inodeOf 12).size) shortKernel
      sharedReads := by
  refine ⟨?_, ?_, ?_, ?_, ?_, ?_, trivial⟩ <;> decide +kernel

/-- The four reads return the three bytes of the file and then nothing. -/
theorem shared_reads_in_order_forked :
    ∃ chunks, returned shortKernel sharedReads = chunks.map some ∧
      chunks.flatten <+: fileBytes shortFs 12 ∧
      ∀ pre post, chunks = pre ++ [] :: post → pre.flatten = fileBytes shortFs 12 :=
  shared_reads_in_order shortKernel 4 12 shortKernel_open sharedReads sharedReads_shares

example :
    returned shortKernel sharedReads =
      [some [0xFF#8, 0xFF#8], some [0xFF#8], some [], some []] := by
  decide +kernel

end Vfs
end Homunculos
