import Homunculos.Vfs.FileCalls

/-!
# References to open files

The kernel counts the descriptors that point to an open file, and frees the
slot with the last of them.  `Inv` says that the counts are right, that pipe
ends and pipes agree, and that tasks which do not exist yet have no
descriptors.

Each system call is a sequence of small steps: a slot is taken, a descriptor
is written or cleared, a count goes up or down.  Between two of them the
kernel holds a pointer in a local variable, which `Inv` counts as held.
-/

namespace Homunculos
namespace Vfs

open Ipc RefCount Function

/-- The references of descriptors and of `held` pointers are counted. -/
structure Inv (s : FileSys) (held : Slot → Nat) : Prop where
  counted : Counted s.table held (fun f => (s.files f).ops ≠ none)
    (fun f => (s.files f).refcount)
  pipesOk : PipesOk (fun f => (s.files f).pipeEnd) s.pipes s.pipeUsed
  fresh : ∀ t : Pid, s.nextPid ≤ t.val → ∀ fd, s.fdTable t fd = none

/-- The descriptors, the used slots and the used pipes are the same. -/
structure SameUse (s s' : FileSys) : Prop where
  fdTable : s'.fdTable = s.fdTable
  nextPid : s'.nextPid = s.nextPid
  free_iff : ∀ f, (s'.files f).ops = none ↔ (s.files f).ops = none
  file : ∀ f, (s.files f).ops ≠ none → s'.files f = s.files f
  pipeUsed : s'.pipeUsed = s.pipeUsed
  pipe : ∀ p, s.pipeUsed p = true → s'.pipes p = s.pipes p

section Steps

variable {s s' : FileSys} {held : Slot → Nat} {t : Pid} {fd : Fd} {f : Slot}

theorem SameUse.refl (s : FileSys) :
    SameUse s s :=
  ⟨rfl, rfl, fun _ => Iff.rfl, fun _ _ => rfl, rfl, fun _ _ => rfl⟩

theorem Inv.of_sameUse (h : Inv s held) (hsame : SameUse s s') :
    Inv s' held := by
  have hfree : ∀ f, (s'.files f).ops ≠ none ↔ (s.files f).ops ≠ none :=
    fun f => not_congr (hsame.free_iff f)
  have htable : s'.table = s.table := by
    funext x
    exact congrFun (congrFun hsame.fdTable x.1) x.2
  have hends : (fun f => (s'.files f).pipeEnd) =
      fun f => (s.files f).pipeEnd := by
    funext f
    by_cases hf : (s.files f).ops = none
    · rw [pipeEnd_eq_none hf, pipeEnd_eq_none ((hsame.free_iff f).mpr hf)]
    · rw [hsame.file f hf]
  refine ⟨⟨?_, ?_⟩, ?_, ?_⟩
  · intro f hf
    rw [hsame.file f ((hfree f).mp hf), htable]
    exact h.counted.count_eq f ((hfree f).mp hf)
  · intro f
    rw [htable]
    exact (hfree f).trans (h.counted.used_iff f)
  · rw [hends, hsame.pipeUsed]
    exact h.pipesOk.congr_unused hsame.pipe
  · intro t ht fd
    rw [hsame.fdTable]
    exact h.fresh t (by rw [← hsame.nextPid]; exact ht) fd

theorem ends_setFile (s : FileSys) (f : Slot) (file : File) :
    (fun g => ((s.setFile f file).files g).pipeEnd) =
      update (fun g => (s.files g).pipeEnd) f file.pipeEnd := by
  funext g
  by_cases hg : g = f
  · subst hg
    simp [FileSys.setFile]
  · simp [FileSys.setFile, hg]

theorem PipesOk.setFile
    (h : PipesOk (fun g => (s.files g).pipeEnd) s.pipes s.pipeUsed) {file : File}
    (hend : file.pipeEnd = (s.files f).pipeEnd) :
    PipesOk (fun g => ((s.setFile f file).files g).pipeEnd)
      s.pipes s.pipeUsed := by
  have hsame : update (fun g => (s.files g).pipeEnd) f file.pipeEnd =
      fun g => (s.files g).pipeEnd := by
    rw [hend]
    exact update_eq_self f _
  rw [ends_setFile, hsame]
  exact h

theorem Inv.store (h : Inv s (hold held f)) (ht : t.val < s.nextPid) (hfd : s.fdTable t fd = none) :
    Inv (s.setFd t fd (some f)) held := by
  refine ⟨?_, h.pipesOk, ?_⟩
  · rw [table_setFd]
    exact h.counted.store (i := (t, fd)) hfd
  · intro t' ht' fd'
    have hne : t' ≠ t := by
      rintro rfl
      exact Nat.not_le_of_lt ht ht'
    have hsame : (s.setFd t fd (some f)).fdTable t' = s.fdTable t' :=
      update_of_ne hne ..
    rw [hsame]
    exact h.fresh t' ht' fd'

variable (h : Inv s held)
include h

theorem Inv.take (hfd : s.fdTable t fd = some f) :
    Inv (s.setFd t fd none) (hold held f) := by
  refine ⟨?_, h.pipesOk, ?_⟩
  · rw [table_setFd]
    exact h.counted.take (i := (t, fd)) hfd
  · intro t' ht' fd'
    have hne : t' ≠ t := by
      rintro rfl
      rw [h.fresh t' ht' fd] at hfd
      cases hfd
    have hsame : (s.setFd t fd none).fdTable t' = s.fdTable t' :=
      update_of_ne hne ..
    rw [hsame]
    exact h.fresh t' ht' fd'

theorem Inv.used_of_fd (hfd : s.fdTable t fd = some f) :
    (s.files f).ops ≠ none :=
  h.counted.used_of_entry (i := (t, fd)) hfd

theorem Inv.incref (hf : (s.files f).ops ≠ none) :
    Inv (s.incref f) (hold held f) := by
  refine ⟨h.counted.copy hf ?_ ?_ ?_, h.pipesOk.setFile rfl, h.fresh⟩
  · intro g
    by_cases hg : g = f
    · subst hg
      simp [FileSys.incref, FileSys.setFile]
    · simp [FileSys.incref, FileSys.setFile, hg]
  · simp [FileSys.incref, FileSys.setFile]
  · intro g hg
    simp [FileSys.incref, FileSys.setFile, hg]

theorem Inv.taskAlloc (halloc : taskAlloc s = some (t, s')) :
    Inv s' held ∧ t.val < s'.nextPid ∧ ∀ fd, s'.fdTable t fd = none := by
  unfold Vfs.taskAlloc at halloc
  by_cases hroom : s.nextPid < 256
  · rw [dif_pos hroom] at halloc
    cases halloc
    refine ⟨⟨h.counted, h.pipesOk, ?_⟩, Nat.lt_succ_self s.nextPid, ?_⟩
    · intro t' ht'
      exact h.fresh t' (Nat.le_of_succ_le ht')
    · exact h.fresh ⟨s.nextPid, hroom⟩ (Nat.le_refl _)
  · rw [dif_neg hroom] at halloc
    cases halloc

theorem Inv.setFlags (f : Slot) (flags : BitVec 32) :
    Inv (s.setFile f { s.files f with flags := flags }) held := by
  have hsame : ∀ g,
      ((s.setFile f { s.files f with flags := flags }).files g).ops =
          (s.files g).ops ∧
        ((s.setFile f { s.files f with flags := flags }).files g).refcount =
          (s.files g).refcount := by
    intro g
    by_cases hg : g = f
    · subst hg
      simp [FileSys.setFile]
    · simp [FileSys.setFile, hg]
  refine ⟨⟨?_, ?_⟩, h.pipesOk.setFile rfl, h.fresh⟩
  · intro g hg
    rw [(hsame g).1] at hg
    rw [(hsame g).2]
    exact h.counted.count_eq g hg
  · intro g
    rw [(hsame g).1]
    exact h.counted.used_iff g

omit h

/-- `vfs_open_file_flags` gives a free slot to a file. -/
theorem vfsOpenFileFlags_some {inode : Option Nat} {flags : BitVec 32}
    (hopen : vfsOpenFileFlags s inode flags = some (f, s')) :
    (s.files f).ops = none ∧
      ∃ ino, s' = s.setFile f
        { ops := some .vfsFileOps
          privateData := .inode ino
          pos := 0
          refcount := 1
          flags := flags } := by
  obtain ⟨ino, _, hopen⟩ := Option.bind_eq_some_iff.mp hopen
  obtain ⟨g, hslot, hg⟩ := Option.map_eq_some_iff.mp hopen
  cases hg
  exact ⟨freeSlot_some hslot, ino, rfl⟩

theorem counted_setFile_new
    (h : Counted s.table held (fun g => (s.files g).ops ≠ none) (fun g => (s.files g).refcount))
    (hf : (s.files f).ops = none)
    (file : File)
    (hops : file.ops ≠ none)
    (hcount : file.refcount = 1) :
    Counted s.table (hold held f)
      (fun g => ((s.setFile f file).files g).ops ≠ none)
      (fun g => ((s.setFile f file).files g).refcount) := by
  refine h.create (not_not.mpr hf) ?_ ?_ ?_
  · intro g
    by_cases hg : g = f
    · subst hg
      rw [setFile_files_self]
      simp [hops]
    · rw [setFile_files_of_ne s file hg]
      simp [hg]
  · rw [setFile_files_self]
    exact hcount
  · intro g hg
    rw [setFile_files_of_ne s file hg]

theorem Inv.openFile {inode : Option Nat} {flags : BitVec 32} (h : Inv s held)
    (hopen : vfsOpenFileFlags s inode flags = some (f, s')) :
    Inv s' (hold held f) := by
  obtain ⟨hf, ino, rfl⟩ := vfsOpenFileFlags_some hopen
  exact ⟨counted_setFile_new h.counted hf _ (by simp) rfl,
    h.pipesOk.setFile (pipeEnd_eq_none hf).symm, h.fresh⟩

theorem Inv.closeFile (h : Inv s (hold held f)) :
    Inv (vfsCloseFile s f) held := by
  by_cases hmany : 1 < (s.files f).refcount
  · rw [vfsCloseFile_of_many hmany]
    refine ⟨h.counted.drop hmany ?_ ?_ ?_, h.pipesOk.setFile rfl, h.fresh⟩
    · intro g
      by_cases hg : g = f
      · subst hg
        simp [FileSys.setFile]
      · simp [FileSys.setFile, hg]
    · simp [FileSys.setFile]
    · intro g hg
      simp [FileSys.setFile, hg]
  · have hlast : (s.files f).refcount ≤ 1 := by omega
    obtain ⟨hfiles, hpipes, hused⟩ := vfsCloseFile_of_last hlast
    obtain ⟨hfd, hpid⟩ := vfsCloseFile_frame s f
    have htable : (vfsCloseFile s f).table = s.table := by
      unfold FileSys.table
      rw [hfd]
    have hends : (fun g => ((vfsCloseFile s f).files g).pipeEnd) =
        update (fun g => (s.files g).pipeEnd) f none := by
      rw [hfiles]
      exact ends_setFile s f (s.files f).cleared
    refine ⟨?_, ?_, ?_⟩
    · rw [htable, hfiles]
      refine h.counted.dropLast hlast ?_ ?_
      · intro g
        by_cases hg : g = f
        · subst hg
          simp [File.cleared]
        · simp [hg]
      · intro g hg
        simp [hg]
    · rw [hends, hpipes, hused]
      cases hend : (s.files f).pipeEnd with
      | none =>
        rw [closeOp_of_no_end hend, ← hend]
        rw [update_eq_self f fun g => (s.files g).pipeEnd]
        exact h.pipesOk
      | some x =>
        obtain ⟨hop, hopUsed⟩ := closeOp_of_end hend
        rw [hop, hopUsed]
        exact h.pipesOk.closeEnd hend
    · intro t ht fd
      rw [hfd]
      exact h.fresh t (by rw [← hpid]; exact ht) fd

end Steps

end Vfs
end Homunculos
