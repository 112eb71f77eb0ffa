import Homunculos.Vfs.References

/-!
# What each call does to the references

Every call keeps the reference counts right, and a call that fails leaves the
descriptors, the used slots and the used pipes as they were.
-/

namespace Homunculos
namespace Vfs

open Ipc RefCount Function

section Descriptors

variable {s s' : FileSys} {held : Slot → Nat} {t : Pid}

theorem fileAt_some {fd : Int} {i : Fd} {f : Slot} (h : s.fileAt t fd = some (i, f)) :
    s.fdTable t i = some f := by
  obtain ⟨j, _, hj⟩ := Option.bind_eq_some_iff.mp h
  obtain ⟨g, hg, heq⟩ := Option.map_eq_some_iff.mp hj
  cases heq
  exact hg

theorem freeFdFrom_some {arg : Int} {fd : Fd} (h : s.freeFdFrom t arg = some fd) :
    s.fdTable t fd = none := by
  have hfd := List.find?_some h
  rw [Bool.and_eq_true] at hfd
  exact Option.isNone_iff_eq_none.mp hfd.2

theorem sameUse_open_close {f : Slot} {inode : Option Nat} {flags : BitVec 32}
    (hopen : vfsOpenFileFlags s inode flags = some (f, s')) :
    SameUse s (vfsCloseFile s' f) := by
  obtain ⟨hf, ino, rfl⟩ := vfsOpenFileFlags_some hopen
  have hself : ∀ file : File, (s.setFile f file).files f = file :=
    fun file => update_self ..
  have hlast : ((s.setFile f (File.mk (some .vfsFileOps) (.inode ino)
      0 1 flags)).files f).refcount ≤ 1 := by
    rw [hself]
  obtain ⟨hfiles, hpipes, hused⟩ := vfsCloseFile_of_last hlast
  obtain ⟨hfd, hpid⟩ := vfsCloseFile_frame
    (s.setFile f (File.mk (some .vfsFileOps) (.inode ino) 0 1 flags)) f
  have hop := closeOp_of_no_end (s := s.setFile f
    (File.mk (some .vfsFileOps) (.inode ino) 0 1 flags)) (f := f) (by
      rw [hself]
      rfl)
  rw [hop] at hpipes hused
  refine ⟨hfd, hpid, ?_, ?_, hused, ?_⟩
  · intro g
    rw [hfiles]
    by_cases hg : g = f
    · subst hg
      simp [File.cleared, hf]
    · simp [FileSys.setFile, hg]
  · intro g hg
    have hne : g ≠ f := by
      rintro rfl
      exact hg hf
    rw [hfiles]
    simp [FileSys.setFile, hne]
  · intro p _
    rw [hpipes]
    rfl

variable (h : Inv s held)
include h

theorem sysOpen_spec (ht : t.val < s.nextPid) (path : Bool) (resolved created : Option Nat)
    (flags : BitVec 32) :
    Inv (sysOpen s t path resolved created flags).2 held ∧
      ((sysOpen s t path resolved created flags).1 = -1 →
        SameUse s (sysOpen s t path resolved created flags).2) := by
  unfold sysOpen
  by_cases hpath : path = false
  · rw [if_pos hpath]
    exact ⟨h, fun _ => SameUse.refl s⟩
  · rw [if_neg hpath]
    cases hopen : vfsOpenFileFlags s (openInode resolved created flags)
        flags with
    | none => exact ⟨h, fun _ => SameUse.refl s⟩
    | some x =>
      obtain ⟨f, s1⟩ := x
      have h1 := h.openFile hopen
      dsimp only
      cases hfd : s1.freeFdFrom t 0 with
      | none => exact ⟨h1.closeFile, fun _ => sameUse_open_close hopen⟩
      | some fd =>
        have ht1 : t.val < s1.nextPid := by
          obtain ⟨_, ino, rfl⟩ := vfsOpenFileFlags_some hopen
          exact ht
        refine ⟨h1.store ht1 (freeFdFrom_some hfd), ?_⟩
        intro hret
        dsimp only at hret
        omega

theorem sysClose_inv (fd : Int) :
    Inv (sysClose s t fd).2 held := by
  unfold sysClose
  cases hf : s.fileAt t fd with
  | none => exact h
  | some x => exact (h.take (fileAt_some hf)).closeFile

variable (ht : t.val < s.nextPid)
include ht

theorem Inv.dupFd {f : Slot} {i j : Fd} (hi : s.fdTable t i = some f) (hj : s.fdTable t j = none) :
    Inv ((s.incref f).setFd t j (some f)) held :=
  (h.incref (h.used_of_fd hi)).store ht hj

theorem sysDup2_spec (oldfd newfd : Int) :
    Inv (sysDup2 s t oldfd newfd).2 held ∧
      ((sysDup2 s t oldfd newfd).1 = -1 →
        SameUse s (sysDup2 s t oldfd newfd).2) := by
  unfold sysDup2
  cases hnew : fdOf newfd with
  | none => exact ⟨h, fun _ => SameUse.refl s⟩
  | some j =>
    cases hold : s.fileAt t oldfd with
    | none => exact ⟨h, fun _ => SameUse.refl s⟩
    | some x =>
      obtain ⟨i, f⟩ := x
      have hi := fileAt_some hold
      dsimp only
      by_cases hij : i = j
      · rw [if_pos hij]
        exact ⟨h, fun _ => SameUse.refl s⟩
      · rw [if_neg hij]
        refine ⟨?_, ?_⟩
        · cases hj : s.fdTable t j with
          | none => exact h.dupFd ht hi hj
          | some g =>
            -- clear the descriptor first: the result is the same
            have h1 := (h.take hj).closeFile
            rw [vfsCloseFile_setFd] at h1
            have hfd := (vfsCloseFile_frame s g).1
            have hpid := (vfsCloseFile_frame s g).2
            have h2 := h1.dupFd (t := t) (i := i) (j := j) (f := f)
              (by rw [← hpid] at ht; exact ht)
              (by simp [FileSys.setFd, hfd, hij, hi])
              (by simp [FileSys.setFd])
            have heq : ((((vfsCloseFile s g).setFd t j none).incref
                f).setFd t j (some f)) =
                ((vfsCloseFile s g).incref f).setFd t j (some f) :=
              setFd_setFd ((vfsCloseFile s g).incref f) t j none (some f)
            rw [heq] at h2
            exact h2
        · intro hret
          dsimp only at hret
          rw [hret] at hnew
          cases hnew

theorem sysDup_spec (oldfd : Int) :
    Inv (sysDup s t oldfd).2 held ∧
      ((sysDup s t oldfd).1 = -1 → SameUse s (sysDup s t oldfd).2) := by
  unfold sysDup
  cases s.fileAt t oldfd with
  | none => exact ⟨h, fun _ => SameUse.refl s⟩
  | some x =>
    cases s.freeFdFrom t 0 with
    | none => exact ⟨h, fun _ => SameUse.refl s⟩
    | some newfd => exact sysDup2_spec h ht oldfd newfd.val

theorem sysFcntl64_spec (fd : Int) (cmd : FcntlCmd) (arg : BitVec 32) :
    Inv (sysFcntl64 s t fd cmd arg).2 held ∧
      (cmd = .dupfd → (sysFcntl64 s t fd cmd arg).1 = -1 →
        SameUse s (sysFcntl64 s t fd cmd arg).2) := by
  unfold sysFcntl64
  cases hf : s.fileAt t fd with
  | none => exact ⟨h, fun _ _ => SameUse.refl s⟩
  | some x =>
    obtain ⟨i, f⟩ := x
    have hi := fileAt_some hf
    cases cmd with
    | dupfd =>
      cases hj : s.freeFdFrom t arg.toInt with
      | none => exact ⟨h, fun _ _ => SameUse.refl s⟩
      | some j =>
        have h1 := h.dupFd ht hi (freeFdFrom_some hj)
        refine ⟨⟨h1.counted, h1.pipesOk, h1.fresh⟩, ?_⟩
        intro _ hret
        dsimp only at hret
        omega
    | setfd => exact ⟨⟨h.counted, h.pipesOk, h.fresh⟩, fun hcmd => by cases hcmd⟩
    | setfl => exact ⟨h.setFlags f _, fun hcmd => by cases hcmd⟩
    | _ => exact ⟨h, fun hcmd => by cases hcmd⟩

end Descriptors

section NewPipe

variable {s s' : FileSys} {held : Slot → Nat} {t : Pid} {p : PipeNo} {rf wf : Slot}

/-- The file that `sys_pipe` makes of a slot. -/
def endFile (ops : FileOps) (p : PipeNo) : File where
  ops := some ops
  privateData := .pipe p
  pos := 0
  refcount := 1
  flags := 0#32

/-- The state of `sys_pipe` with both ends, before it looks for descriptors. -/
def FileSys.newPipe (s : FileSys) (p : PipeNo) (rf wf : Slot) : FileSys :=
  ((s.takePipe p).setFile rf (endFile .pipeReadOps p)).setFile wf
    (endFile .pipeWriteOps p)

theorem pipeAlloc_some (h : pipeAlloc s = some (p, s')) :
    s.pipeUsed p = false ∧ s' = s.takePipe p := by
  obtain ⟨q, hq, heq⟩ := Option.map_eq_some_iff.mp h
  cases heq
  have hfree := List.find?_some hq
  exact ⟨by simpa using hfree, rfl⟩

theorem vfsAllocFile_some {f : Slot} (h : vfsAllocFile s = some (f, s')) :
    (s.files f).ops = none ∧
      ∀ ops p, s'.setEnd f ops p = s.setFile f (endFile ops p) := by
  obtain ⟨g, hg, heq⟩ := Option.map_eq_some_iff.mp h
  cases heq
  refine ⟨freeSlot_some hg, ?_⟩
  intro ops p
  unfold FileSys.setEnd
  rw [setFile_files_self, setFile_setFile]
  rfl

/-- The two descriptors that the loop of `sys_pipe` finds. -/
theorem pipeFds_some
    {tbl : Fd → Option Slot} {l : List Fd} {rfd : Option Fd} {r w : Fd} (hnodup : l.Nodup)
    (hrfd : ∀ r', rfd = some r' → tbl r' = none ∧ r' ∉ l) (h : pipeFds tbl l rfd = some (r, w)) :
    tbl r = none ∧ tbl w = none ∧ r ≠ w := by
  induction l generalizing rfd with
  | nil => cases h
  | cons i rest ih =>
    obtain ⟨hi, hrest⟩ := List.nodup_cons.mp hnodup
    unfold pipeFds at h
    by_cases hfree : tbl i = none
    · rw [if_pos hfree] at h
      cases hr : rfd with
      | none =>
        rw [hr] at h
        apply ih hrest ?_ h
        intro r' hr'
        cases hr'
        exact ⟨hfree, hi⟩
      | some r' =>
        rw [hr] at h
        cases h
        obtain ⟨hr', hmem⟩ := hrfd r hr
        refine ⟨hr', hfree, ?_⟩
        rintro rfl
        exact hmem (by simp)
    · rw [if_neg hfree] at h
      apply ih hrest ?_ h
      intro r' hr'
      obtain ⟨hfr, hmem⟩ := hrfd r' hr'
      exact ⟨hfr, fun hin => hmem (List.mem_cons_of_mem i hin)⟩

theorem SameUse.trans {s1 s2 : FileSys} (h1 : SameUse s s1) (h2 : SameUse s1 s2) :
    SameUse s s2 := by
  refine ⟨h2.fdTable.trans h1.fdTable, h2.nextPid.trans h1.nextPid,
    fun f => (h2.free_iff f).trans (h1.free_iff f), ?_,
    h2.pipeUsed.trans h1.pipeUsed, ?_⟩
  · intro f hf
    have hf1 : (s1.files f).ops ≠ none := by
      rw [h1.file f hf]
      exact hf
    rw [h2.file f hf1, h1.file f hf]
  · intro q hq
    rw [h2.pipe q (by rw [h1.pipeUsed]; exact hq), h1.pipe q hq]

theorem sameUse_setFile
    {f : Slot} {file : File} (hf : (s.files f).ops = none) (hfile : file.ops = none) :
    SameUse s (s.setFile f file) := by
  refine ⟨rfl, rfl, ?_, ?_, rfl, fun _ _ => rfl⟩
  · intro g
    by_cases hg : g = f
    · subst hg
      rw [setFile_files_self, hf, hfile]
    · rw [setFile_files_of_ne s file hg]
  · intro g hg
    apply setFile_files_of_ne
    rintro rfl
    exact hg hf

theorem sameUse_dropPipe (hp : s.pipeUsed p = false) :
    SameUse s (dropPipe (s.takePipe p) p) := by
  refine ⟨rfl, rfl, fun _ => Iff.rfl, fun _ _ => rfl, ?_, ?_⟩
  · change update (update s.pipeUsed p true) p false = _
    rw [update_idem, ← hp, update_eq_self]
  · intro q hq
    have hne : q ≠ p := by
      rintro rfl
      rw [hp] at hq
      cases hq
    simp [dropPipe, pipeFree, FileSys.takePipe, hne]

theorem sameUse_close_ends
    (hp : s.pipeUsed p = false) (hrf : (s.files rf).ops = none) (hwf : (s.files wf).ops = none)
    (hne : rf ≠ wf) :
    SameUse s (vfsCloseFile (vfsCloseFile (s.newPipe p rf wf) rf) wf) := by
  have hrfile : (s.newPipe p rf wf).files rf = endFile .pipeReadOps p := by
    unfold FileSys.newPipe
    rw [setFile_files_of_ne _ _ hne, setFile_files_self]
  have hpipe : (s.newPipe p rf wf).pipes p = pipeNew :=
    update_self ..
  obtain ⟨hfiles1, hpipes1, hused1⟩ :=
    vfsCloseFile_of_last (s := s.newPipe p rf wf) (f := rf) (by
      rw [hrfile]
      exact le_refl _)
  obtain ⟨hop1, hopUsed1⟩ :=
    closeOp_of_end (s := s.newPipe p rf wf) (f := rf) (e := .read) (p := p) (by
      rw [hrfile]
      rfl)
  rw [hop1, hpipe] at hpipes1
  rw [hopUsed1, hpipe] at hused1
  have hframe1 := vfsCloseFile_frame (s.newPipe p rf wf) rf
  generalize vfsCloseFile (s.newPipe p rf wf) rf = s1 at *
  have hwfile : s1.files wf = endFile .pipeWriteOps p := by
    rw [hfiles1, update_of_ne hne.symm]
    exact setFile_files_self ..
  have hpipe1 : s1.pipes p = (pipeCloseRead pipeNew).1 := by
    rw [hpipes1]
    exact update_self ..
  obtain ⟨hfiles2, hpipes2, hused2⟩ :=
    vfsCloseFile_of_last (s := s1) (f := wf) (by
      rw [hwfile]
      exact le_refl _)
  obtain ⟨hop2, hopUsed2⟩ :=
    closeOp_of_end (s := s1) (f := wf) (e := .write) (p := p) (by
      rw [hwfile]
      rfl)
  rw [hop2] at hpipes2
  rw [hopUsed2, hpipe1] at hused2
  have hframe2 := vfsCloseFile_frame s1 wf
  refine ⟨hframe2.1.trans hframe1.1, hframe2.2.trans hframe1.2, ?_, ?_, ?_, ?_⟩
  · intro g
    rw [hfiles2, hfiles1]
    by_cases hgw : g = wf
    · subst hgw
      simp [File.cleared, hwf]
    · by_cases hgr : g = rf
      · subst hgr
        simp [File.cleared, hgw, hrf]
      · simp [FileSys.newPipe, FileSys.takePipe, FileSys.setFile, hgw, hgr]
  · intro g hg
    have hgw : g ≠ wf := by
      rintro rfl
      exact hg hwf
    have hgr : g ≠ rf := by
      rintro rfl
      exact hg hrf
    rw [hfiles2, hfiles1]
    simp [FileSys.newPipe, FileSys.takePipe, FileSys.setFile, hgw, hgr]
  · rw [hused2, hused1]
    change update (update s.pipeUsed p true) p false = _
    rw [update_idem, ← hp, update_eq_self]
  · intro q hq
    have hqp : q ≠ p := by
      rintro rfl
      rw [hp] at hq
      cases hq
    rw [hpipes2, hpipes1, update_of_ne hqp, update_of_ne hqp]
    exact update_of_ne hqp ..

/-- Both ends of a new pipe are held by `sys_pipe`. -/
theorem Inv.newPipe (h : Inv s held) (hp : s.pipeUsed p = false) (hrf : (s.files rf).ops = none)
    (hwf : (s.files wf).ops = none) (hne : rf ≠ wf) :
    Inv (s.newPipe p rf wf) (hold (hold held rf) wf) := by
  have h1 := counted_setFile_new (s := s.takePipe p) (f := rf)
    h.counted hrf (endFile .pipeReadOps p) (by simp [endFile]) rfl
  have hwf1 : (((s.takePipe p).setFile rf
      (endFile .pipeReadOps p)).files wf).ops = none := by
    rw [setFile_files_of_ne _ _ hne.symm]
    exact hwf
  have h2 := counted_setFile_new
    (s := (s.takePipe p).setFile rf (endFile .pipeReadOps p)) (f := wf)
    h1 hwf1 (endFile .pipeWriteOps p) (by simp [endFile]) rfl
  refine ⟨h2, ?_, h.fresh⟩
  unfold FileSys.newPipe
  rw [ends_setFile, ends_setFile]
  exact h.pipesOk.addPipe hp (pipeEnd_eq_none hrf) (pipeEnd_eq_none hwf) hne

/-- `sys_pipe` fails without a trace or makes a pipe with two descriptors. -/
theorem sysPipe_cases (s : FileSys) (t : Pid) :
    ((sysPipe s t).1 = -1 ∧ SameUse s (sysPipe s t).2.2) ∨
      ∃ p rf wf rfd wfd, s.pipeUsed p = false ∧
        (s.files rf).ops = none ∧ (s.files wf).ops = none ∧ rf ≠ wf ∧
        s.fdTable t rfd = none ∧ s.fdTable t wfd = none ∧ rfd ≠ wfd ∧
        sysPipe s t = (0, some (rfd, wfd),
          ((s.newPipe p rf wf).setFd t rfd (some rf)).setFd t wfd
            (some wf)) := by
  unfold sysPipe
  cases halloc : pipeAlloc s with
  | none => exact Or.inl ⟨rfl, SameUse.refl s⟩
  | some x =>
    obtain ⟨p, s1⟩ := x
    obtain ⟨hp, rfl⟩ := pipeAlloc_some halloc
    dsimp only
    cases hr : vfsAllocFile (s.takePipe p) with
    | none => exact Or.inl ⟨rfl, sameUse_dropPipe hp⟩
    | some x =>
      obtain ⟨rf, s2⟩ := x
      obtain ⟨hrf, hset2⟩ := vfsAllocFile_some hr
      dsimp only
      rw [hset2]
      cases hw : vfsAllocFile ((s.takePipe p).setFile rf
          (endFile .pipeReadOps p)) with
      | none =>
        refine Or.inl ⟨rfl, ?_⟩
        rw [setFile_setFile]
        exact (sameUse_dropPipe hp).trans
          (sameUse_setFile hrf rfl)
      | some x =>
        obtain ⟨wf, s4⟩ := x
        obtain ⟨hwf, hset4⟩ := vfsAllocFile_some hw
        have hne : rf ≠ wf := by
          rintro rfl
          rw [setFile_files_self] at hwf
          cases hwf
        rw [setFile_files_of_ne _ _ hne.symm] at hwf
        have hnew : ((s.takePipe p).setFile rf
            (endFile .pipeReadOps p)).setFile wf
              (endFile .pipeWriteOps p) = s.newPipe p rf wf := rfl
        dsimp only
        rw [hset4, hnew]
        cases hfds : pipeFds
            ((s.newPipe p rf wf).fdTable t) (List.finRange 16) none with
        | none => exact Or.inl ⟨rfl, sameUse_close_ends hp hrf hwf hne⟩
        | some y =>
          obtain ⟨rfd, wfd⟩ := y
          obtain ⟨hrfd, hwfd, hfd⟩ :=
            pipeFds_some (List.nodup_finRange 16) (by simp) hfds
          exact Or.inr ⟨p, rf, wf, rfd, wfd, hp, hrf, hwf, hne, hrfd, hwfd, hfd, rfl⟩

theorem sysPipe_inv (h : Inv s held) (ht : t.val < s.nextPid) :
    Inv (sysPipe s t).2.2 held := by
  rcases sysPipe_cases s t with ⟨_, hsame⟩ |
    ⟨p, rf, wf, rfd, wfd, hp, hrf, hwf, hne, hrfd, hwfd, hfd, hout⟩
  · exact h.of_sameUse hsame
  · rw [hout]
    have hnew := h.newPipe hp hrf hwf hne
    rw [hold_comm] at hnew
    have hr : Inv ((s.newPipe p rf wf).setFd t rfd (some rf))
        (hold held wf) :=
      hnew.store ht hrfd
    refine hr.store ht ?_
    simp [FileSys.setFd, hfd.symm]
    exact hwfd

end NewPipe

section Loops

variable {s : FileSys} {held : Slot → Nat}

theorem forkFd_inv {parent child : Pid} {i : Fd} (h : Inv s held) (hchild : child.val < s.nextPid)
    (hfree : s.fdTable child i = none) :
    Inv (forkFd parent child s i) held := by
  cases hi : s.fdTable parent i with
  | none =>
    have hsame : s.setFd child i none = s := by simp [FileSys.setFd, ← hfree]
    have hout : forkFd parent child s i =
        s.setFdFlags child i (s.fdFlags parent i) := by
      simp only [forkFd, hi, hsame]
    rw [hout]
    exact ⟨h.counted, h.pipesOk, h.fresh⟩
  | some f =>
    have hout : forkFd parent child s i =
        ((s.incref f).setFd child i (some f)).setFdFlags child i
          (s.fdFlags parent i) := by
      simp only [forkFd, hi]
      rfl
    have h1 := (h.incref (h.used_of_fd hi)).store hchild hfree
    rw [hout]
    exact ⟨h1.counted, h1.pipesOk, h1.fresh⟩

theorem forkFd_frame (parent child : Pid) (s : FileSys) (i : Fd) :
    (forkFd parent child s i).nextPid = s.nextPid ∧
      ∀ j, j ≠ i →
        (forkFd parent child s i).fdTable child j = s.fdTable child j := by
  unfold forkFd
  cases s.fdTable parent i with
  | none => exact ⟨rfl, fun j hj => by simp [FileSys.setFdFlags, FileSys.setFd, hj]⟩
  | some f =>
    exact ⟨rfl, fun j hj => by
      simp [FileSys.setFdFlags, FileSys.incref, FileSys.setFile, FileSys.setFd, hj]⟩

/-- The loop of `task_fork` over descriptors that the child does not have yet. -/
theorem forkFds_inv {parent child : Pid} (l : List Fd) (hnodup : l.Nodup) (h : Inv s held)
    (hchild : child.val < s.nextPid) (hfree : ∀ i ∈ l, s.fdTable child i = none) :
    Inv (l.foldl (forkFd parent child) s) held := by
  induction l generalizing s with
  | nil => exact h
  | cons i rest ih =>
    obtain ⟨hi, hrest⟩ := List.nodup_cons.mp hnodup
    obtain ⟨hpid, hother⟩ := forkFd_frame parent child s i
    apply ih hrest (forkFd_inv h hchild (hfree i (by simp)))
    · rw [hpid]
      exact hchild
    · intro j hj
      have hne : j ≠ i := by
        rintro rfl
        exact hi hj
      rw [hother j hne]
      exact hfree j (List.mem_cons_of_mem i hj)

theorem sysFork_inv {t : Pid} (h : Inv s held) (cloned : Bool) :
    Inv (sysFork s t cloned).2 held := by
  unfold sysFork
  cases halloc : taskAlloc s with
  | none => exact h
  | some x =>
    obtain ⟨child, s1⟩ := x
    obtain ⟨h1, hchild, hfree⟩ := h.taskAlloc halloc
    have h2 : Inv ((List.finRange 16).foldl (forkFd t child) s1) held :=
      forkFds_inv (List.finRange 16) (List.nodup_finRange 16) h1 hchild
        (fun i _ => hfree i)
    cases cloned with
    | true => exact ⟨h2.counted, h2.pipesOk, h2.fresh⟩
    | false => exact ⟨h2.counted, h2.pipesOk, h2.fresh⟩

theorem exitFd_inv (h : Inv s held) (t : Pid) (i : Fd) :
    Inv (exitFd t s i) held := by
  unfold exitFd
  cases hi : s.fdTable t i with
  | none => exact h
  | some f =>
    have h1 := (h.take hi).closeFile
    rw [vfsCloseFile_setFd] at h1
    exact h1

theorem exitFds_inv (h : Inv s held) (t : Pid) (l : List Fd) :
    Inv (l.foldl (exitFd t) s) held := by
  induction l generalizing s with
  | nil => exact h
  | cons i rest ih => exact ih (exitFd_inv h t i)

theorem sysExit_inv (h : Inv s held) (t : Pid) :
    Inv (sysExit s t).2 held := by
  have h1 := exitFds_inv h t (List.finRange 16)
  unfold sysExit
  dsimp only
  split
  · exact ⟨h1.counted, h1.pipesOk, h1.fresh⟩
  · exact ⟨h1.counted, h1.pipesOk, h1.fresh⟩

end Loops

end Vfs
end Homunculos
