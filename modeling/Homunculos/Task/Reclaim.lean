import Homunculos.Exec.NewSpace
import Homunculos.Sched.Effects
import Homunculos.Task.ForkFails

/-!
# What is left of a task that was waited for

Runs of fork, exec, exit and waitpid by any tasks in any order.  `task_alloc` only counts
up, and neither `task_exit`, `task_waitpid` nor `sys_exec` gives a page directory back.

A run keeps which directories each task has had, besides the one of the kernel.
-/

namespace Homunculos
namespace Tasks

open Mm Sched Function

namespace TaskSys

/-- `sys_exec` of the task `t`. -/
def sysExec (s : TaskSys) (t : Task) (c : Exec.ExecCall) : TaskSys :=
  let run := Exec.sysExec s.mm { c with kernelPdir := s.kernelPdir }
  match run.program with
  | none => { s with mm := run.sys }
  | some q =>
    { s with
      mm := run.sys
      pendingSignals := update s.pendingSignals t 0#32
      signalMask := update s.signalMask t 0#32 }.setInfo t
      { s.info t with
        pdir := q.pdir
        brkStart := BitVec.ofNat 32 q.brkStart
        programBreak := BitVec.ofNat 32 q.brkStart
        signalSigframe := 0#32
        signalHandlers := fun _ => Signal.sigDfl
        signalHandlersMask := fun _ => 0#32
        signalHandlersFlags := fun _ => 0#32
        context := { (s.info t).context with pdir := q.pdir * 4096 } }

/-- `sys_exit` behind its loop over the descriptors, up to the switch to another task. -/
def sysExit (s : TaskSys) (t : Task) (status : Int) : TaskSys :=
  { s with
    toKernel :=
      { s.toKernel with exitStatus := update s.exitStatus t status }.markExited t }

/-- The loop of `task_waitpid` from its head to the next `return` or `task_block`: the
child, if there is one. -/
def taskWaitpid (s : TaskSys) (t : Task) (pid : Int) : Option Task × TaskSys :=
  match s.findChildExitedPid t.val pid with
  | none => (none, s)
  | some child => (some child, { s with parentPid := update s.parentPid child (-1) })

/-- The task has an address space.  One that has exited is not left out: `schedule` goes back to
it when no task is ready. -/
def Runs (s : TaskSys) (t : Task) : Prop :=
  t.val < s.nextPid ∧ (s.info t).pdir ≠ 0

instance (s : TaskSys) (t : Task) : Decidable (s.Runs t) :=
  inferInstanceAs (Decidable (_ ∧ _))

/-- Tasks that have not been returned by `task_waitpid`. -/
def unreaped (s : TaskSys) : Nat :=
  (List.finRange maxTasks).countP fun t =>
    decide (t.val < s.nextPid ∧ ¬ (s.state t = .exited ∧ s.parentPid t = -1))

end TaskSys

/-- A call that a task makes. -/
inductive Call where
  | fork (eip cs eflags : BitVec 32) (fp : Nat)
  | exec (c : Exec.ExecCall)
  | exit (status : Int)
  | waitpid (pid : Int)

/-- In user mode a task makes every call; the waiter of `kernel_main` only waits. -/
def TaskSys.May (s : TaskSys) (t : Task) : Call → Prop
  | .waitpid _ => s.Runs t
  | _ => s.Runs t ∧ (s.info t).isUser = true

instance (s : TaskSys) (t : Task) (call : Call) : Decidable (s.May t call) := by
  cases call
  all_goals exact inferInstanceAs (Decidable (_ ∧ _))

/-- The state, and the directories that each task has had. -/
structure History where
  sys : TaskSys
  had : Task → List Nat

namespace History

/-- The directory that the task has now is noted, if it is not that of the kernel. -/
def note (h : History) (t : Task) : History :=
  if (h.sys.info t).pdir = h.sys.kernelPdir then
    h
  else
    { h with had := update h.had t ((h.had t).insert (h.sys.info t).pdir) }

/-- What a call of the task `t` does. -/
def call (img : Image) (h : History) (t : Task) : Call → History
  | .fork eip cs eflags fp =>
    match { h.sys with current := some t }.taskFork img eip cs eflags fp with
    | (none, s) => { h with sys := s }
    | (some child, s) => { h with sys := s }.note child
  | .exec c => { h with sys := h.sys.sysExec t c }.note t
  | .exit status => { h with sys := h.sys.sysExit t status }
  | .waitpid pid => { h with sys := (h.sys.taskWaitpid t pid).2 }

/-- One event of a run: the task that the scheduler has chosen makes a call. -/
def step (img : Image) (h : History) (e : Task × Call) : History :=
  if h.sys.May e.1 e.2 then h.call img e.1 e.2 else h

end History

/-- A frame that is reached from a directory: itself, a table or a page. -/
def Reaches (s : State) (d f : Nat) : Prop :=
  f = d ∨ ∃ r : Ref, r.Live s [d] ∧ r.frame s = f

/-- A frame that is reached only through directories that the task `t` has had. -/
structure OnlyThrough (h : History) (t : Task) (f : Nat) : Prop where
  reached : ∃ d ∈ h.had t, Reaches h.sys.mm d f
  notKernel : ¬ Reaches h.sys.mm h.sys.kernelPdir f
  notOther : ∀ u, u ≠ t → u.val < h.sys.nextPid → (h.sys.info u).pdir ≠ 0 →
    ¬ Reaches h.sys.mm (h.sys.info u).pdir f

/-- What a call should do: `task_alloc` does not fail, and when `task_waitpid` has returned a
child, the frames that were reached only through its directories are free. -/
def Reclaims (img : Image) (h : History) (e : Task × Call) : Prop :=
  h.sys.May e.1 e.2 →
    match e.2 with
    | .fork _ _ _ _ => h.sys.taskAlloc ≠ none
    | .waitpid pid =>
      ∀ child, (h.sys.taskWaitpid e.1 pid).1 = some child →
        ∀ f, OnlyThrough h child f → bitmapTest (h.step img e).sys.mm f = false
    | _ => True

/-- A fork finds a slot, and a child that is returned has had no directory of its own. -/
def NothingToReclaim (h : History) (e : Task × Call) : Prop :=
  h.sys.May e.1 e.2 →
    match e.2 with
    | .fork _ _ _ _ => h.sys.nextPid < maxTasks
    | .waitpid pid => ∀ child, (h.sys.taskWaitpid e.1 pid).1 = some child → h.had child = []
    | _ => True

/-- The buffer for the file of an exec call fits, and its headers put no byte below 16 MiB. -/
def ExecFits (h : History) (e : Task × Call) : Prop :=
  match e.2 with
  | .exec c => Exec.Fits h.sys.mm { c with kernelPdir := h.sys.kernelPdir }
  | _ => True

/--
The directories share nothing with each other and the kernel; each task has its own among
them, that of the kernel, or none.
-/
structure Sound (kernel : Nat → Prop) (kpt : Nat → Nat) (h : History) (dirs : List Nat) : Prop where
  owned : Owned kernel h.sys.mm dirs
  booted : Exec.Booted h.sys.mm h.sys.kernelPdir kpt
  kernelDir : h.sys.kernelPdir ∉ dirs
  kernelEmpty : ∀ i, 4 ≤ i → i < dirSize → present (h.sys.mm.mem h.sys.kernelPdir i) = false
  own : ∀ t : Task, t.val < h.sys.nextPid → (h.sys.info t).pdir = 0 ∨
    (h.sys.info t).pdir = h.sys.kernelPdir ∨ (h.sys.info t).pdir ∈ h.had t
  made : ∀ t, ∀ d ∈ h.had t, d ∈ dirs
  apart : ∀ t u d, d ∈ h.had t → d ∈ h.had u → t = u

section Steps

variable {kernel : Nat → Prop} {kpt : Nat → Nat} {h : History} {dirs : List Nat}
variable {s' : TaskSys} {t : Task}

/-- No directory is made, and a task that is new or has changed has none of its own. -/
theorem Sound.of_keeps (hs : Sound kernel kpt h dirs) (hkeep : Keeps h.sys.mm s'.mm)
    (hpdir : s'.kernelPdir = h.sys.kernelPdir)
    (hown : ∀ u : Task, u.val < s'.nextPid → (s'.info u).pdir = 0 ∨
      (s'.info u).pdir = h.sys.kernelPdir ∨
        (u.val < h.sys.nextPid ∧ (s'.info u).pdir = (h.sys.info u).pdir)) :
    Sound kernel kpt { h with sys := s' } dirs := by
  have hbooted : Exec.Booted s'.mm h.sys.kernelPdir kpt :=
    Exec.Booted.of_keeps (c := ⟨h.sys.kernelPdir, fun _ => 0#8, none, none, none⟩) hs.booted hkeep
  refine ⟨hs.owned.of_keeps hkeep, hpdir ▸ hbooted, hpdir ▸ hs.kernelDir, ?_, ?_, hs.made, hs.apart⟩
  · intro i hlo hhi
    rw [hpdir, hkeep.mem _ hs.booted.dirUsed]
    exact hs.kernelEmpty i hlo hhi
  · intro u hu
    rw [hpdir]
    rcases hown u hu with hzero | hkernel | ⟨hlt, hsame⟩
    · exact Or.inl hzero
    · exact Or.inr (Or.inl hkernel)
    · rw [hsame]
      exact hs.own u hlt

/-- The task `t` gets a directory of its own. -/
theorem Sound.gain (hs : Sound kernel kpt h dirs) (hkeep : Keeps h.sys.mm s'.mm)
    (hpdir : s'.kernelPdir = h.sys.kernelPdir)
    (hfree : bitmapTest h.sys.mm (s'.info t).pdir = false)
    (hnew : Owned (fun f => bitmapTest h.sys.mm f = true) s'.mm [(s'.info t).pdir])
    (hown : ∀ u : Task, u ≠ t → u.val < s'.nextPid → u.val < h.sys.nextPid ∧
      (s'.info u).pdir = (h.sys.info u).pdir) :
    Sound kernel kpt ({ h with sys := s' }.note t) ((s'.info t).pdir :: dirs) := by
  have hne : (s'.info t).pdir ≠ s'.kernelPdir := by
    intro heq
    rw [heq, hpdir, hs.booted.dirUsed] at hfree
    cases hfree
  have hnotin : (s'.info t).pdir ∉ dirs := by
    intro hmem
    rw [hs.owned.dirUsed _ hmem] at hfree
    cases hfree
  have hbooted : Exec.Booted s'.mm h.sys.kernelPdir kpt :=
    Exec.Booted.of_keeps (c := ⟨h.sys.kernelPdir, fun _ => 0#8, none, none, none⟩) hs.booted hkeep
  have hhad : ∀ u d, d ∈ update h.had t ((h.had t).insert (s'.info t).pdir) u ↔
      (u = t ∧ d = (s'.info t).pdir) ∨ d ∈ h.had u := by
    intro u d
    by_cases hu : u = t
    · subst hu
      simp
    · simp [hu]
  unfold History.note
  rw [if_neg hne]
  refine ⟨hs.owned.join hkeep hfree hnew, hpdir ▸ hbooted, ?_, ?_, ?_, ?_, ?_⟩
  · rw [List.mem_cons, not_or]
    exact ⟨hne.symm, hpdir ▸ hs.kernelDir⟩
  · intro i hlo hhi
    rw [hpdir, hkeep.mem _ hs.booted.dirUsed]
    exact hs.kernelEmpty i hlo hhi
  · intro u hu
    by_cases hut : u = t
    · exact Or.inr (Or.inr ((hhad u _).mpr (Or.inl ⟨hut, by rw [hut]⟩)))
    · obtain ⟨hlt, hsame⟩ := hown u hut hu
      rw [hsame, hpdir]
      rcases hs.own u hlt with hzero | hkernel | hmem
      · exact Or.inl hzero
      · exact Or.inr (Or.inl hkernel)
      · exact Or.inr (Or.inr ((hhad u _).mpr (Or.inr hmem)))
  · intro u d hd
    rcases (hhad u d).mp hd with ⟨-, rfl⟩ | hd
    · exact List.mem_cons_self
    · exact List.mem_cons_of_mem _ (hs.made u d hd)
  · intro u v d hu hv
    rcases (hhad u d).mp hu with ⟨hut, hdu⟩ | hold
    · rcases (hhad v d).mp hv with ⟨hvt, -⟩ | hold
      · exact hut.trans hvt.symm
      · exact absurd (hdu ▸ hs.made v d hold) hnotin
    · rcases (hhad v d).mp hv with ⟨-, hdv⟩ | hold'
      · exact absurd (hdv ▸ hs.made u d hold) hnotin
      · exact hs.apart u v d hold hold'

theorem note_of_known
    (hknown : (h.sys.info t).pdir = h.sys.kernelPdir ∨ (h.sys.info t).pdir ∈ h.had t) :
    h.note t = h := by
  unfold History.note
  split
  · rfl
  · rename_i hne
    rw [List.insert_of_mem (hknown.resolve_left hne), update_eq_self]

theorem Sound.known (hs : Sound kernel kpt h dirs) (hruns : h.sys.Runs t) :
    (h.sys.info t).pdir = h.sys.kernelPdir ∨ (h.sys.info t).pdir ∈ h.had t :=
  (hs.own t hruns.1).resolve_left hruns.2

/-- A task replaces its address space, or `sys_exec` fails. -/
theorem Sound.exec {c : Exec.ExecCall} (hs : Sound kernel kpt h dirs) (hruns : h.sys.Runs t)
    (hfits : Exec.Fits h.sys.mm { c with kernelPdir := h.sys.kernelPdir }) :
    ∃ dirs', Sound kernel kpt ({ h with sys := h.sys.sysExec t c }.note t) dirs' := by
  have hspace := Exec.Booted.newSpace_sysExec
    (c := { c with kernelPdir := h.sys.kernelPdir }) hs.booted hfits
  unfold TaskSys.sysExec
  dsimp only
  generalize Exec.sysExec h.sys.mm { c with kernelPdir := h.sys.kernelPdir } = run at hspace
  cases hprogram : run.program with
  | none =>
    have hsound : Sound kernel kpt { h with sys := { h.sys with mm := run.sys } } dirs :=
      hs.of_keeps hspace.keeps rfl (fun u hu => Or.inr (Or.inr ⟨hu, rfl⟩))
    refine ⟨dirs, ?_⟩
    have hsame := note_of_known (h := { h with sys := { h.sys with mm := run.sys } })
      (hs.known hruns)
    rw [hsame]
    exact hsound
  | some q =>
    refine ⟨_, hs.gain hspace.keeps rfl ?_ ?_ ?_⟩
    · rw [TaskSys.info_setInfo_self]
      exact hspace.fresh q hprogram
    · rw [TaskSys.info_setInfo_self]
      exact hspace.owned q hprogram
    · intro u hu hlt
      refine ⟨hlt, ?_⟩
      rw [TaskSys.info_setInfo_of_ne _ _ hu]

end Steps

section Forks

variable {img : Image} {s s' : TaskSys} {parent child : Task} {eip cs eflags : BitVec 32} {fp : Nat}

/-- The slot `child` is new, with the directory `d`; the other tasks are as they were. -/
structure NewTask (s : TaskSys) (child : Task) (d : Nat) (s' : TaskSys) : Prop where
  slot : child.val = s.nextPid
  next : s'.nextPid = s.nextPid + 1
  kernelPdir : s'.kernelPdir = s.kernelPdir
  pdir : (s'.info child).pdir = d
  others : ∀ u, u ≠ child → s'.info u = s.info u

/-- `task_fork` up to the address space. -/
theorem newTask_of_start
    {s1 s2 : TaskSys} (hparent : parent.val < s.nextPid) (halloc : s.taskAlloc = some (child, s1))
    (hstart : s1.forkStart parent child = s2) :
    NewTask s child s.kernelPdir s2 ∧ s2.mm = s.mm ∧ s2.info parent = s.info parent := by
  obtain ⟨-, hchild, -⟩ := taskAlloc_eq_some halloc
  have hne : parent ≠ child := by
    rintro rfl
    omega
  obtain ⟨hmm1, -, hpdir1, hfresh, hother1⟩ := taskAlloc_rest halloc
  obtain ⟨hmm2, -, hpdir2⟩ := forkStart_rest s1 parent child
  obtain ⟨hother2, hchild2⟩ := forkStart_info hne s1
  have hkernel := forkStart_kernel s1 parent child
  rw [hstart] at hmm2 hpdir2 hother2 hchild2 hkernel
  have hothers : ∀ u, u ≠ child → s2.info u = s.info u :=
    fun u hu => (hother2 u hu).trans (hother1 u hu)
  refine ⟨⟨hchild, ?_, hpdir2.trans hpdir1, ?_, hothers⟩, hmm2.trans hmm1, hothers parent hne⟩
  · rw [hkernel, taskAlloc_kernel halloc]
  · rw [hchild2, hfresh]
    rfl

theorem NewTask.finish
    {d : Nat} (h : NewTask s child d s') (img : Image) (mm : State) (parent : Task) (pdir : Nat)
    (eip cs eflags : BitVec 32) (fp : Nat) :
    NewTask s child pdir ({ s' with mm := mm }.finishFork img parent child pdir eip cs eflags fp) :=
  ⟨h.slot, h.next, h.kernelPdir, congrArg TaskInfo.pdir (TaskSys.info_setInfo_self _ _ _),
    fun u hu => (TaskSys.info_setInfo_of_ne _ _ hu).trans (h.others u hu)⟩

/-- What `task_fork` does to the address spaces. -/
inductive ForkSpace (s : TaskSys) (parent : Task) : Option Task → TaskSys → Prop
  | noSlot :
      ForkSpace s parent none s
  | noMemory (child : Task) (s' : TaskSys)
      (hnew : NewTask s child 0 s')
      (hown : (s.info parent).pdir ≠ s.kernelPdir)
      (hclone : mmClonePdir s.mm (s.info parent).pdir = (0, s'.mm)) :
      ForkSpace s parent none s'
  | cloned (child : Task) (d : Nat) (s' : TaskSys)
      (hnew : NewTask s child d s')
      (hown : (s.info parent).pdir ≠ s.kernelPdir)
      (hclone : mmClonePdir s.mm (s.info parent).pdir = (d, s'.mm))
      (hd : d ≠ 0) :
      ForkSpace s parent (some child) s'
  | shared (child : Task) (s' : TaskSys)
      (hnew : NewTask s child (s.info parent).pdir s')
      (hmm : s'.mm = s.mm)
      (hkernel : (s.info parent).isUser = true → (s.info parent).pdir = s.kernelPdir) :
      ForkSpace s parent (some child) s'

theorem ForkEnd.space {r : Option Task} (h : ForkEnd img s parent eip cs eflags fp r s')
    (hparent : parent.val < s.nextPid) :
    ForkSpace s parent r s' := by
  cases h with
  | noSlot hfull => exact .noSlot
  | noMemory child s1 s2 halloc hstart huser hclone =>
    obtain ⟨hnew, hmm, hinfo⟩ := newTask_of_start hparent halloc hstart
    have hown := huser.2
    rw [hinfo, hnew.kernelPdir] at hown
    obtain ⟨c, hout⟩ : ∃ c, mmClonePdir s.mm (s.info parent).pdir = c := ⟨_, rfl⟩
    rw [hmm, hinfo, hout] at hclone ⊢
    refine .noMemory child _ ⟨hnew.slot, hnew.next, hnew.kernelPdir, ?_, ?_⟩ hown ?_
    · rw [TaskSys.info_setInfo_self]
    · intro u hu
      exact (TaskSys.info_setInfo_of_ne _ _ hu).trans (hnew.others u hu)
    · exact hout.trans (Prod.ext hclone rfl)
  | cloned child s1 s2 halloc hstart huser hclone =>
    obtain ⟨hnew, hmm, hinfo⟩ := newTask_of_start hparent halloc hstart
    have hown := huser.2
    rw [hinfo, hnew.kernelPdir] at hown
    obtain ⟨c, hout⟩ : ∃ c, mmClonePdir s.mm (s.info parent).pdir = c := ⟨_, rfl⟩
    rw [hmm, hinfo, hout] at hclone ⊢
    exact .cloned child c.1 _ (hnew.finish img c.2 parent c.1 eip cs eflags fp) hown hout hclone
  | shared child s1 s2 halloc hstart hkernel =>
    obtain ⟨hnew, hmm, hinfo⟩ := newTask_of_start hparent halloc hstart
    rw [hinfo, hnew.kernelPdir] at hkernel
    refine .shared child _ ?_ hmm (fun huser => not_not.mp fun hne => hkernel ⟨huser, hne⟩)
    rw [hinfo]
    exact hnew.finish img s2.mm parent _ eip cs eflags fp

end Forks

section Runs

variable {img : Image} {kernel : Nat → Prop} {kpt : Nat → Nat} {h : History} {dirs : List Nat}
variable {t : Task}

theorem NewTask.old
    {s s' : TaskSys} {child u : Task} {d : Nat} (hnew : NewTask s child d s') (hne : u ≠ child)
    (hlt : u.val < s'.nextPid) :
    u.val < s.nextPid ∧ (s'.info u).pdir = (s.info u).pdir := by
  have hslot := hnew.slot
  have hval : u.val ≠ child.val := fun heq => hne (Fin.ext heq)
  rw [hnew.next] at hlt
  exact ⟨by omega, by rw [hnew.others u hne]⟩

/-- The child gets a directory of its own, or shares that of the kernel, or there is none. -/
theorem Sound.fork
    (hs : Sound kernel kpt h dirs) (hruns : h.sys.Runs t) (huser : (h.sys.info t).isUser = true)
    (eip cs eflags : BitVec 32) (fp : Nat) :
    ∃ dirs', Sound kernel kpt (h.call img t (.fork eip cs eflags fp)) dirs' := by
  have hs0 : Sound kernel kpt { h with sys := { h.sys with current := some t } } dirs :=
    hs.of_keeps ⟨fun _ hf => hf, fun _ _ => rfl⟩ rfl (fun u hu => Or.inr (Or.inr ⟨hu, rfl⟩))
  have hspace := (taskFork_end img (s := { h.sys with current := some t }) rfl eip cs eflags
    fp).space hruns.1
  have hdir : (h.sys.info t).pdir ≠ h.sys.kernelPdir → (h.sys.info t).pdir ∈ dirs :=
    fun hne => hs.made t _ ((hs.known hruns).resolve_left hne)
  unfold History.call
  dsimp only
  generalize { h.sys with current := some t }.taskFork img eip cs eflags fp = out at hspace
  obtain ⟨r, s'⟩ := out
  cases hspace with
  | noSlot => exact ⟨dirs, hs0⟩
  | noMemory child s' hnew hown hclone =>
    have hkeep : Keeps h.sys.mm s'.mm := by
      have hspec := mmClonePdir_spec hs.owned (hdir hown)
      rw [show mmClonePdir h.sys.mm (h.sys.info t).pdir = (0, s'.mm) from hclone] at hspec
      rcases hspec with ⟨-, hsame⟩ | ⟨hne, -⟩
      · exact ⟨fun f hf => (hsame.used f).trans hf, hsame.mem⟩
      · exact absurd rfl hne
    refine ⟨dirs, hs.of_keeps hkeep hnew.kernelPdir ?_⟩
    intro u hu
    by_cases hchild : u = child
    · exact Or.inl (hchild ▸ hnew.pdir)
    · exact Or.inr (Or.inr (hnew.old hchild hu))
  | cloned child d s' hnew hown hclone hd =>
    have hspec := mmClonePdir_spec hs.owned (hdir hown)
    rw [show mmClonePdir h.sys.mm (h.sys.info t).pdir = (d, s'.mm) from hclone] at hspec
    rcases hspec with ⟨hzero, -⟩ | ⟨-, -, hfree, hdirClone⟩
    · exact absurd hzero hd
    · refine ⟨_, hs.gain hdirClone.grown.keeps hnew.kernelPdir ?_ ?_
        (fun u hu hlt => hnew.old hu hlt)⟩
      · rw [hnew.pdir]
        exact hfree
      · rw [hnew.pdir]
        exact hdirClone.owned hs.owned.zeroUsed
  | shared child s' hnew hmm hkernel =>
    have hpdir : (s'.info child).pdir = s'.kernelPdir :=
      (hnew.pdir.trans (hkernel huser)).trans hnew.kernelPdir.symm
    refine ⟨dirs, ?_⟩
    dsimp only
    rw [note_of_known (h := { h with sys := s' }) (Or.inl hpdir)]
    refine hs.of_keeps ⟨fun f hf => hmm ▸ hf, fun f _ => by rw [hmm]⟩ hnew.kernelPdir ?_
    intro u hu
    by_cases hchild : u = child
    · exact Or.inr (Or.inl (hchild ▸ hpdir.trans hnew.kernelPdir))
    · exact Or.inr (Or.inr (hnew.old hchild hu))

theorem Sound.of_table
    (hs : Sound kernel kpt h dirs) (k : Kernel) (hnext : k.nextPid = h.sys.nextPid) :
    Sound kernel kpt { h with sys := { h.sys with toKernel := k } } dirs :=
  hs.of_keeps ⟨fun _ hf => hf, fun _ _ => rfl⟩ rfl
    (fun _ hu => Or.inr (Or.inr ⟨hnext ▸ hu, rfl⟩))

theorem Sound.step
    (img : Image) {e : Task × Call} (hs : Sound kernel kpt h dirs) (hfits : ExecFits h e) :
    ∃ dirs', Sound kernel kpt (h.step img e) dirs' := by
  obtain ⟨t, call⟩ := e
  unfold History.step
  split
  · rename_i hmay
    cases call with
    | fork eip cs eflags fp => exact hs.fork hmay.1 hmay.2 eip cs eflags fp
    | exec c => exact hs.exec hmay.1 hfits
    | exit status => exact ⟨dirs, hs.of_table _ (markExited_roused _ t).nextPid_eq⟩
    | waitpid pid =>
      unfold History.call TaskSys.taskWaitpid
      dsimp only
      split
      · exact ⟨dirs, hs⟩
      · exact ⟨dirs, hs.of_table _ rfl⟩
  · exact ⟨dirs, hs⟩

theorem Sound.onlyThrough {d : Nat} (hs : Sound kernel kpt h dirs) (hd : d ∈ h.had t) :
    OnlyThrough h t d := by
  have hmem := hs.made t d hd
  have hlive : ∀ d' ∈ dirs, ∀ r : Ref, r.Live h.sys.mm [d'] → r.Live h.sys.mm dirs := by
    intro d' hd' r hr
    cases r with
    | table x i =>
      obtain ⟨hx, hrest⟩ := hr
      exact ⟨List.mem_singleton.mp hx ▸ hd', hrest⟩
    | page x i j =>
      obtain ⟨⟨hx, hrest⟩, hpage⟩ := hr
      exact ⟨⟨List.mem_singleton.mp hx ▸ hd', hrest⟩, hpage⟩
  have hkernel : ¬ Reaches h.sys.mm h.sys.kernelPdir d := by
    rintro (rfl | ⟨r, hr, -⟩)
    · exact hs.kernelDir hmem
    · have htable : ∃ i, (Ref.table h.sys.kernelPdir i).Live h.sys.mm [h.sys.kernelPdir] := by
        cases r with
        | table x i => exact ⟨i, List.mem_singleton.mp hr.1 ▸ hr⟩
        | page x i j => exact ⟨i, List.mem_singleton.mp hr.1.1 ▸ hr.1⟩
      obtain ⟨i, -, hlo, hhi, hpresent⟩ := htable
      rw [hs.kernelEmpty i hlo hhi] at hpresent
      cases hpresent
  refine ⟨⟨d, hd, Or.inl rfl⟩, hkernel, ?_⟩
  intro u hu hlt hne
  rcases (hs.own u hlt).resolve_left hne with hpdir | hpdir
  · rw [hpdir]
    exact hkernel
  · rintro (heq | ⟨r, hr, hframe⟩)
    · exact hu (hs.apart u t d (heq ▸ hpdir) hd)
    · exact hs.owned.refDir r (hlive _ (hs.made u _ hpdir) r hr) (hframe ▸ hmem)

/-- Nothing is given back, so a call does what it should only if there is nothing to give. -/
theorem Sound.reclaims_iff (hs : Sound kernel kpt h dirs) (e : Task × Call) :
    Reclaims img h e ↔ NothingToReclaim h e := by
  obtain ⟨t, call⟩ := e
  refine imp_congr_right fun hmay => ?_
  cases call with
  | fork eip cs eflags fp => rw [Ne, taskAlloc_eq_none, Nat.not_le]
  | exec c => exact Iff.rfl
  | exit status => exact Iff.rfl
  | waitpid pid =>
    have hmm : (h.step img (t, .waitpid pid)).sys.mm = h.sys.mm := by
      unfold History.step
      rw [if_pos hmay]
      unfold History.call TaskSys.taskWaitpid
      dsimp only
      split
      · rfl
      · rfl
    refine forall₂_congr fun child _ => ?_
    rw [hmm]
    constructor
    · intro hfree
      by_contra hhad
      obtain ⟨d, hd⟩ := List.exists_mem_of_ne_nil _ hhad
      have hused := hs.owned.dirUsed d (hs.made child d hd)
      rw [hfree d (hs.onlyThrough hd)] at hused
      cases hused
    · intro hnil f honly
      obtain ⟨d, hd, -⟩ := honly.reached
      rw [hnil] at hd
      cases hd

/--
In a run in which forks find a slot and no child with a directory of its own is returned by
`task_waitpid`, `task_alloc` never fails and what was reached only through a child is free.
As long as the files of exec fit, these are the only runs of which that is true.
-/
theorem tasks_reclaimed_iff
    (img : Image) (hs : Sound kernel kpt h dirs) (es : List (Task × Call)) :
    (Run.Allowed (History.step img) NothingToReclaim h es →
        Run.Allowed (History.step img) (Reclaims img) h es) ∧
      (Run.Allowed (History.step img) ExecFits h es →
        (Run.Allowed (History.step img) (Reclaims img) h es ↔
          Run.Allowed (History.step img) NothingToReclaim h es)) := by
  refine ⟨fun hok => hok.mono ?_, fun hfits => ?_⟩
  · intro h e hnothing hmay
    have hcase := hnothing hmay
    obtain ⟨t, call⟩ := e
    cases call with
    | fork eip cs eflags fp =>
      exact fun hnone => absurd (taskAlloc_eq_none.mp hnone) (Nat.not_le.mpr hcase)
    | exec c => trivial
    | exit status => trivial
    | waitpid pid =>
      intro child hchild f honly
      obtain ⟨d, hd, -⟩ := honly.reached
      rw [hcase child hchild] at hd
      cases hd
  · refine hfits.congr (I := fun h => ∃ dirs, Sound kernel kpt h dirs) ⟨dirs, hs⟩ ?_ ?_
    · rintro h e hfits - ⟨dirs, hs⟩
      exact hs.step img hfits
    · rintro h e - ⟨dirs, hs⟩
      exact hs.reclaims_iff e

end Runs

/-- Init with its directory in frame 6, and the waiter with the directory of the kernel. -/
def initAndWaiter : History where
  sys :=
    { initSys { bootedSpace with frameBitmap := update (fun _ => 0) 0 0x7F } 2 with
      kernelPdir := 5
      info := fun t => if t = 0 then userInfo 6 else { userInfo 5 with isUser := false } }
  had := fun t => if t = 0 then [6] else []

theorem initAndWaiter_sound :
    Sound (· < 6) (· + 1) initAndWaiter [6] := by
  have hused : ∀ f, f < 7 → bitmapTest initAndWaiter.sys.mm f = true := by decide
  have hstart : MmStart (· < 6) initAndWaiter.sys.mm [6] := by
    refine ⟨by decide, fun f hf => hused f (by omega), ?_, fun d hd i _ _ => ?_⟩
    · intro d hd
      exact hused d (by rw [List.mem_singleton.mp hd]; decide)
    · rw [List.mem_singleton.mp hd]
      exact present_zero
  refine ⟨hstart.owned, ⟨hused 0 (by decide), hused 5 (by decide), fun i hi => hused _ (by omega),
    bootedSpace_kernelHalf.lt, bootedSpace_kernelHalf.entry 5 (by decide),
    bootedSpace_kernelHalf.ident⟩, by decide, bootedSpace_start.empty 5 (by decide), ?_, ?_, ?_⟩
  · intro t _
    by_cases ht : t = 0
    · exact Or.inr (Or.inr (by simp [initAndWaiter, ht, userInfo]))
    · exact Or.inr (Or.inl (by simp [initAndWaiter, ht, userInfo]))
  · intro t d hd
    by_cases ht : t = 0
    · simpa [initAndWaiter, ht] using hd
    · simp [initAndWaiter, ht] at hd
  · intro t u d ht hu
    have hzero : ∀ t, d ∈ initAndWaiter.had t → t = 0 := by
      intro t ht
      by_contra hne
      simp [initAndWaiter, hne] at ht
    rw [hzero t ht, hzero u hu]

/-- Init forks and exits. -/
theorem tasks_reclaimed_iff_unwaited :
    Run.Allowed (History.step smallImage) (Reclaims smallImage) initAndWaiter
      [(0, .fork 0#32 0#32 0#32 0), (0, .exit 1)] :=
  (tasks_reclaimed_iff smallImage initAndWaiter_sound _).1
    ⟨fun _ => by decide, fun _ => trivial, trivial⟩

/-- Init forks and the child exits. -/
def childExited : History :=
  [(0, Call.fork 0#32 0#32 0#32 0), (2, Call.exit 0)].foldl (History.step smallImage) initAndWaiter

/-- Then `task_waitpid` returns the child, and its directory is reached through it alone and
still marked used. -/
theorem waited_child_leaks :
    childExited.sys.unreaped = 3 ∧ (childExited.sys.taskWaitpid 0 (-1)).1 = some 2 ∧
      OnlyThrough childExited 2 7 ∧
      bitmapTest (childExited.step smallImage (0, .waitpid (-1))).sys.mm 7 = true ∧
      ¬ Reclaims smallImage childExited (0, .waitpid (-1)) := by
  have hrun : childExited.sys.unreaped = 3 ∧ childExited.sys.May 0 (.waitpid (-1)) ∧
      (childExited.sys.taskWaitpid 0 (-1)).1 = some 2 ∧ childExited.had 2 = [7] ∧
      bitmapTest (childExited.step smallImage (0, .waitpid (-1))).sys.mm 7 = true := by
    decide +kernel
  obtain ⟨hcount, hmay, hchild, hhad, hused⟩ := hrun
  obtain ⟨dirs1, hs1⟩ := initAndWaiter_sound.step smallImage
    (e := (0, .fork 0#32 0#32 0#32 0)) trivial
  obtain ⟨dirs2, hs2⟩ := hs1.step smallImage (e := (2, .exit 0)) trivial
  have hsound : Sound (· < 6) (· + 1) childExited dirs2 := by
    unfold childExited
    rw [List.foldl_cons, List.foldl_cons, List.foldl_nil]
    exact hs2
  have honly := hsound.onlyThrough (hhad ▸ List.mem_singleton_self 7)
  refine ⟨hcount, hchild, honly, hused, ?_⟩
  intro hreclaims
  have hfree := hreclaims hmay 2 hchild 7 honly
  rw [hused] at hfree
  cases hfree

end Tasks
end Homunculos
