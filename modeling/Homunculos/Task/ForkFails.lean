import Homunculos.Task.Fork

/-!
# A fork that fails

`task_fork` takes a slot of the task table and a reference to each open file of the parent
before it clones the address space, and gives neither back when there is no memory.

On the tasks alone it is what `Sched.Kernel.taskFork` says.
-/

namespace Homunculos
namespace Tasks

open Bytes Mm Sched Function

/-- What `task_waitpid` of a task finds: the child and its status. -/
def TaskSys.waitView (s : TaskSys) (parentPid targetPid : Int) : Option (Task × Int) :=
  (s.findChildExitedPid parentPid targetPid).map (fun t => (t, s.exitStatus t))

/-- What `signal_send` of `sys_kill` finds: the task and its pending signals. -/
def TaskSys.killView (s : TaskSys) (pid : Int) : Option (Task × BitVec 32) :=
  (s.findTask (fun i => decide ((i.val : Int) = pid) && decide (s.state i ≠ .exited))).map
    (fun t => (t, s.pendingSignals t))

/-- What a call that fails should leave as it was. -/
structure Unchanged (s s' : TaskSys) : Prop where
  refcount : ∀ f, (s'.files f).refcount = (s.files f).refcount
  waitpid : ∀ parentPid targetPid, s'.waitView parentPid targetPid = s.waitView parentPid targetPid
  kill : ∀ pid, s'.killView pid = s.killView pid
  queue : ∀ l, Queue s'.toScheduler l ↔ Queue s.toScheduler l
  frames : s'.mm.frameBitmap = s.mm.frameBitmap

theorem Unchanged.refl (s : TaskSys) :
    Unchanged s s :=
  ⟨fun _ => rfl, fun _ _ => rfl, fun _ => rfl, fun _ => Iff.rfl, rfl⟩

section Parts

variable {s s' : TaskSys} {parent child t : Task}

theorem taskAlloc_eq_none :
    s.taskAlloc = none ↔ maxTasks ≤ s.nextPid := by
  unfold TaskSys.taskAlloc Kernel.taskAlloc
  by_cases hlt : s.nextPid < maxTasks
  · simp [hlt]
  · rw [dif_neg hlt]
    simp [Nat.not_lt.mp hlt]

theorem taskAlloc_eq_some (h : s.taskAlloc = some (t, s')) :
    s.toKernel.taskAlloc = some (t, s'.toKernel) ∧ t.val = s.nextPid ∧
      s' = { s with toKernel := s'.toKernel }.setInfo t (s.freshInfo t) := by
  unfold TaskSys.taskAlloc at h
  cases halloc : s.toKernel.taskAlloc with
  | none =>
    rw [halloc] at h
    cases h
  | some x =>
    rw [halloc] at h
    cases h
    refine ⟨rfl, ?_, rfl⟩
    unfold Kernel.taskAlloc at halloc
    split at halloc
    · cases halloc
      rfl
    · cases halloc

/-- What `task_alloc` does to the task table. -/
theorem taskAlloc_kernel (h : s.taskAlloc = some (t, s')) :
    s'.toKernel =
      { s.toKernel with
        parentPid := update s.parentPid t (-1)
        exitStatus := update s.exitStatus t 0
        state := update s.state t .ready
        next := update s.next t none
        pendingSignals := update s.pendingSignals t 0#32
        signalMask := update s.signalMask t 0#32
        nextPid := s.nextPid + 1 } := by
  have hkalloc := (taskAlloc_eq_some h).1
  unfold Kernel.taskAlloc at hkalloc
  split at hkalloc
  · obtain ⟨rfl, hkernel⟩ := Prod.mk.inj (Option.some.inj hkalloc)
    exact hkernel.symm
  · cases hkalloc

theorem forkFds_keeps (l : List Vfs.Fd) (s : TaskSys) :
    (l.foldl (TaskSys.forkFd parent child) s).toKernel = s.toKernel ∧
      (l.foldl (TaskSys.forkFd parent child) s).mm = s.mm ∧
      (l.foldl (TaskSys.forkFd parent child) s).kmem = s.kmem ∧
      (l.foldl (TaskSys.forkFd parent child) s).kernelPdir = s.kernelPdir := by
  induction l generalizing s with
  | nil => exact ⟨rfl, rfl, rfl, rfl⟩
  | cons i l ih =>
    have hone : (TaskSys.forkFd parent child s i).toKernel = s.toKernel ∧
        (TaskSys.forkFd parent child s i).mm = s.mm ∧
        (TaskSys.forkFd parent child s i).kmem = s.kmem ∧
        (TaskSys.forkFd parent child s i).kernelPdir = s.kernelPdir := by
      unfold TaskSys.forkFd
      split
      · exact ⟨rfl, rfl, rfl, rfl⟩
      · exact ⟨rfl, rfl, rfl, rfl⟩
    obtain ⟨hkernel, hmm, hkmem, hpdir⟩ := ih (TaskSys.forkFd parent child s i)
    exact ⟨hkernel.trans hone.1, hmm.trans hone.2.1, hkmem.trans hone.2.2.1, hpdir.trans hone.2.2.2⟩

theorem forkStart_kernel (s : TaskSys) (parent child : Task) :
    (s.forkStart parent child).toKernel =
      { s.toKernel with parentPid := update s.parentPid child parent.val } := by
  unfold TaskSys.forkStart
  dsimp only
  rw [(forkFds_keeps _ _).1]
  rfl

theorem forkStart_rest (s : TaskSys) (parent child : Task) :
    (s.forkStart parent child).mm = s.mm ∧ (s.forkStart parent child).kmem = s.kmem ∧
      (s.forkStart parent child).kernelPdir = s.kernelPdir :=
  (forkFds_keeps (List.finRange 16) (s.setInfo child { s.info child with
    name := (s.info parent).name.strncpy })).2

theorem forkFds_info (hne : parent ≠ child) (l : List Vfs.Fd) (s : TaskSys) :
    (∀ t, t ≠ child → (l.foldl (TaskSys.forkFd parent child) s).info t = s.info t) ∧
      (l.foldl (TaskSys.forkFd parent child) s).info child =
        { s.info child with
          fdTable := fun i =>
            if i ∈ l then (s.info parent).fdTable i else (s.info child).fdTable i
          fdFlags := fun i =>
            if i ∈ l then (s.info parent).fdFlags i else (s.info child).fdFlags i } := by
  induction l generalizing s with
  | nil => exact ⟨fun _ _ => rfl, rfl⟩
  | cons i l ih =>
    have hother : ∀ t, t ≠ child → (TaskSys.forkFd parent child s i).info t = s.info t := by
      intro t ht
      unfold TaskSys.forkFd
      split
      · exact TaskSys.info_setInfo_of_ne s _ ht
      · exact TaskSys.info_setInfo_of_ne s _ ht
    have hchild : (TaskSys.forkFd parent child s i).info child =
        { s.info child with
          fdTable := update (s.info child).fdTable i ((s.info parent).fdTable i)
          fdFlags := update (s.info child).fdFlags i ((s.info parent).fdFlags i) } := by
      unfold TaskSys.forkFd
      split
      · exact TaskSys.info_setInfo_self s child _
      · exact TaskSys.info_setInfo_self s child _
    obtain ⟨hrest, hdone⟩ := ih (TaskSys.forkFd parent child s i)
    rw [List.foldl_cons]
    refine ⟨fun t ht => (hrest t ht).trans (hother t ht), ?_⟩
    rw [hdone, hchild, hother parent hne]
    simp only [TaskInfo.mk.injEq, true_and, and_true]
    refine ⟨?_, ?_⟩
    · funext j
      by_cases hj : j = i
      · subst hj
        simp
      · simp [hj]
    · funext j
      by_cases hj : j = i
      · subst hj
        simp
      · simp [hj]

theorem forkStart_info (hne : parent ≠ child) (s : TaskSys) :
    (∀ t, t ≠ child → (s.forkStart parent child).info t = s.info t) ∧
      (s.forkStart parent child).info child =
        { s.info child with
          name := (s.info parent).name
          fdTable := (s.info parent).fdTable
          fdFlags := (s.info parent).fdFlags } := by
  obtain ⟨hother, hchild⟩ := forkFds_info hne (List.finRange 16)
    (s.setInfo child { s.info child with name := (s.info parent).name.strncpy })
  refine ⟨?_, ?_⟩
  · intro t ht
    exact (hother t ht).trans (TaskSys.info_setInfo_of_ne s _ ht)
  · refine hchild.trans ?_
    rw [TaskSys.info_setInfo_of_ne s _ hne, CharArray.strncpy_eq]
    simp

/-- `task_alloc` leaves the other tasks. -/
theorem taskAlloc_rest (h : s.taskAlloc = some (t, s')) :
    s'.mm = s.mm ∧ s'.kmem = s.kmem ∧ s'.kernelPdir = s.kernelPdir ∧
      s'.info t = s.freshInfo t ∧ ∀ u, u ≠ t → s'.info u = s.info u := by
  obtain ⟨-, -, hs'⟩ := taskAlloc_eq_some h
  rw [hs']
  refine ⟨rfl, rfl, rfl, TaskSys.info_setInfo_self _ t _, ?_⟩
  intro u hu
  exact TaskSys.info_setInfo_of_ne _ _ hu

end Parts

section Forks

variable {img : Image} {s : TaskSys} {parent child : Task} {eip cs eflags : BitVec 32} {fp : Nat}

/-- How `task_fork` ends: without a slot, without memory, or with a child. -/
inductive ForkEnd (img : Image) (s : TaskSys) (parent : Task) (eip cs eflags : BitVec 32)
    (fp : Nat) : Option Task → TaskSys → Prop
  | noSlot
      (hfull : maxTasks ≤ s.nextPid) :
      ForkEnd img s parent eip cs eflags fp none s
  | noMemory
      (child : Task) (s₁ s₂ : TaskSys)
      (halloc : s.taskAlloc = some (child, s₁))
      (hstart : s₁.forkStart parent child = s₂)
      (huser : (s₂.info parent).isUser = true ∧ (s₂.info parent).pdir ≠ s₂.kernelPdir)
      (hclone : (mmClonePdir s₂.mm (s₂.info parent).pdir).1 = 0) :
      ForkEnd img s parent eip cs eflags fp none
        ({ s₂ with mm := (mmClonePdir s₂.mm (s₂.info parent).pdir).2 }.setInfo child
          { s₂.info child with pdir := 0 })
  | cloned
      (child : Task) (s₁ s₂ : TaskSys)
      (halloc : s.taskAlloc = some (child, s₁))
      (hstart : s₁.forkStart parent child = s₂)
      (huser : (s₂.info parent).isUser = true ∧ (s₂.info parent).pdir ≠ s₂.kernelPdir)
      (hclone : (mmClonePdir s₂.mm (s₂.info parent).pdir).1 ≠ 0) :
      ForkEnd img s parent eip cs eflags fp (some child)
        ({ s₂ with mm := (mmClonePdir s₂.mm (s₂.info parent).pdir).2 }.finishFork img parent child
          (mmClonePdir s₂.mm (s₂.info parent).pdir).1 eip cs eflags fp)
  | shared
      (child : Task) (s₁ s₂ : TaskSys)
      (halloc : s.taskAlloc = some (child, s₁))
      (hstart : s₁.forkStart parent child = s₂)
      (hkernel : ¬ ((s₂.info parent).isUser = true ∧ (s₂.info parent).pdir ≠ s₂.kernelPdir)) :
      ForkEnd img s parent eip cs eflags fp (some child)
        (s₂.finishFork img parent child (s₂.info parent).pdir eip cs eflags fp)

theorem taskFork_end
    (img : Image) (hcurrent : s.current = some parent) (eip cs eflags : BitVec 32) (fp : Nat) :
    ForkEnd img s parent eip cs eflags fp (s.taskFork img eip cs eflags fp).1
      (s.taskFork img eip cs eflags fp).2 := by
  unfold TaskSys.taskFork
  rw [hcurrent]
  cases halloc : s.taskAlloc with
  | none => exact .noSlot (taskAlloc_eq_none.mp halloc)
  | some x =>
    obtain ⟨child, s₁⟩ := x
    dsimp only
    split
    next huser =>
      split
      next hclone =>
        exact .noMemory child s₁ _ halloc rfl huser hclone
      next hclone =>
        exact .cloned child s₁ _ halloc rfl huser hclone
    next hkernel =>
      exact .shared child s₁ _ halloc rfl hkernel

theorem taskFork_idle (hcurrent : s.current = none) :
    s.taskFork img eip cs eflags fp = (none, s) := by
  unfold TaskSys.taskFork
  rw [hcurrent]

/-- On the task table a fork is `Kernel.taskFork`. -/
theorem taskFork_kernel
    (img : Image) (hcurrent : s.current = some parent) (eip cs eflags : BitVec 32) (fp : Nat) :
    (s.taskFork img eip cs eflags fp).2.toKernel =
      s.toKernel.taskFork parent (s.taskFork img eip cs eflags fp).1.isSome := by
  have hends := taskFork_end img hcurrent eip cs eflags fp
  generalize s.taskFork img eip cs eflags fp = r at hends
  obtain ⟨r1, r2⟩ := r
  dsimp only at hends ⊢
  unfold Kernel.taskFork
  cases hends with
  | noSlot hfull =>
    unfold Kernel.taskAlloc
    rw [dif_neg (Nat.not_lt.mpr hfull)]
  | noMemory child s₁ s₂ halloc hstart =>
    rw [(taskAlloc_eq_some halloc).1]
    have hkernel := forkStart_kernel s₁ parent child
    rw [hstart] at hkernel
    exact hkernel
  | cloned child s₁ s₂ halloc hstart =>
    rw [(taskAlloc_eq_some halloc).1]
    have hkernel := forkStart_kernel s₁ parent child
    rw [hstart] at hkernel
    rw [hkernel]
    rfl
  | shared child s₁ s₂ halloc hstart =>
    rw [(taskAlloc_eq_some halloc).1]
    have hkernel := forkStart_kernel s₁ parent child
    rw [hstart] at hkernel
    exact congrArg (fun k : Kernel =>
      { k with toScheduler := schedulerAddTask k.toScheduler (some child) }) hkernel

/-- Init forks. -/
theorem taskFork_kernel_init :
    ((initSys oneDirectory 2).taskFork smallImage 0#32 0#32 0#32 0).2.toKernel =
      (initSys oneDirectory 2).toKernel.taskFork 0
        ((initSys oneDirectory 2).taskFork smallImage 0#32 0#32 0#32 0).1.isSome :=
  taskFork_kernel smallImage rfl 0#32 0#32 0#32 0

end Forks

section Failures

variable {img : Image} {s s' : TaskSys} {parent child t : Task}

theorem killView_fresh (s : TaskSys) :
    s.killView s.nextPid = none := by
  unfold TaskSys.killView Kernel.findTask
  rw [Option.map_eq_none_iff, List.find?_eq_none]
  intro i _
  simp only [Bool.and_eq_true, decide_eq_true_eq, not_and]
  intro hlt heq
  omega

theorem killView_live (hlt : t.val < s.nextPid) (hstate : s.state t ≠ .exited) :
    s.killView t.val ≠ none := by
  unfold TaskSys.killView Kernel.findTask
  rw [Ne, Option.map_eq_none_iff, List.find?_eq_none]
  intro hnone
  have ht := hnone t (List.mem_finRange t)
  simp [hlt, hstate] at ht

theorem killView_of_alloc (parent : Task) (halloc : s.taskAlloc = some (child, s')) {s₂ : TaskSys}
    (hkernel : s₂.toKernel = { s'.toKernel with
      parentPid := update s'.parentPid child parent.val }) :
    s₂.killView s.nextPid ≠ none := by
  obtain ⟨-, hchild, -⟩ := taskAlloc_eq_some halloc
  have hfields : s'.nextPid = s.nextPid + 1 ∧ s'.state child = .ready := by
    rw [taskAlloc_kernel halloc]
    exact ⟨rfl, update_self _ _ _⟩
  have hnext : s₂.nextPid = s.nextPid + 1 := by
    rw [hkernel]
    exact hfields.1
  have hstate : s₂.state child = .ready := by
    rw [hkernel]
    exact hfields.2
  rw [← hchild]
  exact killView_live (by omega) (by rw [hstate]; decide)

theorem sysFork_fails {fp : Nat} (hfail : (s.sysFork img fp).1 = -1) :
    ∃ eip cs eflags, s.taskFork img eip cs eflags fp = (none, (s.sysFork img fp).2) := by
  unfold TaskSys.sysFork at hfail ⊢
  dsimp only at hfail ⊢
  generalize hout : s.taskFork img (BitVec.ofNat 32 (u32 s.kmem (fp + 32)))
    (BitVec.ofNat 32 (u32 s.kmem (fp + 36))) (BitVec.ofNat 32 (u32 s.kmem (fp + 40))) fp = r
    at hfail ⊢
  obtain ⟨child, s'⟩ := r
  cases child with
  | none => exact ⟨_, _, _, hout⟩
  | some child =>
    dsimp only at hfail
    omega

/--
A fork that fails leaves the reference counts, what `task_waitpid` and `sys_kill` find, the
run queue and the frames alone exactly if it fails for want of a slot, or of a parent.
-/
theorem failed_fork_unchanged_iff
    (img : Image) (s : TaskSys) (fp : Nat) (hfail : (s.sysFork img fp).1 = -1) :
    Unchanged s (s.sysFork img fp).2 ↔ s.current = none ∨ maxTasks ≤ s.nextPid := by
  obtain ⟨eip, cs, eflags, hfork⟩ := sysFork_fails hfail
  cases hcurrent : s.current with
  | none =>
    rw [taskFork_idle hcurrent] at hfork
    rw [← (Prod.mk.inj hfork).2]
    exact iff_of_true (Unchanged.refl s) (Or.inl rfl)
  | some parent =>
    have hends := taskFork_end img hcurrent eip cs eflags fp
    rw [hfork] at hends
    generalize (s.sysFork img fp).2 = s' at hends
    cases hends with
    | noSlot hfull => exact iff_of_true (Unchanged.refl s) (Or.inr hfull)
    | noMemory child s₁ s₂ halloc hstart huser hclone =>
      refine iff_of_false ?_ ?_
      · intro hsame
        have hkill := hsame.kill s.nextPid
        rw [killView_fresh] at hkill
        refine killView_of_alloc parent halloc ?_ hkill
        have hkernel := forkStart_kernel s₁ parent child
        rw [hstart] at hkernel
        exact hkernel
      · rintro (hnone | hfull)
        · cases hnone
        · rw [taskAlloc_eq_none.mpr hfull] at halloc
          cases halloc

end Failures

/-- With the table full the fork fails and nothing has changed. -/
theorem failed_fork_unchanged_iff_full :
    ((initSys oneDirectory 256).sysFork smallImage 0).1 = -1 ∧
      Unchanged (initSys oneDirectory 256) ((initSys oneDirectory 256).sysFork smallImage 0).2 := by
  have hfail : ((initSys oneDirectory 256).sysFork smallImage 0).1 = -1 := by decide +kernel
  exact ⟨hfail, (failed_fork_unchanged_iff _ _ _ hfail).mpr (Or.inr (by decide))⟩

/-- Every frame is in use. -/
def noFrames : State where
  frameBitmap := fun _ => BitVec.allOnes 32
  mem := fun _ _ => 0#32

/-- Without a frame the fork fails, and slot 2 is now a task that `sys_kill` finds. -/
theorem failed_fork_takes_slot :
    ((initSys noFrames 2).sysFork smallImage 0).1 = -1 ∧
      (initSys noFrames 2).killView 2 = none ∧
      ((initSys noFrames 2).sysFork smallImage 0).2.killView 2 = some (2, 0#32) ∧
      ¬ Unchanged (initSys noFrames 2) ((initSys noFrames 2).sysFork smallImage 0).2 := by
  have hbefore : (initSys noFrames 2).killView 2 = none := by decide +kernel
  have hafter : ((initSys noFrames 2).sysFork smallImage 0).2.killView 2 = some (2, 0#32) := by
    decide +kernel
  refine ⟨by decide +kernel, hbefore, hafter, ?_⟩
  intro hsame
  have hkill := hsame.kill 2
  rw [hafter] at hkill
  cases hkill

end Tasks
end Homunculos
