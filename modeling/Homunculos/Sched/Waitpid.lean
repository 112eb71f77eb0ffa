import Homunculos.Sched.Effects

/-!
# Children are returned once and no wake-up is lost

The invariant of `task_waitpid`: a child that was returned has lost its parent
for good, every other task still has the parent that made it, and a task that
is BLOCKED inside `task_waitpid` has no child that it waits for.  The last part
holds because the search for a child and `task_block` are one step of the
kernel, and `task_exit` wakes the parent in the step that makes the child
EXITED.

`sys_nanosleep` is left out here: it enables interrupts inside the kernel, so
that the calls of other tasks are no longer one step each.
-/

namespace Homunculos
namespace Sched

open Function

open TaskState (ready blocked exited)

/-- The event is a call of `sys_nanosleep`. -/
def Event.sleeps : Event → Bool
  | .nanosleep _ _ => true
  | _ => false

/-- `task_waitpid (pid)` looks for the child `c`. -/
def Wants (pid : Int) (c : Task) : Prop :=
  pid ≤ 0 ∨ (c.val : Int) = pid

/-- A child that `task_waitpid` has returned. -/
def Machine.wasReturned (m : Machine) (c : Task) : Prop :=
  ∃ r ∈ m.returned, r.child = c

/-- What a successful `task_waitpid` says about the child. -/
structure Reaped.Right (m : Machine) (r : Reaped) : Prop where
  caller_eq : (r.caller.val : Int) = m.madeBy r.child
  target_eq : 0 < r.target → (r.child.val : Int) = r.target
  status_eq : r.status = m.given r.child
  exited : m.sys.state r.child = exited
  stopped : m.sys.current ≠ some r.child

theorem Reaped.Right.step {m m' : Machine} {r : Reaped} {w x : Prop} (h : r.Right m)
    (heffect : Effect m.sys.current w x m.sys m'.sys) (hlt : r.child.val < m.sys.nextPid) :
    r.Right { m with sys := m'.sys } := by
  have hstill : m'.sys.state r.child = .exited :=
    heffect.exited_keep r.child hlt h.stopped h.exited
  refine ⟨h.caller_eq, h.target_eq, h.status_eq, hstill, ?_⟩
  rcases heffect.current_cases with hsame | ⟨u, hu, -, hlive⟩
  · exact fun heq => h.stopped (hsame.symm.trans heq)
  · intro heq
    have hchild : u = r.child := Option.some.inj (hu.symm.trans heq)
    exact hlive (hchild ▸ hstill)

structure WaitInv (m : Machine) : Prop where
  parent_returned : ∀ c, m.wasReturned c → m.sys.parentPid c = -1
  parent_eq : ∀ c, ¬ m.wasReturned c → m.sys.parentPid c = m.madeBy c
  once : (m.returned.map Reaped.child).Nodup
  right : ∀ r ∈ m.returned, r.Right m
  status_eq : ∀ c, m.sys.exitStatus c = m.given c
  not_given : ∀ c, m.sys.nextPid ≤ c.val → m.given c = 0
  madeBy_ne : ∀ c, m.madeBy c ≠ c.val
  exited_lt : ∀ c, m.sys.state c = exited → c.val < m.sys.nextPid
  awake : ∀ p, m.call p ≠ some .nanosleep
  caller_lt : ∀ p c, m.call p = some c → p.val < m.sys.nextPid
  waiting : ∀ p pid options, m.call p = some (.waitpid pid options) → m.sys.state p = blocked →
    ∀ c, m.sys.parentPid c = p.val → m.sys.state c = exited → ¬ Wants pid c

theorem boot_waitInv :
    WaitInv bootMachine where
  parent_returned := by
    rintro c ⟨r, hr, -⟩
    cases hr
  parent_eq := fun _ _ => rfl
  once := List.nodup_nil
  right := by
    intro r hr
    cases hr
  status_eq := fun _ => rfl
  not_given := fun _ _ => rfl
  madeBy_ne := by
    intro c hc
    simp only [bootMachine, bootKernel] at hc
    split at hc
    · rename_i h0
      rw [h0] at hc
      cases hc
    · omega
  exited_lt := by
    intro c hc
    cases hc
  awake := by
    intro p hp
    cases hp
  caller_lt := by
    intro p c hp
    cases hp
  waiting := by
    intro p pid options hp
    cases hp

section Quiet

variable {m m' : Machine} {l : List Task} {t : Task}

/-- An event that makes no task, ends none and returns no child. -/
structure Quiet (m m' : Machine) : Prop where
  parentPid_eq : m'.sys.parentPid = m.sys.parentPid
  exitStatus_eq : m'.sys.exitStatus = m.sys.exitStatus
  nextPid_eq : m'.sys.nextPid = m.sys.nextPid
  returned_eq : m'.returned = m.returned
  madeBy_eq : m'.madeBy = m.madeBy
  given_eq : m'.given = m.given
  exited_of : ∀ c, m'.sys.state c = exited → m.sys.state c = exited

theorem Quiet.of_woken {k : Kernel} (h : Woken m.sys k) :
    Quiet m (m.putSys k) :=
  ⟨h.parentPid_eq, h.exitStatus_eq, h.nextPid_eq, rfl, rfl, rfl, fun c => (h.exited_iff c).mp⟩

theorem Quiet.putState {st : TaskState} (hst : st ≠ exited) :
    Quiet m (m.putSys (m.sys.putState t st)) := by
  refine ⟨rfl, rfl, rfl, rfl, rfl, rfl, ?_⟩
  intro c hc
  by_cases hct : c = t
  · subst hct
    exact absurd ((update_self ..).symm.trans hc) hst
  · exact (update_of_ne hct _ _).symm.trans hc

theorem Quiet.schedule
    {k1 k : Kernel} (h : Quiet m (m.putSys k1)) (hok : k1.Ok l) (hstep : k1.schedule = some k) :
    Quiet m (m.putSys k) := by
  obtain ⟨k', l', hstep', -, -, hswitched⟩ := hok.schedule
  obtain rfl : k' = k := Option.some.inj (hstep'.symm.trans hstep)
  exact ⟨hswitched.parentPid_eq.trans h.parentPid_eq,
    hswitched.exitStatus_eq.trans h.exitStatus_eq, hswitched.nextPid_eq.trans h.nextPid_eq,
    rfl, rfl, rfl, fun c hc => h.exited_of c ((hswitched.exited_iff c).mp hc)⟩

theorem Quiet.taskBlock {k : Kernel} (hok : m.sys.Ok l) (hstep : m.sys.taskBlock t = some k) :
    Quiet m (m.putSys k) :=
  (Quiet.putState (by decide)).schedule (hok.putState t blocked) hstep

theorem Quiet.schedulerTick {k : Kernel} (hok : m.sys.Ok l) (hstep : m.sys.schedulerTick = some k) :
    Quiet m (m.putSys k) := by
  obtain ⟨k1, ⟨hwoken, -⟩, htick | htick⟩ := schedulerTick_cases m.sys
  · obtain rfl : k1 = k := Option.some.inj (htick.symm.trans hstep)
    exact Quiet.of_woken hwoken
  · exact (Quiet.of_woken hwoken).schedule (hok.woken hwoken) (htick.symm.trans hstep)

/-- A task that the event has made or ended. -/
structure Touched (m m' : Machine) (c : Task) : Prop where
  kept : ¬ m.wasReturned c
  parent_eq : m'.sys.parentPid c = m'.madeBy c
  status_eq : m'.sys.exitStatus c = m'.given c
  madeBy_ne : m'.madeBy c ≠ c.val
  lt : c.val < m'.sys.nextPid
  parent_awake : m'.sys.state c = exited → ∀ p : Task, m'.sys.parentPid c = p.val →
    p.val < m.sys.nextPid → m'.sys.state p ≠ blocked

/-- The event returns no child; it leaves the tasks alone that it has not touched. -/
structure Spares (m m' : Machine) (S : Set Task) : Prop where
  returned_eq : m'.returned = m.returned
  nextPid_le : m.sys.nextPid ≤ m'.sys.nextPid
  parent_eq : ∀ c, c ∉ S → m'.sys.parentPid c = m.sys.parentPid c
  status_eq : ∀ c, c ∉ S → m'.sys.exitStatus c = m.sys.exitStatus c
  madeBy_eq : ∀ c, c ∉ S → m'.madeBy c = m.madeBy c
  given_eq : ∀ c, c ∉ S → m'.given c = m.given c
  exited_of : ∀ c, c ∉ S → m'.sys.state c = exited → m.sys.state c = exited
  touched : ∀ c ∈ S, Touched m m' c

theorem WaitInv.spares {w x : Prop} {S : Set Task} (h : WaitInv m) (hok : m.sys.Ok l)
    (heffect : StepEffect m.sys.current w x m m') (hspares : Spares m m' S)
    (hcall : ∀ p c, m.sys.current = some p → m'.call p = some c →
      ∃ pid options, c = .waitpid pid options ∧
        ∀ c, m.sys.parentPid c = p.val → m.sys.state c = exited → ¬ Wants pid c) :
    WaitInv m' := by
  have hreturned : ∀ c, m'.wasReturned c ↔ m.wasReturned c := by
    intro c
    rw [Machine.wasReturned, Machine.wasReturned, hspares.returned_eq]
  have hcaller : ∀ p c, m'.call p = some c → p.val < m.sys.nextPid := by
    intro p c hp
    by_cases hcur : m.sys.current = some p
    · exact hok.current_lt hcur
    · rw [heffect.call_eq p hcur] at hp
      exact h.caller_lt p c hp
  refine
    { parent_returned := ?_, parent_eq := ?_, once := ?_, right := ?_, status_eq := ?_,
      not_given := ?_, madeBy_ne := ?_, exited_lt := ?_, awake := ?_,
      caller_lt := fun p c hp => (hcaller p c hp).trans_le hspares.nextPid_le, waiting := ?_ }
  · intro c hc
    have hold := (hreturned c).mp hc
    rw [hspares.parent_eq c (fun hS => (hspares.touched c hS).kept hold)]
    exact h.parent_returned c hold
  · intro c hc
    by_cases hS : c ∈ S
    · exact (hspares.touched c hS).parent_eq
    · rw [hspares.parent_eq c hS, hspares.madeBy_eq c hS]
      exact h.parent_eq c (fun hr => hc ((hreturned c).mpr hr))
  · rw [hspares.returned_eq]
    exact h.once
  · intro r hr
    rw [hspares.returned_eq] at hr
    have hS : r.child ∉ S := fun hS => (hspares.touched _ hS).kept ⟨r, hr, rfl⟩
    have hright := (h.right r hr).step heffect.effect (h.exited_lt r.child (h.right r hr).exited)
    refine ⟨?_, hright.target_eq, ?_, hright.exited, hright.stopped⟩
    · rw [hspares.madeBy_eq _ hS, (h.right r hr).caller_eq]
    · rw [hspares.given_eq _ hS, (h.right r hr).status_eq]
  · intro c
    by_cases hS : c ∈ S
    · exact (hspares.touched c hS).status_eq
    · rw [hspares.status_eq c hS, hspares.given_eq c hS]
      exact h.status_eq c
  · intro c hc
    rw [hspares.given_eq c (fun hS => absurd (hspares.touched c hS).lt hc.not_gt)]
    exact h.not_given c (hspares.nextPid_le.trans hc)
  · intro c
    by_cases hS : c ∈ S
    · exact (hspares.touched c hS).madeBy_ne
    · rw [hspares.madeBy_eq c hS]
      exact h.madeBy_ne c
  · intro c hc
    by_cases hS : c ∈ S
    · exact (hspares.touched c hS).lt
    · exact (h.exited_lt c (hspares.exited_of c hS hc)).trans_le hspares.nextPid_le
  · intro p hp
    by_cases hcur : m.sys.current = some p
    · obtain ⟨_, _, hwait, -⟩ := hcall p _ hcur hp
      cases hwait
    · rw [heffect.call_eq p hcur] at hp
      exact h.awake p hp
  · intro p pid options hp hblocked c hparent hexit
    have hlt := hcaller p _ hp
    by_cases hS : c ∈ S
    · exact absurd hblocked ((hspares.touched c hS).parent_awake hexit p hparent hlt)
    rw [hspares.parent_eq c hS] at hparent
    have hexit' := hspares.exited_of c hS hexit
    by_cases hcur : m.sys.current = some p
    · obtain ⟨_, _, hwait, hnone⟩ := hcall p _ hcur hp
      cases hwait
      exact hnone c hparent hexit'
    · rw [heffect.call_eq p hcur] at hp
      exact h.waiting p pid options hp (heffect.effect.blocked_of p hlt hcur hblocked) c
        hparent hexit'

theorem Quiet.spares (h : Quiet m m') :
    Spares m m' ∅ where
  returned_eq := h.returned_eq
  nextPid_le := h.nextPid_eq.ge
  parent_eq := fun c _ => congrFun h.parentPid_eq c
  status_eq := fun c _ => congrFun h.exitStatus_eq c
  madeBy_eq := fun c _ => congrFun h.madeBy_eq c
  given_eq := fun c _ => congrFun h.given_eq c
  exited_of := fun c _ => h.exited_of c
  touched := fun _ hc => hc.elim

end Quiet

section Steps

variable {m m' : Machine} {e : Event} {l : List Task} {t child : Task}
variable {pid : Int} {options : BitVec 32}

theorem findChild_none (hinv : WaitInv m) (h : m.sys.findChildExitedPid t.val pid = none) (c : Task)
    (hparent : m.sys.parentPid c = t.val) (hexited : m.sys.state c = exited) :
    ¬ Wants pid c := by
  intro hwants
  have htest := findTask_none h (hinv.exited_lt c hexited)
  simp only [hparent, hexited, decide_true, Bool.true_and, decide_eq_false_iff_not] at htest
  exact htest hwants

variable (h : WaitInv m)
include h

theorem WaitInv.reap (ht : m.sys.current = some t) (hparent : m.sys.parentPid child = t.val)
    (hexited : m.sys.state child = exited) (hwants : Wants pid child) :
    WaitInv { m.putCall t none with
      sys := { m.sys with parentPid := update m.sys.parentPid child (-1) }
      returned := ⟨t, pid, child, m.sys.exitStatus child⟩ :: m.returned } := by
  have hnew : ¬ m.wasReturned child := by
    intro hreturned
    rw [h.parent_returned child hreturned] at hparent
    omega
  have hmade : m.madeBy child = t.val :=
    (h.parent_eq child hnew).symm.trans hparent
  have hcall : ∀ p c, update m.call t none p = some c → m.call p = some c := by
    intro p c hp
    by_cases hpt : p = t
    · subst hpt
      rw [update_self] at hp
      cases hp
    · rwa [update_of_ne hpt] at hp
  refine
    { parent_returned := ?_, parent_eq := ?_, once := ?_, right := ?_, status_eq := h.status_eq,
      not_given := h.not_given, madeBy_ne := h.madeBy_ne, exited_lt := h.exited_lt, awake := ?_,
      caller_lt := fun p c hp => h.caller_lt p c (hcall p c hp), waiting := ?_ }
  · rintro c ⟨r, hr, rfl⟩
    by_cases hc : r.child = child
    · rw [hc]
      exact update_self ..
    · rcases List.mem_cons.mp hr with rfl | hr
      · exact absurd rfl hc
      · exact (update_of_ne hc _ _).trans (h.parent_returned _ ⟨r, hr, rfl⟩)
  · intro c hc
    have hne : c ≠ child := by
      rintro rfl
      exact hc ⟨_, List.mem_cons_self, rfl⟩
    have hold : ¬ m.wasReturned c := by
      rintro ⟨r, hr, hrc⟩
      exact hc ⟨r, List.mem_cons_of_mem _ hr, hrc⟩
    exact (update_of_ne hne _ _).trans (h.parent_eq c hold)
  · refine List.nodup_cons.mpr ⟨?_, h.once⟩
    intro hmem
    obtain ⟨r, hr, hrc⟩ := List.mem_map.mp hmem
    exact hnew ⟨r, hr, hrc⟩
  · intro r hr
    rcases List.mem_cons.mp hr with rfl | hr
    · refine ⟨hmade.symm, ?_, h.status_eq child, hexited, ?_⟩
      · intro hpos
        exact hwants.resolve_left (not_le.mpr hpos)
      · intro hcurrent
        obtain rfl : t = child := Option.some.inj (ht.symm.trans hcurrent)
        exact h.madeBy_ne t hmade
    · exact ⟨(h.right r hr).caller_eq, (h.right r hr).target_eq, (h.right r hr).status_eq,
        (h.right r hr).exited, (h.right r hr).stopped⟩
  · intro p hp
    exact h.awake p (hcall p _ hp)
  · intro p pid' options' hp hblocked c hc hcexited
    have hne : c ≠ child := by
      rintro rfl
      have hlost : update m.sys.parentPid c (-1) c = p.val := hc
      rw [update_self] at hlost
      omega
    have hc' : m.sys.parentPid c = p.val := (update_of_ne hne _ _).symm.trans hc
    exact h.waiting p pid' options' (hcall p _ hp) hblocked c hc' hcexited

omit h in
theorem stepEffect_of_eq {w x : Prop} {o : Option Machine} (ht : m.sys.current = some t)
    (hmoves : ∃ m1, o = some m1 ∧ StepMoves (some t) w x m m1) (hstep : o = some m') :
    StepEffect m.sys.current w x m m' := by
  obtain ⟨m1, hstep1, heffect⟩ := hmoves
  obtain rfl : m' = m1 := Option.some.inj (hstep.symm.trans hstep1)
  rw [ht]
  exact heffect.stepEffect

variable (hok : m.sys.Ok l)
include hok

/-- `task_waitpid` returns a child, returns without one or blocks. -/
theorem WaitInv.waitLoop (ht : m.sys.current = some t)
    (hstep : m.waitLoop t pid options = some m') :
    WaitInv m' := by
  have heffect := stepEffect_of_eq (w := False) (x := False) ht (waitLoop_moves hok) hstep
  unfold Machine.waitLoop at hstep
  cases hfind : m.sys.findChildExitedPid t.val pid with
  | some child =>
    rw [hfind] at hstep
    obtain ⟨-, hparent, hexited, hwants⟩ := findChild_some hfind
    rw [← Option.some.inj hstep]
    exact h.reap ht hparent hexited hwants
  | none =>
    rw [hfind] at hstep
    dsimp only at hstep
    split at hstep
    · obtain rfl := Option.some.inj hstep
      apply h.spares hok heffect
        (Quiet.spares ⟨rfl, rfl, rfl, rfl, rfl, rfl, fun _ hc => hc⟩)
      intro p c hp hc
      obtain rfl : t = p := Option.some.inj (ht.symm.trans hp)
      have hnone : update m.call t none t = some c := hc
      rw [update_self] at hnone
      cases hnone
    · obtain ⟨k, hblock, rfl⟩ := Option.map_eq_some_iff.mp hstep
      have hquiet := Quiet.taskBlock hok hblock
      apply h.spares hok heffect (Quiet.spares ⟨hquiet.parentPid_eq, hquiet.exitStatus_eq,
        hquiet.nextPid_eq, rfl, rfl, rfl, hquiet.exited_of⟩)
      intro p c hp hc
      obtain rfl : t = p := Option.some.inj (ht.symm.trans hp)
      have hself : update m.call t (some (.waitpid pid options)) t = some c := hc
      rw [update_self] at hself
      exact ⟨pid, options, (Option.some.inj hself).symm, findChild_none h hfind⟩

theorem WaitInv.exit {status : Int} (ht : m.sys.current = some t)
    (hcall : m.call t = none) (hstep : m.userStep t (.exit status) = some m') :
    WaitInv m' := by
  have heffect := stepEffect_of_eq (x := True) ht (userStep_moves hok (fun _ _ => trivial)) hstep
  obtain ⟨k0, hk0⟩ : ∃ k0 : Kernel, { m.sys with
      exitStatus := update m.sys.exitStatus t status } = k0 := ⟨_, rfl⟩
  have hok0 : k0.Ok l := hk0 ▸ hok.congr rfl rfl
  have hmark := (markExited_roused k0 t).toWoken
  obtain ⟨k', l', hschedule, -, -, hswitched⟩ := ((hok0.putState t exited).woken hmark).schedule
  have hm' : m' = { m with given := update m.given t status }.putSys k' := by
    have hmap : m.userStep t (.exit status) = (k0.markExited t).schedule.map
        { m with given := update m.given t status }.putSys := by
      rw [← hk0]
      rfl
    rw [hmap, hschedule] at hstep
    exact (Option.some.inj hstep).symm
  have hparents : k'.parentPid = m.sys.parentPid := by
    rw [hswitched.parentPid_eq, hmark.parentPid_eq, ← hk0]
    rfl
  have hstatuses : k'.exitStatus = update m.sys.exitStatus t status := by
    rw [hswitched.exitStatus_eq, hmark.exitStatus_eq, ← hk0]
    rfl
  have hnext : k'.nextPid = m.sys.nextPid := by
    rw [hswitched.nextPid_eq, hmark.nextPid_eq, ← hk0]
    rfl
  have hkept : ¬ m.wasReturned t := by
    rintro ⟨r, hr, hrt⟩
    exact (h.right r hr).stopped (hrt ▸ ht)
  subst hm'
  refine h.spares (S := {t}) hok heffect
    { returned_eq := rfl, nextPid_le := hnext.ge, parent_eq := fun c _ => congrFun hparents c,
      status_eq := ?_, madeBy_eq := fun _ _ => rfl, given_eq := ?_, exited_of := ?_,
      touched := ?_ } ?_
  · intro c hc
    exact (congrFun hstatuses c).trans (update_of_ne hc _ _)
  · intro c hc
    exact update_of_ne hc _ _
  · intro c hct hc
    have hc' := (hmark.exited_iff c).mp ((hswitched.exited_iff c).mp hc)
    rw [← hk0] at hc'
    exact (update_of_ne hct _ _).symm.trans hc'
  · rintro c rfl
    refine ⟨hkept, (congrFun hparents c).trans (h.parent_eq c hkept), ?_, h.madeBy_ne c,
      hnext ▸ hok.current_lt ht, ?_⟩
    · change k'.exitStatus c = update m.given c status c
      rw [hstatuses, update_self, update_self]
    · -- the exit has woken the parent
      intro _ p hparent hlt hblocked
      have hp0 : k0.parentPid c = p.val := by
        rw [← hk0]
        exact (congrFun hparents c).symm.trans hparent
      have hlt0 : p.val < k0.nextPid := by
        rw [← hk0]
        exact hlt
      exact markExited_parent hp0 hlt0 ((hswitched.blocked_iff p).mp hblocked)
  · intro p c hp hc
    obtain rfl : t = p := Option.some.inj (ht.symm.trans hp)
    exact absurd (hcall.symm.trans hc) (Option.some_ne_none c).symm

theorem WaitInv.fork {cloned : Bool} (ht : m.sys.current = some t)
    (hcall : m.call t = none) (hstep : m.userStep t (.fork cloned) = some m') :
    WaitInv m' := by
  have heffect := stepEffect_of_eq (x := False) ht
    (userStep_moves hok (by intro _ he; cases he)) hstep
  by_cases hfull : m.sys.nextPid < maxTasks
  · have hfields : (m.sys.taskFork t cloned).state =
        update m.sys.state ⟨m.sys.nextPid, hfull⟩ ready ∧ _ := taskFork_fields hfull
    obtain ⟨hstate, hparents, hstatuses, hnext⟩ := hfields
    obtain ⟨new, hnew⟩ : ∃ new : Task, ⟨m.sys.nextPid, hfull⟩ = new := ⟨_, rfl⟩
    have hm' : m' = { m with
        sys := m.sys.taskFork t cloned
        madeBy := update m.madeBy new t.val } := by
      simp only [Machine.userStep, Kernel.taskAlloc, dif_pos hfull, hnew] at hstep
      exact (Option.some.inj hstep).symm
    rw [hnew] at hstate hparents hstatuses
    have hnewval : new.val = m.sys.nextPid := by
      rw [← hnew]
    have hlt := hok.current_lt ht
    subst hm'
    refine h.spares (S := {new}) hok heffect
      { returned_eq := rfl, nextPid_le := hnext ▸ Nat.le_succ _, parent_eq := ?_, status_eq := ?_,
        madeBy_eq := fun _ hc => update_of_ne hc _ _, given_eq := fun _ _ => rfl,
        exited_of := ?_, touched := ?_ } ?_
    · intro c hc
      exact (congrFun hparents c).trans (update_of_ne hc _ _)
    · intro c hc
      exact (congrFun hstatuses c).trans (update_of_ne hc _ _)
    · intro c hcn hc
      exact (update_of_ne hcn _ _).symm.trans ((congrFun hstate c).symm.trans hc)
    · rintro c rfl
      refine ⟨?_, ?_, ?_, ?_, hnext ▸ by omega, ?_⟩
      · rintro ⟨r, hr, hrc⟩
        have hold := h.exited_lt r.child (h.right r hr).exited
        rw [hrc] at hold
        omega
      · change (m.sys.taskFork t cloned).parentPid c = update m.madeBy c t.val c
        rw [hparents, update_self, update_self]
      · exact (congrFun hstatuses c).trans
          ((update_self ..).trans (h.not_given c hnewval.ge).symm)
      · simp only [update_self]
        omega
      · intro hc
        rw [show (m.sys.taskFork t cloned).state c = ready from
          (congrFun hstate c).trans (update_self ..)] at hc
        cases hc
    · intro p c hp hc
      obtain rfl : t = p := Option.some.inj (ht.symm.trans hp)
      exact absurd (hcall.symm.trans hc) (Option.some_ne_none c).symm
  · -- the table is full
    have hsame : m' = m := by
      simp only [Machine.userStep, Kernel.taskFork, Kernel.taskAlloc, dif_neg hfull] at hstep
      exact (Option.some.inj hstep).symm
    rw [hsame]
    exact h

theorem WaitInv.quietCall {w : Prop} (heffect : StepEffect m.sys.current w False m m')
    (hquiet : Quiet m m') (hcall : ∀ p, m.sys.current = some p → m'.call p = none) :
    WaitInv m' := by
  apply h.spares hok heffect hquiet.spares
  intro p c hp hc
  rw [hcall p hp] at hc
  cases hc

theorem WaitInv.userStep (ht : m.sys.current = some t) (hcall : m.call t = none)
    (hawake : e.sleeps = false) (hstep : m.userStep t e = some m') :
    WaitInv m' := by
  by_cases hexit : ∃ status, e = .exit status
  · obtain ⟨status, rfl⟩ := hexit
    exact h.exit hok ht hcall hstep
  have heffect := stepEffect_of_eq (x := False) ht
    (userStep_moves hok (fun status he => hexit ⟨status, he⟩)) hstep
  -- the calls below leave the field `call` alone
  have hsame : m'.call = m.call → Quiet m m' → WaitInv m' := by
    intro heq hquiet
    apply h.quietCall hok heffect hquiet
    intro p hp
    obtain rfl : t = p := Option.some.inj (ht.symm.trans hp)
    rw [heq, hcall]
  cases e with
  | fork cloned => exact h.fork hok ht hcall hstep
  | exit status => exact absurd ⟨status, rfl⟩ hexit
  | waitpid pid options => exact h.waitLoop hok ht hstep
  | block =>
    obtain ⟨k, hblock, rfl⟩ := Option.map_eq_some_iff.mp hstep
    exact hsame rfl (Quiet.taskBlock hok hblock)
  | wake pid =>
    obtain rfl := Option.some.inj hstep
    exact hsame rfl (Quiet.of_woken (taskWake_roused _ _).toWoken)
  | kill pid sig =>
    simp only [Machine.userStep] at hstep
    split at hstep
    · exact Option.some.inj hstep ▸ h
    · obtain rfl := Option.some.inj hstep
      exact hsame rfl (Quiet.of_woken (signalSend_roused _ _ _).toWoken)
  | signals pending mask =>
    obtain rfl := Option.some.inj hstep
    exact hsame rfl ⟨rfl, rfl, rfl, rfl, rfl, rfl, fun _ hc => hc⟩
  | yield =>
    obtain ⟨k, hschedule, rfl⟩ := Option.map_eq_some_iff.mp hstep
    have hnow : Quiet m (m.putSys m.sys) := ⟨rfl, rfl, rfl, rfl, rfl, rfl, fun _ hc => hc⟩
    exact hsame rfl (hnow.schedule hok hschedule)
  | nanosleep sec nsec => cases hawake
  | resume => exact Option.some.inj hstep ▸ h
  | tick =>
    obtain ⟨k, htick, rfl⟩ := Option.map_eq_some_iff.mp hstep
    exact hsame rfl (Quiet.schedulerTick hok htick)

omit hok h

/-- Inside `task_waitpid` nothing interrupts a task. -/
theorem callStep_waitpid :
    m.callStep t (.waitpid pid options) e =
      if e = .resume then m.waitLoop t pid options else some m := by
  by_cases he : e = .resume
  · subst he
    rfl
  · rw [if_neg he]
    unfold Machine.callStep
    split
    case h_1 => exact absurd rfl he
    case h_2 heq => cases heq
    case h_3 heq => cases heq
    case h_4 => rfl

/-- Every event but `sys_nanosleep` keeps the invariant. -/
theorem WaitInv.step
    (h : WaitInv m) (hok : m.sys.Ok l) (hawake : e.sleeps = false) (hstep : m.step e = some m') :
    WaitInv m' := by
  unfold Machine.step at hstep
  cases hcurrent : m.sys.current with
  | none =>
    rw [hcurrent] at hstep
    dsimp only at hstep
    split at hstep
    · obtain ⟨m1, hstep1, heffect⟩ : ∃ m1, m.sys.schedulerTick.map m.putSys = some m1 ∧
          StepMoves m.sys.current True False m m1 :=
        StepMoves.putSys (schedulerTick_moves hok trivial) (fun _ _ => rfl)
      obtain rfl : m' = m1 := Option.some.inj (hstep.symm.trans hstep1)
      obtain ⟨k, hk, rfl⟩ := Option.map_eq_some_iff.mp hstep
      apply h.quietCall hok heffect.stepEffect (Quiet.schedulerTick hok hk)
      intro p hp
      rw [hcurrent] at hp
      cases hp
    · exact Option.some.inj hstep ▸ h
  | some t =>
    rw [hcurrent] at hstep
    dsimp only at hstep
    cases hcall : m.call t with
    | none =>
      rw [hcall] at hstep
      exact h.userStep hok hcurrent hcall hawake hstep
    | some c =>
      rw [hcall] at hstep
      cases c with
      | nanosleep => exact absurd hcall (h.awake t)
      | waitpid pid options =>
        dsimp only at hstep
        rw [callStep_waitpid] at hstep
        split at hstep
        · exact h.waitLoop hok hcurrent hstep
        · exact Option.some.inj hstep ▸ h

end Steps

/-- A run without `sys_nanosleep` keeps the invariant. -/
theorem WaitInv.run {m : Machine} {es : List Event} (h : WaitInv m) (hok : ∃ l, m.sys.Ok l)
    (hawake : ∀ e ∈ es, e.sleeps = false) :
    ∃ m', m.run es = some m' ∧ WaitInv m' := by
  induction es generalizing m with
  | nil => exact ⟨m, rfl, h⟩
  | cons e es ih =>
    obtain ⟨l, hl⟩ := hok
    obtain ⟨m1, hstep, heffect⟩ := step_effect (e := e) hl
    rw [run_cons hstep]
    exact ih (h.step hl (hawake e List.mem_cons_self) hstep) heffect.sound
      (fun e' he' => hawake e' (List.mem_cons_of_mem _ he'))

/-- In every run each child is returned at most once, to the task that made it,
EXITED and with the status that it passed to its exit; a positive pid is the pid
that is returned; and a task that is BLOCKED inside `task_waitpid` has no EXITED
child of the kind it waits for that has not been returned. -/
theorem waitpid_exact
    (es : List Event) (hawake : ∀ e ∈ es, e.sleeps = false) :
    ∃ m, bootMachine.run es = some m ∧
      (m.returned.map Reaped.child).Nodup ∧
      (∀ r ∈ m.returned, (r.caller.val : Int) = m.madeBy r.child ∧
        m.sys.state r.child = exited ∧ r.status = m.given r.child ∧
        (0 < r.target → (r.child.val : Int) = r.target)) ∧
      ∀ p pid options, m.call p = some (.waitpid pid options) → m.sys.state p = blocked →
        ∀ c, m.madeBy c = p.val → m.sys.state c = exited → Wants pid c → m.wasReturned c := by
  obtain ⟨m, hrun, hinv⟩ := boot_waitInv.run ⟨[0, 1], boot_ok⟩ hawake
  refine ⟨m, hrun, hinv.once, ?_, ?_⟩
  · intro r hr
    have hright := hinv.right r hr
    exact ⟨hright.caller_eq, hright.exited, hright.status_eq, hright.target_eq⟩
  · intro p pid options hcall hblocked c hmade hexited hwants
    by_contra hnot
    have hparent : m.sys.parentPid c = p.val := (hinv.parent_eq c hnot).trans hmade
    exact hinv.waiting p pid options hcall hblocked c hparent hexited hwants

/-- Init waits for the task that it has made, which exits with status 7. -/
theorem waitpid_exact_one_child :
    ∃ m, bootMachine.run (List.replicate 10 .tick ++
        [.yield, .waitpid (-1) 0#32, .fork true, .waitpid 2 0#32, .exit 7, .resume]) = some m ∧
      m.returned = [⟨0, 2, 2, 7⟩] ∧ m.given 2 = 7 ∧ m.madeBy 2 = 0 ∧
      m.call 1 = some (.waitpid (-1) 0#32) ∧ m.sys.state 1 = blocked := by
  obtain ⟨m, hrun, -, hright, -⟩ := waitpid_exact (List.replicate 10 .tick ++
    [.yield, .waitpid (-1) 0#32, .fork true, .waitpid 2 0#32, .exit 7, .resume])
    (by decide)
  have hview : (bootMachine.run (List.replicate 10 .tick ++
      [.yield, .waitpid (-1) 0#32, .fork true, .waitpid 2 0#32, .exit 7, .resume])).map
      (fun m => (m.returned, m.call 1, m.sys.state 1)) =
        some ([⟨0, 2, 2, 7⟩], some (.waitpid (-1) 0#32), blocked) := by
    decide +kernel
  rw [hrun, Option.map_some, Option.some.injEq, Prod.mk.injEq, Prod.mk.injEq] at hview
  obtain ⟨hreturned, hcall, hstate⟩ := hview
  rw [hreturned] at hright
  obtain ⟨hcaller, -, hstatus, -⟩ := hright _ List.mem_cons_self
  exact ⟨m, hrun, hreturned, hstatus.symm, hcaller.symm, hcall, hstate⟩

end Sched
end Homunculos
