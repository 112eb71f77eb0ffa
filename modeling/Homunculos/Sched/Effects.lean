import Homunculos.Lib.Run
import Homunculos.Sched.Tasks

/-!
# What a step changes

A wake-up turns BLOCKED tasks into READY ones; a call of `schedule` only moves
tasks between READY and RUNNING and makes a READY task current.  Every event is
a change of the current task, then wake-ups, then perhaps a call of `schedule`:
these are its `Moves`.  `Effect` collects what they mean for the other tasks.
-/

namespace Homunculos
namespace Sched

open Function

open TaskState (ready running blocked exited)

variable {k k' k₁ : Kernel} {l : List Task} {t u : Task}

/-- The queue is `l`, the current task is in it and all its slots are allocated. -/
structure Kernel.Ok (k : Kernel) (l : List Task) : Prop where
  scheduled : Scheduled k.toScheduler l
  allocated : ∀ t ∈ l, t.val < k.nextPid

/-- Some BLOCKED tasks have become READY; what else is kept. -/
structure Woken (k k' : Kernel) : Prop where
  sched_eq : k'.toScheduler = { k.toScheduler with state := k'.state }
  nextPid_eq : k'.nextPid = k.nextPid
  parentPid_eq : k'.parentPid = k.parentPid
  exitStatus_eq : k'.exitStatus = k.exitStatus
  state_cases : ∀ t, k'.state t = k.state t ∨ k.state t = blocked ∧ k'.state t = ready

/-- What a call of `schedule` changes. -/
structure Switched (k k' : Kernel) : Prop where
  rest_eq : k' = { k with toScheduler := k'.toScheduler }
  exited_iff : ∀ t, k'.state t = exited ↔ k.state t = exited
  blocked_iff : ∀ t, k'.state t = blocked ↔ k.state t = blocked
  current_cases : k'.current = k.current ∨ ∃ u, k'.current = some u ∧ k.state u = ready

/-- A wake-up; the tasks that stay BLOCKED keep their signals. -/
structure Roused (k k' : Kernel) : Prop extends Woken k k' where
  signals : ∀ t, k'.state t = blocked →
    k'.pendingSignals t = k.pendingSignals t ∧ k'.signalMask t = k.signalMask t

section Wakeups

theorem Woken.blocked_of (h : Woken k k') (ht : k'.state t = blocked) :
    k.state t = blocked := by
  rcases h.state_cases t with heq | ⟨hblocked, -⟩
  · exact heq ▸ ht
  · exact hblocked

theorem Roused.refl (k : Kernel) :
    Roused k k where
  sched_eq := rfl
  nextPid_eq := rfl
  parentPid_eq := rfl
  exitStatus_eq := rfl
  state_cases := fun _ => Or.inl rfl
  signals := fun _ _ => ⟨rfl, rfl⟩

theorem Roused.trans (h : Roused k k₁) (h' : Roused k₁ k') :
    Roused k k' where
  sched_eq := by
    rw [h'.sched_eq, h.sched_eq]
  nextPid_eq := h'.nextPid_eq.trans h.nextPid_eq
  parentPid_eq := h'.parentPid_eq.trans h.parentPid_eq
  exitStatus_eq := h'.exitStatus_eq.trans h.exitStatus_eq
  state_cases := by
    intro t
    rcases h'.state_cases t with heq | ⟨hblocked, hready⟩
    · rw [heq]
      exact h.state_cases t
    · exact Or.inr ⟨h.blocked_of hblocked, hready⟩
  signals := by
    intro t ht
    obtain ⟨hpending', hmask'⟩ := h'.signals t ht
    obtain ⟨hpending, hmask⟩ := h.signals t (h'.blocked_of ht)
    exact ⟨hpending'.trans hpending, hmask'.trans hmask⟩

theorem Roused.putState (h : k.state t = blocked) :
    Roused k (k.putState t ready) where
  sched_eq := rfl
  nextPid_eq := rfl
  parentPid_eq := rfl
  exitStatus_eq := rfl
  state_cases := by
    intro u
    by_cases hu : u = t
    · subst hu
      exact Or.inr ⟨h, update_self ..⟩
    · exact Or.inl (update_of_ne hu _ _)
  signals := fun _ _ => ⟨rfl, rfl⟩

theorem findTask_some {test : Task → Bool} (h : k.findTask test = some t) :
    t.val < k.nextPid ∧ test t = true := by
  have hpass := List.find?_some h
  simpa using hpass

theorem findTask_none {test : Task → Bool} (h : k.findTask test = none) (ht : t.val < k.nextPid) :
    test t = false := by
  have hfail := List.find?_eq_none.mp h t (List.mem_finRange t)
  simpa [ht] using hfail

theorem taskWake_roused (k : Kernel) (pid : Int) :
    Roused k (k.taskWake pid) := by
  unfold Kernel.taskWake
  cases hfind : k.findTask (fun i => decide ((i.val : Int) = pid) &&
      decide (k.state i = blocked)) with
  | none => exact Roused.refl k
  | some i =>
    obtain ⟨-, htest⟩ := findTask_some hfind
    simp only [Bool.and_eq_true, decide_eq_true_eq] at htest
    exact Roused.putState htest.2

/-- The task that `task_wake` names is not BLOCKED afterwards. -/
theorem taskWake_target (ht : t.val < k.nextPid) :
    (k.taskWake t.val).state t ≠ blocked := by
  unfold Kernel.taskWake
  cases hfind : k.findTask (fun i => decide ((i.val : Int) = t.val) &&
      decide (k.state i = blocked)) with
  | none =>
    intro hblocked
    have hfail := findTask_none hfind ht
    simp [hblocked] at hfail
  | some i =>
    obtain ⟨-, htest⟩ := findTask_some hfind
    simp only [Bool.and_eq_true, decide_eq_true_eq, Nat.cast_inj] at htest
    obtain rfl : i = t := Fin.ext htest.1
    simp [Kernel.putState]

theorem signalSend_roused (k : Kernel) (pid : Int) (sig : Nat) :
    Roused k (k.signalSend pid sig) := by
  unfold Kernel.signalSend
  split
  · exact Roused.refl k
  cases k.findTask (fun i => decide ((i.val : Int) = pid) && decide (k.state i ≠ exited)) with
  | none => exact Roused.refl k
  | some i =>
    dsimp only
    split
    · rename_i hblocked
      refine ⟨⟨rfl, rfl, rfl, rfl, (Roused.putState hblocked).state_cases⟩, ?_⟩
      intro u hu
      have hui : u ≠ i := by
        rintro rfl
        simp [Kernel.putState] at hu
      exact ⟨update_of_ne hui _ _, rfl⟩
    · rename_i hnot
      refine ⟨⟨rfl, rfl, rfl, rfl, fun _ => Or.inl rfl⟩, ?_⟩
      intro u hu
      have hui : u ≠ i := by
        rintro rfl
        exact hnot hu
      exact ⟨update_of_ne hui _ _, rfl⟩

theorem wakeSleepers_roused (k : Kernel) :
    Roused k k.wakeSleepers where
  sched_eq := rfl
  nextPid_eq := rfl
  parentPid_eq := rfl
  exitStatus_eq := rfl
  state_cases := by
    intro t
    by_cases hdue : k.due t
    · exact Or.inr ⟨hdue.1, if_pos hdue⟩
    · exact Or.inl (if_neg hdue)
  signals := fun _ _ => ⟨rfl, rfl⟩

theorem Woken.current_eq (h : Woken k k') :
    k'.current = k.current := by
  rw [h.sched_eq]

theorem Woken.exited_iff (h : Woken k k') (t : Task) :
    k'.state t = exited ↔ k.state t = exited := by
  rcases h.state_cases t with heq | ⟨hblocked, hready⟩
  · rw [heq]
  · simp [hblocked, hready]

end Wakeups

section Scheduling

theorem Kernel.Ok.current_lt (h : k.Ok l) (ht : k.current = some t) :
    t.val < k.nextPid :=
  h.allocated t (h.scheduled.current_mem t ht)

theorem Kernel.Ok.congr
    (h : k.Ok l) (hsched : k'.toScheduler = { k.toScheduler with state := k'.state })
    (hnext : k'.nextPid = k.nextPid) :
    k'.Ok l where
  scheduled := by
    rw [hsched]
    exact h.scheduled.change _
  allocated := by
    rw [hnext]
    exact h.allocated

theorem Kernel.Ok.woken (h : k.Ok l) (hwoken : Woken k k') :
    k'.Ok l :=
  h.congr hwoken.sched_eq hwoken.nextPid_eq

theorem Kernel.Ok.putState (h : k.Ok l) (t : Task) (st : TaskState) :
    (k.putState t st).Ok l :=
  h.congr rfl rfl

theorem retiredState_blocked_iff {s : Scheduler} :
    retiredState s u = blocked ↔ s.state u = blocked := by
  unfold retiredState
  split
  case isTrue h => simp [h.2]
  case isFalse => rfl

theorem retiredState_of_ne_current {s : Scheduler} (h : s.current ≠ some u) :
    retiredState s u = s.state u := by
  simp [retiredState, h]

/-- `schedule` returns, keeps the queue and switches to a READY task. -/
theorem Kernel.Ok.schedule (h : k.Ok l) :
    ∃ k' l', k.schedule = some k' ∧ k'.Ok l' ∧ l'.Perm l ∧ Switched k k' := by
  obtain ⟨s', hstep, hscheduled⟩ := h.scheduled.schedule
  obtain ⟨s'', hstep', -, hcases⟩ := schedule_spec h.scheduled.queue h.scheduled.current_mem
  obtain rfl : s' = s'' := Option.some.inj (hstep.symm.trans hstep')
  have hperm := retiredQueue_perm h.scheduled.current_mem
  refine ⟨{ k with toScheduler := s' }, _, ?_, ⟨hscheduled, ?_⟩, hperm, ?_⟩
  · rw [Kernel.schedule, hstep, Option.map_some]
  · intro u hu
    exact h.allocated u (hperm.mem_iff.mp hu)
  cases hfind : (retiredQueue k.toScheduler l).find?
      (fun t => decide (retiredState k.toScheduler t = ready)) with
  | none =>
    rw [hfind] at hcases
    obtain ⟨hstate, hcurrent⟩ := hcases
    refine ⟨rfl, ?_, ?_, Or.inl hcurrent⟩
    · intro u
      exact hstate ▸ retiredState_exited_iff
    · intro u
      exact hstate ▸ retiredState_blocked_iff
  | some v =>
    rw [hfind] at hcases
    obtain ⟨hcurrent, hstate⟩ := hcases
    have hready : retiredState k.toScheduler v = ready := by simpa using List.find?_some hfind
    -- the chosen task is READY, so it is neither BLOCKED nor EXITED before or after
    have hother : ∀ st, st ≠ ready → st ≠ running →
        ∀ u, s'.state u = st ↔ retiredState k.toScheduler u = st := by
      intro st hne hne' u
      rw [hstate]
      split
      · rfl
      · by_cases hu : u = v
        · subst hu
          rw [update_self, hready]
          exact ⟨fun heq => absurd heq.symm hne', fun heq => absurd heq.symm hne⟩
        · rw [update_of_ne hu]
    refine ⟨rfl, ?_, ?_, ?_⟩
    · intro u
      exact (hother exited (by decide) (by decide) u).trans retiredState_exited_iff
    · intro u
      exact (hother blocked (by decide) (by decide) u).trans retiredState_blocked_iff
    · by_cases hv : k.current = some v
      · exact Or.inl (hcurrent.trans hv.symm)
      · refine Or.inr ⟨v, hcurrent, ?_⟩
        rw [retiredState_of_ne_current hv] at hready
        exact hready

theorem Switched.nextPid_eq (h : Switched k k') :
    k'.nextPid = k.nextPid := by
  rw [h.rest_eq]

theorem Switched.parentPid_eq (h : Switched k k') :
    k'.parentPid = k.parentPid := by
  rw [h.rest_eq]

theorem Switched.exitStatus_eq (h : Switched k k') :
    k'.exitStatus = k.exitStatus := by
  rw [h.rest_eq]

/-- Some task of the queue is READY. -/
def SomeReady (k : Kernel) : Prop :=
  ∃ l, Queue k.toScheduler l ∧ ∃ t ∈ l, k.state t = ready

theorem Kernel.Ok.someReady_iff (h : k.Ok l) :
    SomeReady k ↔ ∃ u ∈ l, k.state u = ready := by
  constructor
  · rintro ⟨l', hl', hready⟩
    rwa [hl'.unique h.scheduled.queue] at hready
  · exact fun hready => ⟨l, h.scheduled.queue, hready⟩

theorem schedule_returns_iff
    (h : k.Ok l) (ht : k.current = some t) (hstate : k.state t = exited ∨ k.state t = blocked)
    (hstep : k.schedule = some k') :
    k'.current = some t ↔ ¬ SomeReady k := by
  obtain ⟨s', hschedule, -, hcases⟩ := schedule_spec h.scheduled.queue h.scheduled.current_mem
  have hsys : k' = { k with toScheduler := s' } := by
    rw [Kernel.schedule, hschedule] at hstep
    exact (Option.some.inj hstep).symm
  have hsame : retiredState k.toScheduler = k.state := by
    funext u
    by_cases hu : k.current = some u
    · have htu : t = u := Option.some.inj (ht.symm.trans hu)
      rcases hstate with hexited | hblocked
      · simp [retiredState, ← htu, hexited]
      · simp [retiredState, ← htu, hblocked]
    · exact retiredState_of_ne_current hu
  have hperm := retiredQueue_perm h.scheduled.current_mem
  have hready : SomeReady k ↔
      ∃ u ∈ retiredQueue k.toScheduler l, k.state u = ready := by
    simp only [h.someReady_iff, hperm.mem_iff]
  rw [hready, hsys]
  rw [hsame] at hcases
  cases hfind : (retiredQueue k.toScheduler l).find? (fun t => decide (k.state t = ready)) with
  | none =>
    rw [hfind] at hcases
    have hnone : ¬ ∃ u ∈ retiredQueue k.toScheduler l, k.state u = ready := by
      rintro ⟨u, hu, hready⟩
      have hfail := List.find?_eq_none.mp hfind u hu
      simp [hready] at hfail
    exact iff_of_true (hcases.2.trans ht) hnone
  | some v =>
    rw [hfind] at hcases
    have hv : k.state v = ready := by simpa using List.find?_some hfind
    apply iff_of_false
    · intro hcurrent
      have htv : v = t := Option.some.inj (hcases.1.symm.trans hcurrent)
      rw [htv] at hv
      rcases hstate with hexited | hblocked
      · rw [hexited] at hv
        cases hv
      · rw [hblocked] at hv
        cases hv
    · exact not_not.mpr ⟨v, List.mem_of_find?_eq_some hfind, hv⟩

end Scheduling

section Effects

/-- What one event of the task `o` means: only if `w` holds, it wakes other
tasks, and only if `x` holds, it makes `o` EXITED. -/
structure Effect (o : Option Task) (w x : Prop) (k k' : Kernel) : Prop where
  current_cases : k'.current = k.current ∨
    ∃ u, k'.current = some u ∧ k'.state u ≠ blocked ∧ k'.state u ≠ exited
  exited_of : ∀ u, u.val < k.nextPid → k'.state u = exited →
    k.state u = exited ∨ o = some u ∧ x
  exited_keep : ∀ u, u.val < k.nextPid → o ≠ some u →
    k.state u = exited → k'.state u = exited
  blocked_of : ∀ u, u.val < k.nextPid → o ≠ some u →
    k'.state u = blocked → k.state u = blocked
  woken : ∀ u, u.val < k.nextPid → o ≠ some u →
    k.state u = blocked → k'.state u ≠ blocked → w
  nextPid_le : k.nextPid ≤ k'.nextPid

variable {w x : Prop} {o : Option Task}

theorem Effect.of_same
    (hcurrent : k'.current = k.current) (hstate : ∀ u, u.val < k.nextPid → k'.state u = k.state u)
    (hnext : k.nextPid ≤ k'.nextPid) :
    Effect o w x k k' where
  current_cases := Or.inl hcurrent
  exited_of := by
    intro u hlt h
    rw [hstate u hlt] at h
    exact Or.inl h
  exited_keep := by
    intro u hlt _ h
    rw [hstate u hlt, h]
  blocked_of := by
    intro u hlt _ h
    rwa [hstate u hlt] at h
  woken := by
    intro u hlt _ h h'
    rw [hstate u hlt] at h'
    exact absurd h h'
  nextPid_le := hnext

theorem Effect.putState {st : TaskState} (hx : st = exited → x) :
    Effect (some t) w x k (k.putState t st) := by
  have hother : ∀ u, some t ≠ some u → (k.putState t st).state u = k.state u := by
    intro u hu
    have hne : u ≠ t := fun heq => hu (congrArg some heq.symm)
    exact update_of_ne hne _ _
  refine ⟨Or.inl rfl, ?_, ?_, ?_, ?_, le_rfl⟩
  · intro u _ h
    by_cases hu : t = u
    · subst hu
      exact Or.inr ⟨rfl, hx ((update_self ..).symm.trans h)⟩
    · have hu' : some t ≠ some u := fun heq => hu (Option.some.inj heq)
      exact Or.inl ((hother u hu').symm.trans h)
  · intro u _ hu h
    rw [hother u hu, h]
  · intro u _ hu h
    rwa [hother u hu] at h
  · intro u _ hu h h'
    rw [hother u hu] at h'
    exact absurd h h'

theorem Effect.of_woken (h : Woken k k') (hw : w) :
    Effect o w x k k' where
  current_cases := Or.inl h.current_eq
  exited_of := fun u _ hu => Or.inl ((h.exited_iff u).mp hu)
  exited_keep := fun u _ _ hu => (h.exited_iff u).mpr hu
  blocked_of := fun _ _ _ hu => h.blocked_of hu
  woken := fun _ _ _ _ _ => hw
  nextPid_le := h.nextPid_eq.ge

theorem Effect.of_switched (h : Switched k k') :
    Effect o w x k k' where
  current_cases := by
    rcases h.current_cases with heq | ⟨u, hu, hready⟩
    · exact Or.inl heq
    · refine Or.inr ⟨u, hu, ?_, ?_⟩
      · rw [ne_eq, h.blocked_iff, hready]
        decide
      · rw [ne_eq, h.exited_iff, hready]
        decide
  exited_of := fun u _ hu => Or.inl ((h.exited_iff u).mp hu)
  exited_keep := fun u _ _ hu => (h.exited_iff u).mpr hu
  blocked_of := fun u _ _ hu => (h.blocked_iff u).mp hu
  woken := fun u _ _ hu hu' => absurd ((h.blocked_iff u).mpr hu) hu'
  nextPid_le := h.nextPid_eq.ge

theorem Effect.trans
    (h : Effect o w x k k₁) (hcurrent : k₁.current = k.current) (h' : Effect o w x k₁ k') :
    Effect o w x k k' where
  current_cases := hcurrent ▸ h'.current_cases
  exited_of := by
    intro u hlt hu
    rcases h'.exited_of u (hlt.trans_le h.nextPid_le) hu with hmid | hself
    · exact h.exited_of u hlt hmid
    · exact Or.inr hself
  exited_keep := fun u hlt hu hb =>
    h'.exited_keep u (hlt.trans_le h.nextPid_le) hu (h.exited_keep u hlt hu hb)
  blocked_of := fun u hlt hu hb =>
    h.blocked_of u hlt hu (h'.blocked_of u (hlt.trans_le h.nextPid_le) hu hb)
  woken := by
    intro u hlt hu hb hb'
    by_cases hmid : k₁.state u = blocked
    · exact h'.woken u (hlt.trans_le h.nextPid_le) hu hmid hb'
    · exact h.woken u hlt hu hb hmid
  nextPid_le := h.nextPid_le.trans h'.nextPid_le

end Effects

section Forks

theorem taskFork_fields {cloned : Bool} (h : k.nextPid < maxTasks) :
    (k.taskFork t cloned).state = update k.state ⟨k.nextPid, h⟩ ready ∧
    (k.taskFork t cloned).parentPid = update k.parentPid ⟨k.nextPid, h⟩ t.val ∧
    (k.taskFork t cloned).exitStatus = update k.exitStatus ⟨k.nextPid, h⟩ 0 ∧
    (k.taskFork t cloned).nextPid = k.nextPid + 1 := by
  unfold Kernel.taskFork Kernel.taskAlloc
  rw [dif_pos h]
  cases cloned with
  | false => exact ⟨rfl, update_idem .., rfl, rfl⟩
  | true => exact ⟨addTask_state, update_idem .., rfl, rfl⟩

/-- What a fork leaves alone. -/
structure Kept (k k' : Kernel) (u : Task) : Prop where
  state_eq : k'.state u = k.state u
  parent_eq : k'.parentPid u = k.parentPid u
  pending_eq : k'.pendingSignals u = k.pendingSignals u
  mask_eq : k'.signalMask u = k.signalMask u

theorem taskFork_kept (k : Kernel) (t : Task) (cloned : Bool) :
    (k.taskFork t cloned).current = k.current ∧ k.nextPid ≤ (k.taskFork t cloned).nextPid ∧
      ∀ u : Task, u.val < k.nextPid → Kept k (k.taskFork t cloned) u := by
  unfold Kernel.taskFork Kernel.taskAlloc
  by_cases hfull : k.nextPid < maxTasks
  · rw [dif_pos hfull]
    have hne : ∀ u : Task, u.val < k.nextPid → u ≠ ⟨k.nextPid, hfull⟩ := by
      rintro u hu rfl
      exact lt_irrefl _ hu
    cases cloned with
    | false =>
      refine ⟨rfl, Nat.le_succ _, fun u hu => ?_⟩
      constructor <;> simp [hne u hu]
    | true =>
      refine ⟨addTask_current, Nat.le_succ _, fun u hu => ?_⟩
      constructor <;> simp [hne u hu]
  · rw [dif_neg hfull]
    exact ⟨rfl, le_rfl, fun u _ => ⟨rfl, rfl, rfl, rfl⟩⟩

end Forks

section Moves

/-- What the task `o` writes besides states: times and signals of its own, and the
parent of one of its children. -/
structure Noted (o : Option Task) (k k' : Kernel) : Prop where
  sched_eq : k'.toScheduler = k.toScheduler
  nextPid_eq : k'.nextPid = k.nextPid
  parent_cases : ∀ u, k'.parentPid u = k.parentPid u ∨ ∃ t, o = some t ∧ k.parentPid u = t.val
  signals : ∀ u, o ≠ some u →
    k'.pendingSignals u = k.pendingSignals u ∧ k'.signalMask u = k.signalMask u

/-- What one event of the task `o` does, one thing after the other. -/
inductive Moves (o : Option Task) (w x : Prop) : Kernel → Kernel → Prop
  | done (k : Kernel) : Moves o w x k k
  | switch {k k' : Kernel} (hswitched : Switched k k') : Moves o w x k k'
  | fork {k : Kernel} {t : Task} {cloned : Bool} : Moves o w x k (k.taskFork t cloned)
  | put {k k' : Kernel} {t : Task} {st : TaskState} (ho : o = some t) (hx : st = exited → x)
      (hrest : Moves o w x (k.putState t st) k') : Moves o w x k k'
  | note {k k₁ k' : Kernel} (hnoted : Noted o k k₁) (hrest : Moves o w x k₁ k') :
      Moves o w x k k'
  | wake {k k₁ k' : Kernel} (hw : w) (hroused : Roused k k₁) (hrest : Moves o w x k₁ k') :
      Moves o w x k k'

variable {w x : Prop} {o : Option Task}

theorem Noted.moves (h : Noted o k k') :
    Moves o w x k k' :=
  Moves.note h (Moves.done k')

theorem Moves.effect (h : Moves o w x k k') :
    Effect o w x k k' := by
  induction h with
  | done k => exact Effect.of_same rfl (fun _ _ => rfl) le_rfl
  | switch hswitched => exact Effect.of_switched hswitched
  | @fork k t cloned =>
    obtain ⟨hcurrent, hnext, hkept⟩ := taskFork_kept k t cloned
    exact Effect.of_same hcurrent (fun u hu => (hkept u hu).state_eq) hnext
  | put ho hx _ ih =>
    subst ho
    exact (Effect.putState hx).trans rfl ih
  | @note k k₁ k' hnoted _ ih =>
    have hsame : Effect o w x k k₁ :=
      Effect.of_same (congrArg Scheduler.current hnoted.sched_eq)
        (fun u _ => congrFun (congrArg Scheduler.state hnoted.sched_eq) u) hnoted.nextPid_eq.ge
    exact hsame.trans (congrArg Scheduler.current hnoted.sched_eq) ih
  | wake hw hroused _ ih => exact (Effect.of_woken hroused.toWoken hw).trans hroused.current_eq ih

end Moves

section Calls

variable {w x : Prop} {o : Option Task}

theorem Kernel.Ok.schedule_moves (h : k.Ok l) :
    ∃ k' l', k.schedule = some k' ∧ k'.Ok l' ∧ Moves o w x k k' := by
  obtain ⟨k', l', hstep, hok, -, hswitched⟩ := h.schedule
  exact ⟨k', l', hstep, hok, Moves.switch hswitched⟩

theorem taskBlock_moves (h : k.Ok l) :
    ∃ k' l', k.taskBlock t = some k' ∧ k'.Ok l' ∧ Moves (some t) w x k k' := by
  obtain ⟨k', l', hstep, hok, hmoves⟩ := (h.putState t blocked).schedule_moves
  exact ⟨k', l', hstep, hok, Moves.put rfl (by intro heq; cases heq) hmoves⟩

theorem markExited_roused (k : Kernel) (t : Task) :
    Roused (k.putState t exited) (k.markExited t) := by
  unfold Kernel.markExited
  dsimp only
  split
  · exact (taskWake_roused _ _).trans (signalSend_roused _ _ _)
  · exact Roused.refl _

/-- The parent of a task that exits is not BLOCKED when `schedule` is called. -/
theorem markExited_parent {p : Task} (hp : k.parentPid t = p.val) (hlt : p.val < k.nextPid) :
    (k.markExited t).state p ≠ blocked := by
  have hparent : (k.putState t exited).parentPid t = p.val := hp
  have hmark : k.markExited t =
      ((k.putState t exited).taskWake p.val).signalSend p.val Signal.sigChld := by
    unfold Kernel.markExited
    dsimp only
    rw [hparent, if_pos (Int.natCast_nonneg p.val)]
  intro hblocked
  rw [hmark] at hblocked
  have hwake := (signalSend_roused _ _ _).blocked_of hblocked
  exact taskWake_target (show p.val < (k.putState t exited).nextPid from hlt) hwake

theorem taskExit_moves (h : k.Ok l) (hw : w) (hx : x) :
    ∃ k' l', k.taskExit t = some k' ∧ k'.Ok l' ∧ Moves (some t) w x k k' := by
  have hmark := markExited_roused k t
  obtain ⟨k', l', hstep, hok, hmoves⟩ :=
    ((h.putState t exited).woken hmark.toWoken).schedule_moves
  exact ⟨k', l', hstep, hok, Moves.put rfl (fun _ => hx) (Moves.wake hw hmark hmoves)⟩

/-- A tick wakes sleepers and perhaps calls `schedule`. -/
theorem schedulerTick_cases (k : Kernel) :
    ∃ k₁, Roused k k₁ ∧ (k.schedulerTick = some k₁ ∨ k.schedulerTick = k₁.schedule) := by
  obtain ⟨k₁, hk1, hroused⟩ : ∃ k₁, k₁ = (if 0 < (k.tickCount + 1) % 2 ^ 32 then
      { k with tickCount := (k.tickCount + 1) % 2 ^ 32 }.wakeSleepers
      else { k with tickCount := (k.tickCount + 1) % 2 ^ 32 }) ∧ Roused k k₁ := by
    refine ⟨_, rfl, ?_⟩
    have hcount : Roused k { k with tickCount := (k.tickCount + 1) % 2 ^ 32 } :=
      ⟨⟨rfl, rfl, rfl, rfl, fun _ => Or.inl rfl⟩, fun _ _ => ⟨rfl, rfl⟩⟩
    split
    · exact hcount.trans (wakeSleepers_roused _)
    · exact hcount
  have htick : k.schedulerTick =
      if k₁.tickCount % timeSlice = 0 then k₁.schedule else some k₁ := by
    rw [hk1]
    rfl
  refine ⟨k₁, hroused, ?_⟩
  rw [htick]
  split
  · exact Or.inr rfl
  · exact Or.inl rfl

theorem schedulerTick_moves (h : k.Ok l) (hw : w) :
    ∃ k' l', k.schedulerTick = some k' ∧ k'.Ok l' ∧ Moves o w x k k' := by
  obtain ⟨k₁, hroused, htick⟩ := schedulerTick_cases k
  rcases htick with htick | htick
  · exact ⟨k₁, l, htick, h.woken hroused.toWoken, Moves.wake hw hroused (Moves.done k₁)⟩
  · obtain ⟨k', l', hstep, hok, hmoves⟩ := (h.woken hroused.toWoken).schedule_moves
    exact ⟨k', l', htick.trans hstep, hok, Moves.wake hw hroused hmoves⟩

theorem Kernel.Ok.taskFork {cloned : Bool} (h : k.Ok l) :
    ∃ l', (k.taskFork t cloned).Ok l' := by
  unfold Kernel.taskFork Kernel.taskAlloc
  by_cases hfull : k.nextPid < maxTasks
  · rw [dif_pos hfull]
    dsimp only
    have hnew : (⟨k.nextPid, hfull⟩ : Task) ∉ l := by
      intro hmem
      exact absurd (h.allocated _ hmem) (lt_irrefl k.nextPid)
    have hqueued : Scheduled { k.toScheduler with
        state := update k.state ⟨k.nextPid, hfull⟩ ready
        next := update k.next ⟨k.nextPid, hfull⟩ none } l :=
      ⟨⟨h.scheduled.queue.links.update hnew none, h.scheduled.queue.tail_eq,
        h.scheduled.queue.nodup⟩, h.scheduled.current_mem⟩
    have hallocated : ∀ u ∈ l, u.val < k.nextPid + 1 :=
      fun u hu => (h.allocated u hu).trans (Nat.lt_succ_self _)
    cases cloned with
    | false => exact ⟨l, hqueued, hallocated⟩
    | true =>
      rw [if_pos rfl]
      refine ⟨l ++ [⟨k.nextPid, hfull⟩], hqueued.add hnew, ?_⟩
      intro u hu
      rcases List.mem_append.mp hu with hu | hu
      · exact hallocated u hu
      · rw [List.mem_singleton.mp hu]
        exact Nat.lt_succ_self _
  · rw [dif_neg hfull]
    exact ⟨l, h⟩

end Calls

section Events

/-- The events that call `task_wake`, `signal_send` or `scheduler_tick`. -/
def Event.wakes : Event → Prop
  | .exit _ => True
  | .wake _ => True
  | .kill _ _ => True
  | .tick => True
  | _ => False

/-- The event is a call of `task_exit` by the current task. -/
def Machine.exits (m : Machine) (e : Event) : Prop :=
  ∃ t status, m.sys.current = some t ∧ m.call t = none ∧ e = .exit status

variable {m : Machine} {e : Event} {w x : Prop} {o : Option Task}

/-- `m'` follows from `m` by an event of `o`. -/
structure StepEffect (o : Option Task) (w x : Prop) (m m' : Machine) : Prop where
  sound : ∃ l, m'.sys.Ok l
  effect : Effect o w x m.sys m'.sys
  call_eq : ∀ u, o ≠ some u → m'.call u = m.call u

structure StepMoves (o : Option Task) (w x : Prop) (m m' : Machine) : Prop where
  sound : ∃ l, m'.sys.Ok l
  moves : Moves o w x m.sys m'.sys
  call_eq : ∀ u, o ≠ some u → m'.call u = m.call u

theorem StepMoves.stepEffect {m' : Machine} (h : StepMoves o w x m m') :
    StepEffect o w x m m' :=
  ⟨h.sound, h.moves.effect, h.call_eq⟩

theorem StepMoves.refl (h : m.sys.Ok l) :
    StepMoves o w x m m :=
  ⟨⟨l, h⟩, Moves.done _, fun _ _ => rfl⟩

theorem StepMoves.putSys {ok : Option Kernel} {g : Machine}
    (h : ∃ k' l', ok = some k' ∧ k'.Ok l' ∧ Moves o w x m.sys k')
    (hcall : ∀ u, o ≠ some u → g.call u = m.call u) :
    ∃ m', ok.map g.putSys = some m' ∧ StepMoves o w x m m' := by
  obtain ⟨k', l', hok, hsound, hmoves⟩ := h
  refine ⟨g.putSys k', ?_, ⟨l', hsound⟩, hmoves, hcall⟩
  rw [hok, Option.map_some]

theorem putCall_of_ne {c : Option Call} (h : some t ≠ some u) :
    (m.putCall t c).call u = m.call u :=
  update_of_ne (fun heq => h (congrArg some heq.symm)) _ _

theorem findChild_some {pid : Int} {c : Task} (h : k.findChildExitedPid t.val pid = some c) :
    c.val < k.nextPid ∧ k.parentPid c = t.val ∧ k.state c = exited ∧
      (pid ≤ 0 ∨ (c.val : Int) = pid) := by
  obtain ⟨hlt, htest⟩ := findTask_some h
  simp only [Bool.and_eq_true, decide_eq_true_eq] at htest
  exact ⟨hlt, htest.1.1, htest.1.2, htest.2⟩

variable (h : m.sys.Ok l)
include h

theorem waitLoop_moves {pid : Int} {options : BitVec 32} :
    ∃ m', m.waitLoop t pid options = some m' ∧ StepMoves (some t) w x m m' := by
  unfold Machine.waitLoop
  cases hfind : m.sys.findChildExitedPid t.val pid with
  | some child =>
    refine ⟨_, rfl, ⟨l, h.congr rfl rfl⟩, Noted.moves ⟨rfl, rfl, ?_, ?_⟩,
      fun u hu => putCall_of_ne hu⟩
    · intro u
      by_cases hu : u = child
      · exact Or.inr ⟨t, rfl, hu ▸ (findChild_some hfind).2.1⟩
      · exact Or.inl (update_of_ne hu _ _)
    · exact fun _ _ => ⟨rfl, rfl⟩
  | none =>
    dsimp only
    split
    · exact ⟨_, rfl, ⟨l, h⟩, Moves.done _, fun u hu => putCall_of_ne hu⟩
    · exact StepMoves.putSys (taskBlock_moves h) (fun u hu => putCall_of_ne hu)

theorem sleepLoop_moves :
    ∃ m', m.sleepLoop t = some m' ∧ StepMoves (some t) w x m m' := by
  unfold Machine.sleepLoop
  split
  · exact StepMoves.putSys h.schedule_moves (fun u hu => putCall_of_ne hu)
  · exact ⟨_, rfl, ⟨l, h.putState t running⟩,
      Moves.put rfl (by intro heq; cases heq) (Moves.done _), fun u hu => putCall_of_ne hu⟩

theorem sysNanosleep_moves {sec nsec : Int} :
    ∃ m', m.sysNanosleep t sec nsec = some m' ∧ StepMoves (some t) w x m m' := by
  unfold Machine.sysNanosleep
  split
  · exact ⟨m, rfl, StepMoves.refl h⟩
  dsimp only
  obtain ⟨k₁, hk1⟩ : ∃ k₁ : Kernel, { m.sys with
      wakeupTick := update m.sys.wakeupTick t
        ((m.sys.tickCount + Machine.totalTicks sec nsec) % 2 ^ 32) } = k₁ :=
    ⟨_, rfl⟩
  have hok : k₁.Ok l := hk1 ▸ h.congr rfl rfl
  have hnoted : Noted (some t) m.sys k₁ :=
    hk1 ▸ ⟨rfl, rfl, fun _ => Or.inl rfl, fun _ _ => ⟨rfl, rfl⟩⟩
  rw [hk1]
  obtain ⟨m', hloop, hsound, hmoves, hcall⟩ :=
    sleepLoop_moves (m := m.putSys (k₁.putState t blocked)) (hok.putState t blocked)
  exact ⟨m', hloop, hsound,
    Moves.note hnoted (Moves.put rfl (by intro heq; cases heq) hmoves), hcall⟩

theorem userStep_moves (hx : ∀ status, e = .exit status → x) :
    ∃ m', m.userStep t e = some m' ∧ StepMoves (some t) e.wakes x m m' := by
  have hfrom : ∀ {k' : Kernel}, Roused m.sys k' → e.wakes →
      StepMoves (some t) e.wakes x m (m.putSys k') := by
    intro k' hroused hwakes
    exact ⟨⟨l, h.woken hroused.toWoken⟩, Moves.wake hwakes hroused (Moves.done _), fun _ _ => rfl⟩
  cases e with
  | fork cloned => exact ⟨_, rfl, h.taskFork, Moves.fork, fun _ _ => rfl⟩
  | exit status =>
    have hok : Kernel.Ok { m.sys with
        exitStatus := update m.sys.exitStatus t status } l := h.congr rfl rfl
    obtain ⟨k', l', hstep, hok', hmoves⟩ := taskExit_moves hok trivial (hx status rfl)
    have hnoted : Noted (some t) m.sys { m.sys with
        exitStatus := update m.sys.exitStatus t status } :=
      ⟨rfl, rfl, fun _ => Or.inl rfl, fun _ _ => ⟨rfl, rfl⟩⟩
    exact StepMoves.putSys (g := { m with given := update m.given t status })
      ⟨k', l', hstep, hok', Moves.note hnoted hmoves⟩ (fun _ _ => rfl)
  | waitpid pid options => exact waitLoop_moves h
  | block => exact StepMoves.putSys (taskBlock_moves h) (fun _ _ => rfl)
  | wake pid => exact ⟨_, rfl, hfrom (taskWake_roused _ _) trivial⟩
  | kill pid sig =>
    simp only [Machine.userStep]
    split
    · exact ⟨m, rfl, StepMoves.refl h⟩
    · exact ⟨_, rfl, hfrom (signalSend_roused _ _ _) trivial⟩
  | signals pending mask =>
    refine ⟨_, rfl, ⟨l, h.congr rfl rfl⟩,
      Noted.moves ⟨rfl, rfl, fun _ => Or.inl rfl, ?_⟩, fun _ _ => rfl⟩
    intro u hu
    have hne : u ≠ t := fun heq => hu (congrArg some heq.symm)
    exact ⟨update_of_ne hne _ _, update_of_ne hne _ _⟩
  | yield => exact StepMoves.putSys h.schedule_moves (fun _ _ => rfl)
  | nanosleep sec nsec => exact sysNanosleep_moves h
  | resume => exact ⟨m, rfl, StepMoves.refl h⟩
  | tick => exact StepMoves.putSys (schedulerTick_moves h trivial) (fun _ _ => rfl)

theorem callStep_moves {c : Call} :
    ∃ m', m.callStep t c e = some m' ∧ StepMoves (some t) e.wakes x m m' := by
  unfold Machine.callStep
  split
  · exact waitLoop_moves h
  · exact sleepLoop_moves h
  · exact StepMoves.putSys (schedulerTick_moves h trivial) (fun _ _ => rfl)
  · exact ⟨m, rfl, StepMoves.refl h⟩

theorem step_moves :
    ∃ m', m.step e = some m' ∧ StepMoves m.sys.current e.wakes (m.exits e) m m' := by
  unfold Machine.step
  cases hcurrent : m.sys.current with
  | none =>
    dsimp only
    split
    · rename_i htick
      subst htick
      exact StepMoves.putSys (schedulerTick_moves h trivial) (fun _ _ => rfl)
    · exact ⟨m, rfl, StepMoves.refl h⟩
  | some t =>
    dsimp only
    cases hcall : m.call t with
    | none =>
      apply userStep_moves h
      intro status he
      exact ⟨t, status, hcurrent, hcall, he⟩
    | some c => exact callStep_moves h

theorem step_effect :
    ∃ m', m.step e = some m' ∧ StepEffect m.sys.current e.wakes (m.exits e) m m' := by
  obtain ⟨m', hstep, hmoves⟩ := step_moves h
  exact ⟨m', hstep, hmoves.stepEffect⟩

end Events

section Runs

variable {m m' : Machine} {e : Event} {es : List Event}

theorem run_append {es' : List Event} :
    m.run (es ++ es') = (m.run es).bind (fun m' => m'.run es') := by
  simp [Machine.run]

theorem run_cons (h : m.step e = some m') :
    m.run (e :: es) = m'.run es := by
  simp [Machine.run, h]

theorem run_concat (h : m.run es = some m') :
    m.run (es ++ [e]) = m'.step e := by
  rw [run_append, h]
  simp [Machine.run]

theorem boot_ok :
    bootKernel.Ok [0, 1] where
  scheduled := (boot_scheduled.add (t := 0) (by simp)).add (by decide)
  allocated := by
    intro t ht
    rcases List.mem_cons.mp ht with rfl | ht
    · decide
    · rw [List.mem_singleton.mp ht]
      decide

theorem run_sound (h : ∃ l, m.sys.Ok l) :
    ∃ m', m.run es = some m' ∧ ∃ l, m'.sys.Ok l := by
  apply Run.foldlM_total (I := fun m : Machine => ∃ l, m.sys.Ok l) h
  rintro m e ⟨l, hl⟩
  obtain ⟨m', hstep, heffect⟩ := step_effect (e := e) hl
  exact ⟨m', hstep, heffect.sound⟩

theorem boot_run_sound (es : List Event) :
    ∃ m, bootMachine.run es = some m ∧ ∃ l, m.sys.Ok l :=
  run_sound ⟨[0, 1], boot_ok⟩

end Runs

end Sched
end Homunculos
