import Homunculos.Sched.Effects

/-!
# Tasks that must not go on

`schedule` returns to its caller when no task of the queue is READY.  For a
caller that has just exited or blocked this is wrong: an EXITED task goes back
to user code, and a task that waits goes round its loop with interrupts off.
Both happen exactly when nothing is READY at that moment; a parent that waits counts
as READY for the exit of its child.
-/

namespace Homunculos
namespace Sched

open Function

open TaskState (ready blocked exited)

/-- Another task of the queue is READY, or it is BLOCKED and the parent of `t`. -/
def ExitReady (k : Kernel) (t : Task) : Prop :=
  ∃ l, Queue k.toScheduler l ∧ ∃ u ∈ l, u ≠ t ∧
    (k.state u = ready ∨ k.state u = blocked ∧ k.parentPid t = u.val)

/-- The event is a call of `task_block` by `t`. -/
def Machine.blocks (m : Machine) (t : Task) : Event → Prop
  | .block => m.call t = none
  | .waitpid pid options =>
    m.call t = none ∧ m.sys.findChildExitedPid t.val pid = none ∧ options &&& wnohang = 0
  | .resume =>
    ∃ pid options, m.call t = some (.waitpid pid options) ∧
      m.sys.findChildExitedPid t.val pid = none ∧ options &&& wnohang = 0
  | _ => False

/-- The call in which `task_block` suspends `t`. -/
def Machine.suspends (m : Machine) (t : Task) : Event → Option Call
  | .waitpid pid options => some (.waitpid pid options)
  | .resume => m.call t
  | _ => none

section Steps

variable {m m' : Machine} {e : Event} {l : List Task} {t : Task}

theorem taskWake_other {k : Kernel} {pid : Int} {u : Task} (hu : (u.val : Int) ≠ pid) :
    (k.taskWake pid).state u = k.state u := by
  unfold Kernel.taskWake
  split
  · rfl
  next i hfind =>
    have htest := (findTask_some hfind).2
    simp only [Bool.and_eq_true, decide_eq_true_eq] at htest
    refine update_of_ne ?_ _ _
    rintro rfl
    exact hu htest.1

theorem signalSend_other {k : Kernel} {pid : Int} {sig : Nat} {u : Task}
    (hu : (u.val : Int) ≠ pid) :
    (k.signalSend pid sig).state u = k.state u := by
  unfold Kernel.signalSend
  split
  · rfl
  split
  · rfl
  next i hfind =>
    have htest := (findTask_some hfind).2
    simp only [Bool.and_eq_true, decide_eq_true_eq] at htest
    dsimp only
    split
    · refine update_of_ne ?_ _ _
      rintro rfl
      exact hu htest.1
    · rfl

/-- Of the other tasks only the parent is woken. -/
theorem markExited_other {k : Kernel} {u : Task} (hut : u ≠ t) (hu : k.parentPid t ≠ u.val) :
    (k.markExited t).state u = k.state u := by
  have hput : (k.putState t exited).state u = k.state u := update_of_ne hut _ _
  unfold Kernel.markExited
  dsimp only
  split
  · exact ((signalSend_other hu.symm).trans (taskWake_other hu.symm)).trans hput
  · exact hput

/-- What is READY when a task that exits calls `schedule`. -/
theorem someReady_markExited_iff {k : Kernel} (h : k.Ok l) :
    SomeReady (k.markExited t) ↔ ExitReady k t := by
  have hwoken := (markExited_roused k t).toWoken
  have hready : ExitReady k t ↔ ∃ u ∈ l, u ≠ t ∧
      (k.state u = ready ∨ k.state u = blocked ∧ k.parentPid t = u.val) := by
    constructor
    · rintro ⟨l', hl', hready⟩
      rwa [hl'.unique h.scheduled.queue] at hready
    · exact fun hready => ⟨l, h.scheduled.queue, hready⟩
  rw [((h.putState t exited).woken hwoken).someReady_iff, hready]
  refine exists_congr fun u => and_congr_right fun hmem => ?_
  by_cases hut : u = t
  · subst hut
    have hexited : (k.markExited u).state u = exited := (hwoken.exited_iff u).mpr (update_self ..)
    simp [hexited]
  by_cases hparent : k.parentPid t = u.val
  · have hput : (k.putState t exited).state u = k.state u := update_of_ne hut _ _
    have hnot := markExited_parent hparent (h.allocated u hmem)
    rcases hwoken.state_cases u with hsame | ⟨hblocked, hready⟩
    · rw [hsame, hput] at hnot ⊢
      simp [hut, hnot]
    · rw [hput] at hblocked
      simp [hut, hblocked, hready, hparent]
  · rw [markExited_other hut hparent]
    simp [hut, hparent]

theorem exit_step
    {status : Int} (h : m.sys.Ok l) (ht : m.sys.current = some t) (hcall : m.call t = none)
    (hstep : m.step (.exit status) = some m') :
    m'.sys.state t = exited ∧ (m'.sys.current = some t ↔ ¬ ExitReady m.sys t) := by
  obtain ⟨k, hk⟩ : ∃ k, k = { m.sys with exitStatus := update m.sys.exitStatus t status } :=
    ⟨_, rfl⟩
  have hgiven : k.Ok l := h.congr (by rw [hk]) (by rw [hk])
  have hwoken := (markExited_roused k t).toWoken
  have hok : (k.markExited t).Ok l := (hgiven.putState t exited).woken hwoken
  have hexited : (k.markExited t).state t = exited :=
    (hwoken.exited_iff t).mpr (update_self ..)
  have hcurrent : (k.markExited t).current = some t := by
    rw [hwoken.current_eq, hk]
    exact ht
  have hready : ExitReady m.sys t ↔ ExitReady k t := by
    rw [hk]
    rfl
  obtain ⟨k', l', hschedule, -, -, hswitched⟩ := hok.schedule
  have hsys : m'.sys = k' := by
    have hmap : m.step (.exit status) = (k.markExited t).schedule.map
        { m with given := update m.given t status }.putSys := by
      rw [hk]
      simp only [Machine.step, ht, hcall]
      rfl
    rw [hmap, hschedule] at hstep
    rw [← Option.some.inj hstep]
    rfl
  rw [hsys]
  refine ⟨(hswitched.exited_iff t).mpr hexited, ?_⟩
  rw [hready, ← someReady_markExited_iff hgiven]
  exact schedule_returns_iff hok hcurrent (Or.inl hexited) hschedule

/-- A call of `task_block` is one call of `schedule` by a BLOCKED task. -/
theorem blocks_step
    (ht : m.sys.current = some t) (hblocks : m.blocks t e) (hstep : m.step e = some m') :
    m.sys.taskBlock t = some m'.sys ∧ m'.call t = m.suspends t e := by
  have hmap : ∃ g : Machine, g.call t = m.suspends t e ∧
      m.step e = (m.sys.taskBlock t).map g.putSys := by
    cases e with
    | block =>
      have hcall : m.call t = none := hblocks
      exact ⟨m, hcall, by simp only [Machine.step, ht, hcall]; rfl⟩
    | waitpid pid options =>
      obtain ⟨hcall, hfind, hoptions⟩ := hblocks
      refine ⟨m.putCall t (some (.waitpid pid options)), update_self .., ?_⟩
      simp only [Machine.step, ht, hcall, Machine.userStep, Machine.waitLoop, hfind,
        hoptions, ne_eq, not_true_eq_false, if_false]
    | resume =>
      obtain ⟨pid, options, hcall, hfind, hoptions⟩ := hblocks
      refine ⟨m.putCall t (some (.waitpid pid options)), (update_self ..).trans hcall.symm, ?_⟩
      simp only [Machine.step, ht, hcall, Machine.callStep, Machine.waitLoop, hfind,
        hoptions, ne_eq, not_true_eq_false, if_false]
    | _ => exact hblocks.elim
  obtain ⟨g, hcall, hg⟩ := hmap
  rw [hg, Option.map_eq_some_iff] at hstep
  obtain ⟨k', hk', rfl⟩ := hstep
  exact ⟨hk', hcall⟩

theorem block_step (h : m.sys.Ok l) (ht : m.sys.current = some t) (hblocks : m.blocks t e)
    (hstep : m.step e = some m') :
    m'.sys.state t = blocked ∧
      (m'.sys.current = some t ↔ ¬ SomeReady (m.sys.putState t blocked)) := by
  have hschedule : (m.sys.putState t blocked).schedule = some m'.sys :=
    (blocks_step ht hblocks hstep).1
  have hok := h.putState t blocked
  have hblocked : (m.sys.putState t blocked).state t = blocked := update_self ..
  obtain ⟨k', l', hschedule', -, -, hswitched⟩ := hok.schedule
  obtain rfl : k' = m'.sys := Option.some.inj (hschedule'.symm.trans hschedule)
  refine ⟨(hswitched.blocked_iff t).mpr hblocked, ?_⟩
  exact schedule_returns_iff hok ht (Or.inr hblocked) hschedule

end Steps

section Exit

/-- In every state of the run the current task is not EXITED. -/
def ExitedStops (es : List Event) : Prop :=
  ∀ pre m t, pre <+: es → bootMachine.run pre = some m →
    m.sys.current = some t → m.sys.state t ≠ exited

/-- At every exit of the run another queued task is READY, or the parent is BLOCKED and queued. -/
def ExitFindsReady (es : List Event) : Prop :=
  ∀ pre status m t, pre ++ [.exit status] <+: es → bootMachine.run pre = some m →
    m.sys.current = some t → m.call t = none → ExitReady m.sys t

/-- In every run an EXITED task never executes again exactly if, at every exit,
another task of the run queue is READY or the parent is BLOCKED in it. -/
theorem exited_stops_iff
    (es : List Event) :
    ∃ m, bootMachine.run es = some m ∧ (ExitedStops es ↔ ExitFindsReady es) := by
  obtain ⟨m, hm, -⟩ := boot_run_sound es
  refine ⟨m, hm, ?_⟩
  constructor
  · intro hstops pre status m t hpre hrun ht hcall
    obtain ⟨m₁, hrun1, l, hl⟩ := boot_run_sound pre
    obtain rfl : m = m₁ := Option.some.inj (hrun.symm.trans hrun1)
    obtain ⟨m', hstep, -⟩ := step_effect (e := .exit status) hl
    obtain ⟨hexited, hreturns⟩ := exit_step hl ht hcall hstep
    by_contra hnone
    exact hstops _ m' t hpre ((run_concat hrun).trans hstep) (hreturns.mpr hnone) hexited
  · intro hready pre
    induction pre using List.reverseRecOn with
    | nil =>
      intro m t _ hrun ht
      obtain rfl := Option.some.inj hrun
      cases ht
    | append_singleton pre e ih =>
      intro m t hpre hrun ht
      have hpre' : pre <+: es := (List.prefix_append pre [e]).trans hpre
      obtain ⟨m₁, hrun1, l, hl⟩ := boot_run_sound pre
      rw [run_concat hrun1] at hrun
      obtain ⟨m', hstep, heffect⟩ := step_effect (e := e) hl
      obtain rfl : m = m' := Option.some.inj (hrun.symm.trans hstep)
      rcases heffect.effect.current_cases with hsame | ⟨u, hu, -, hlive⟩
      · rw [ht] at hsame
        intro hexited
        have hlt := hl.current_lt hsame.symm
        rcases heffect.effect.exited_of t hlt hexited with hbefore | ⟨-, u, status, hu, hcall, rfl⟩
        · exact ih m₁ t hpre' hrun1 hsame.symm hbefore
        · -- the exit itself came back to the task
          obtain rfl : u = t := Option.some.inj (hu.symm.trans hsame.symm)
          have hreturns := (exit_step hl hu hcall hstep).2
          exact hreturns.mp ht (hready pre status m₁ u hpre hrun1 hu hcall)
      · obtain rfl : u = t := Option.some.inj (hu.symm.trans ht)
        exact hlive

/-- Init forks a task, which forks another one and exits; init takes `SIGCHLD` and sleeps, and its
waiter waits. The exit of the last task returns to it. -/
theorem exited_task_runs :
    (bootMachine.run (List.replicate 10 .tick ++
      [.yield, .waitpid (-1) 0#32, .fork true, .yield, .fork true, .exit 0,
        .signals 0#32 0#32, .nanosleep 5 0, .exit 0])).map
      (fun m => (m.sys.current, m.sys.state 3, m.call 3)) = some (some 3, exited, none) := by
  decide +kernel

end Exit

section Block

/-- Whenever the caller of `task_block` runs again, an event of another task or
of the timer has woken it in between. -/
def BlockWaits (es : List Event) : Prop :=
  ∀ pre e b rest m m' t, es = pre ++ e :: (b ++ rest) → bootMachine.run pre = some m →
    m.sys.current = some t → m.blocks t e →
    bootMachine.run (pre ++ e :: b) = some m' → m'.sys.current = some t →
      ∃ b₁ w b₂ m₁ m₂, b = b₁ ++ w :: b₂ ∧ bootMachine.run (pre ++ e :: b₁) = some m₁ ∧
        m₁.step w = some m₂ ∧ m₁.sys.current ≠ some t ∧ w.wakes ∧
        m₁.sys.state t = blocked ∧ m₂.sys.state t ≠ blocked

/-- At every call of `task_block` another task of the queue is READY. -/
def BlockFindsReady (es : List Event) : Prop :=
  ∀ pre e post m t, es = pre ++ e :: post → bootMachine.run pre = some m →
    m.sys.current = some t → m.blocks t e → SomeReady (m.sys.putState t blocked)

theorem woken_before_current
    {m m' : Machine} {b : List Event} {l : List Task} {t : Task} (h : m.sys.Ok l)
    (hlt : t.val < m.sys.nextPid) (hcurrent : m.sys.current ≠ some t)
    (hblocked : m.sys.state t = blocked) (hrun : m.run b = some m') (ht : m'.sys.current = some t) :
    ∃ b₁ w b₂ m₁ m₂, b = b₁ ++ w :: b₂ ∧ m.run b₁ = some m₁ ∧ m₁.step w = some m₂ ∧
      m₁.sys.current ≠ some t ∧ w.wakes ∧
      m₁.sys.state t = blocked ∧ m₂.sys.state t ≠ blocked := by
  induction b generalizing m l with
  | nil =>
    obtain rfl := Option.some.inj hrun
    exact absurd ht hcurrent
  | cons w b ih =>
    obtain ⟨m₁, hstep, heffect⟩ := step_effect (e := w) h
    by_cases hstill : m₁.sys.state t = blocked
    · have hcurrent1 : m₁.sys.current ≠ some t := by
        rcases heffect.effect.current_cases with hsame | ⟨u, hu, hlive, -⟩
        · rwa [hsame]
        · rw [hu]
          intro heq
          exact hlive (Option.some.inj heq ▸ hstill)
      obtain ⟨l1, hl1⟩ := heffect.sound
      rw [run_cons hstep] at hrun
      obtain ⟨b₁, w', b₂, m₂, m3, rfl, hrun2, hrest⟩ :=
        ih hl1 (hlt.trans_le heffect.effect.nextPid_le) hcurrent1 hstill hrun
      exact ⟨w :: b₁, w', b₂, m₂, m3, rfl, (run_cons hstep).trans hrun2, hrest⟩
    · exact ⟨[], w, b, m, m₁, rfl, rfl, hstep, hcurrent,
        heffect.effect.woken t hlt hcurrent hblocked hstill, hblocked, hstill⟩

/-- In every run `task_block` returns only after its caller has been woken exactly
if, at every call of it, another task of the run queue is READY. -/
theorem block_waits_iff
    (es : List Event) :
    ∃ m, bootMachine.run es = some m ∧ (BlockWaits es ↔ BlockFindsReady es) := by
  obtain ⟨m, hm, -⟩ := boot_run_sound es
  refine ⟨m, hm, ?_⟩
  constructor
  · intro hwaits pre e post m t hes hrun ht hblocks
    obtain ⟨m₁, hrun1, l, hl⟩ := boot_run_sound pre
    obtain rfl : m = m₁ := Option.some.inj (hrun.symm.trans hrun1)
    obtain ⟨m', hstep, -⟩ := step_effect (e := e) hl
    by_contra hnone
    have hreturns := (block_step hl ht hblocks hstep).2.mpr hnone
    obtain ⟨b₁, w, b₂, _, _, hempty, _⟩ :=
      hwaits pre e [] post m m' t hes hrun ht hblocks ((run_concat hrun).trans hstep) hreturns
    simp at hempty
  · intro hready pre e b rest m m' t hes hrun ht hblocks hrun' ht'
    obtain ⟨m₁, hrun1, l, hl⟩ := boot_run_sound pre
    obtain rfl : m = m₁ := Option.some.inj (hrun.symm.trans hrun1)
    obtain ⟨m₂, hstep, heffect⟩ := step_effect (e := e) hl
    obtain ⟨hblocked, hreturns⟩ := block_step hl ht hblocks hstep
    have hgone : m₂.sys.current ≠ some t := by
      intro hback
      exact hreturns.mp hback (hready pre e (b ++ rest) m t hes hrun ht hblocks)
    have hlt : t.val < m₂.sys.nextPid :=
      (hl.current_lt ht).trans_le heffect.effect.nextPid_le
    have hjoin : ∀ es', bootMachine.run (pre ++ e :: es') = m₂.run es' := by
      intro es'
      rw [run_append, hrun, Option.bind_some, run_cons hstep]
    obtain ⟨l2, hl2⟩ := heffect.sound
    rw [hjoin] at hrun'
    obtain ⟨b₁, w, b₂, m3, m4, rfl, hrun3, hrest⟩ :=
      woken_before_current hl2 hlt hgone hblocked hrun' ht'
    exact ⟨b₁, w, b₂, m3, m4, rfl, (hjoin b₁).trans hrun3, hrest⟩

/-- Init blocks on a pipe while its waiter waits: `task_block` returns at once. -/
theorem block_returns_at_once :
    (bootMachine.run (List.replicate 10 .tick ++ [.yield, .waitpid (-1) 0#32, .block])).map
      (fun m => (m.sys.current, m.sys.state 0, m.call 0)) = some (some 0, blocked, none) := by
  decide +kernel

end Block

end Sched
end Homunculos
