import Homunculos.Sched.Interrupted
import Homunculos.Sched.Waitpid

/-!
# Waiting for a child that does not exist

The loop of `task_waitpid` looks for an EXITED child and blocks if it finds none; it
does not look for a child that could still exit.
-/

namespace Homunculos
namespace Sched

open TaskState (blocked)

/-- The task has a child that `task_waitpid (pid)` looks for. A child that has been returned has
lost its parent. -/
def Kernel.HasChild (k : Kernel) (p : Task) (pid : Int) : Prop :=
  ∃ c : Task, c.val < k.nextPid ∧ k.parentPid c = p.val ∧ Wants pid c

/-- Every task that is BLOCKED in `task_waitpid` has a child to wait for. -/
def Machine.NoneChildless (m : Machine) : Prop :=
  ∀ p pid options, m.call p = some (.waitpid pid options) → m.sys.state p = blocked →
    m.sys.HasChild p pid

/-- The event calls `task_block` in `task_waitpid` only for a task with a child to wait
for. -/
def Machine.BlocksForChild (m : Machine) (e : Event) : Prop :=
  ∀ t pid options, m.sys.current = some t → m.blocks t e →
    m.suspends t e = some (.waitpid pid options) → m.sys.HasChild t pid

/-- The queue is sound, and only allocated tasks are inside a call. -/
structure Machine.Ok (m : Machine) : Prop where
  queue : ∃ l, m.sys.Ok l
  allocated : ∀ p c, m.call p = some c → p.val < m.sys.nextPid

section Steps

variable {m m' : Machine} {e : Event} {k k' : Kernel} {l : List Task} {p t : Task} {pid : Int}

theorem Kernel.HasChild.congr
    (hnext : k'.nextPid = k.nextPid) (hparent : k'.parentPid = k.parentPid) :
    k'.HasChild p pid ↔ k.HasChild p pid := by
  unfold Kernel.HasChild
  rw [hnext, hparent]

theorem Moves.hasChild {o : Option Task} {w x : Prop} (h : Moves o w x k k') (hp : o ≠ some p)
    (hchild : k.HasChild p pid) :
    k'.HasChild p pid := by
  induction h with
  | done k => exact hchild
  | switch hswitched =>
    exact (Kernel.HasChild.congr hswitched.nextPid_eq hswitched.parentPid_eq).mpr hchild
  | @fork k t cloned =>
    obtain ⟨c, hc, hparent, hwants⟩ := hchild
    obtain ⟨-, hnext, hkept⟩ := taskFork_kept k t cloned
    exact ⟨c, hc.trans_le hnext, (hkept c hc).parent_eq.trans hparent, hwants⟩
  | put _ _ _ ih => exact ih hchild
  | note hnoted _ ih =>
    obtain ⟨c, hc, hparent, hwants⟩ := hchild
    refine ih ⟨c, hnoted.nextPid_eq ▸ hc, ?_, hwants⟩
    rcases hnoted.parent_cases c with hsame | ⟨t, ho, ht⟩
    · exact hsame.trans hparent
    · obtain rfl : t = p := Fin.ext (Int.natCast_inj.mp (ht.symm.trans hparent))
      exact absurd ho hp
  | wake _ hroused _ ih =>
    exact ih ((Kernel.HasChild.congr hroused.nextPid_eq hroused.parentPid_eq).mpr hchild)

theorem blocks_hasChild (h : m.sys.Ok l) (ht : m.sys.current = some t) (hblocks : m.blocks t e)
    (hstep : m.step e = some m') :
    m'.sys.HasChild t pid ↔ m.sys.HasChild t pid := by
  have hschedule : (m.sys.putState t blocked).schedule = some m'.sys :=
    (blocks_step ht hblocks hstep).1
  obtain ⟨k', -, hschedule', -, -, hswitched⟩ := (h.putState t blocked).schedule
  obtain rfl : k' = m'.sys := Option.some.inj (hschedule'.symm.trans hschedule)
  exact Kernel.HasChild.congr hswitched.nextPid_eq hswitched.parentPid_eq

/-- Every event returns, and nobody waits in vain afterwards exactly if it blocks no
task in `task_waitpid` that has no child to wait for. -/
theorem Machine.Ok.step (h : m.Ok) (e : Event) :
    ∃ m', m.step e = some m' ∧ m'.Ok ∧
      (m.NoneChildless → (m'.NoneChildless ↔ m.BlocksForChild e)) := by
  obtain ⟨l, hl⟩ := h.queue
  obtain ⟨m', hstep, hmoves⟩ := step_moves (e := e) hl
  have heffect := hmoves.moves.effect
  refine ⟨m', hstep, ⟨hmoves.sound, ?_⟩, fun hnone => ⟨?_, ?_⟩⟩
  · intro p c hp
    refine lt_of_lt_of_le ?_ heffect.nextPid_le
    by_cases hcur : m.sys.current = some p
    · exact hl.current_lt hcur
    · exact h.allocated p c ((hmoves.call_eq p hcur).symm.trans hp)
  · intro hnone' t pid options ht hblocks hsuspends
    have hcall := (blocks_step ht hblocks hstep).2.trans hsuspends
    have hstate := (block_step hl ht hblocks hstep).1
    exact (blocks_hasChild hl ht hblocks hstep).mp (hnone' t pid options hcall hstate)
  · intro hok p pid options hcall hstate
    by_cases hcur : m.sys.current = some p
    · rcases waitpid_of_step hcur hstep hcall with hblocks | rfl
      · have hsuspends := (blocks_step hcur hblocks hstep).2.symm.trans hcall
        exact (blocks_hasChild hl hcur hblocks hstep).mpr
          (hok p pid options hcur hblocks hsuspends)
      · exact hnone p pid options hcall hstate
    · have hold := (hmoves.call_eq p hcur).symm.trans hcall
      have hblocked := heffect.blocked_of p (h.allocated p _ hold) hcur hstate
      exact hmoves.moves.hasChild hcur (hnone p pid options hold hblocked)

end Steps

/--
In every run from boot no task is ever BLOCKED in `task_waitpid` without a child that it
waits for, exactly if no task calls `task_block` there without such a child.
-/
theorem none_childless_iff
    (es : List Event) :
    ∃ m, bootMachine.run es = some m ∧
      ((∀ pre m, pre <+: es → bootMachine.run pre = some m → m.NoneChildless) ↔
        ∀ pre e m, pre ++ [e] <+: es → bootMachine.run pre = some m → m.BlocksForChild e) := by
  have hboot : bootMachine.Ok := by
    refine ⟨⟨[0, 1], boot_ok⟩, ?_⟩
    intro p c hp
    cases hp
  refine Run.foldlM_always_iff hboot ?_ (fun m e h => h.step e) es
  intro p pid options hp
  cases hp

/-- Init, which has no child yet, waits for one. -/
theorem childless_waits :
    ∃ m, bootMachine.run (List.replicate 10 .tick ++ [.waitpid (-1) 0#32]) = some m ∧
      m.call 0 = some (.waitpid (-1) 0#32) ∧ m.sys.state 0 = blocked ∧
      ¬ m.sys.HasChild 0 (-1) := by
  have hrun : (bootMachine.run (List.replicate 10 .tick ++ [.waitpid (-1) 0#32])).map
      (fun m => (m.call 0, m.sys.state 0, decide (∀ c : Task, m.sys.parentPid c ≠ 0))) =
      some (some (.waitpid (-1) 0#32), blocked, true) := by
    decide +kernel
  obtain ⟨m, hm, hfields⟩ := Option.map_eq_some_iff.mp hrun
  simp only [Prod.mk.injEq, decide_eq_true_eq] at hfields
  obtain ⟨hcall, hstate, hparent⟩ := hfields
  refine ⟨m, hm, hcall, hstate, ?_⟩
  rintro ⟨c, -, hc, -⟩
  exact hparent c hc

end Sched
end Homunculos
