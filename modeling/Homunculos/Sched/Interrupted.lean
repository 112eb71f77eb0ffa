import Homunculos.Sched.Blocking

/-!
# Signals for tasks that wait

`signal_send` makes a BLOCKED task READY.  The loop of `sys_nanosleep` tests for
pending signals when it goes on; the loops of `pipe_read_op`, `pipe_write_op` and
`task_waitpid` test their own condition only, and a task that was woken by a signal
that should end it blocks again.
-/

namespace Homunculos
namespace Sched

open Function

open TaskState (blocked)

/-- The machine with the handlers of every task, and the tasks that are inside a loop
of `pipe_read_op` or `pipe_write_op`. -/
structure SigMachine where
  base : Machine
  handlers : Task → Nat → BitVec 32
  inPipe : Task → Bool

inductive SigEvent where
  | event (e : Event)
  /-- `sys_signal` or `sys_rt_sigaction` of the current task. -/
  | sigaction (signum : Nat) (handler : BitVec 32)

namespace SigMachine

/-- A task that is current is inside a pipe operation only while it blocks there. -/
def inPipeAfter (m : SigMachine) (e : Event) : Task → Bool :=
  match m.base.sys.current with
  | none => m.inPipe
  | some t => update m.inPipe t (decide (e = .block) && (m.base.call t).isNone)

/-- A new task has the default actions. -/
def handlersAfter (m : SigMachine) (e : Event) : Task → Nat → BitVec 32 :=
  match m.base.sys.current, e with
  | some t, .fork _ =>
    if m.base.call t = none then
      fun u => if u.val = m.base.sys.nextPid then fun _ => Signal.sigDfl else m.handlers u
    else
      m.handlers
  | _, _ => m.handlers

/-- The checks of `sys_signal` and `sys_rt_sigaction`, and the assignment. -/
def setHandler (m : SigMachine) (t : Task) (signum : Nat) (handler : BitVec 32) : SigMachine :=
  if signum < 1 ∨ Signal.nsig ≤ signum ∨ signum = Signal.sigKill ∨ signum = Signal.sigStop then
    m
  else
    { m with handlers :=
        update m.handlers t (update (m.handlers t) signum handler) }

def step (m : SigMachine) : SigEvent → Option SigMachine
  | .event e =>
    (m.base.step e).map fun b =>
      { base := b, handlers := m.handlersAfter e, inPipe := m.inPipeAfter e }
  | .sigaction signum handler =>
    match m.base.sys.current with
    | none => some m
    | some t =>
      if m.base.call t = none then
        some ({ m with inPipe := update m.inPipe t false }.setHandler
          t signum handler)
      else
        some m

def run (m : SigMachine) (es : List SigEvent) : Option SigMachine :=
  es.foldlM step m

/-- The task is inside `pipe_read_op`, `pipe_write_op` or `task_waitpid`. -/
def Inside (m : SigMachine) (t : Task) : Prop :=
  m.inPipe t = true ∨ ∃ pid options, m.base.call t = some (.waitpid pid options)

/-- A signal with a terminating disposition is pending for the task and not masked. -/
def Doomed (m : SigMachine) (t : Task) : Prop :=
  ∃ sig, 1 ≤ sig ∧ sig < Signal.nsig ∧
    (m.base.sys.pendingSignals t &&& ~~~m.base.sys.signalMask t).getLsbD (sig - 1) = true ∧
    (sig = Signal.sigKill ∨ sig = Signal.sigStop ∨
      m.handlers t sig = Signal.sigDfl ∧ Signal.signalDefaultTerminates sig = true)

/-- No task waits in one of the three loops with a signal that should end it. -/
def NoneStuck (m : SigMachine) : Prop :=
  ∀ t, m.base.sys.state t = blocked → m.Inside t → ¬ m.Doomed t

/-- The event calls `task_block` in one of the three loops only for a task without a
signal that should end it. -/
def BlocksUndoomed (m : SigMachine) : SigEvent → Prop
  | .event e => ∀ t, m.base.sys.current = some t → m.base.blocks t e → ¬ m.Doomed t
  | .sigaction _ _ => True

end SigMachine

/-- The kernel has booted; all actions are the default ones. -/
def bootSig : SigMachine where
  base := bootMachine
  handlers := fun _ _ => Signal.sigDfl
  inPipe := fun _ => false

/-- A task other than `o` that is BLOCKED afterwards was BLOCKED before, and its signals
are the same. -/
structure Undisturbed (o : Option Task) (k k' : Kernel) : Prop where
  signals : ∀ u, u.val < k.nextPid → o ≠ some u → k'.state u = blocked →
    k.state u = blocked ∧ k'.pendingSignals u = k.pendingSignals u ∧
      k'.signalMask u = k.signalMask u
  nextPid_le : k.nextPid ≤ k'.nextPid

theorem Moves.undisturbed {o : Option Task} {w x : Prop} {k k' : Kernel} (h : Moves o w x k k') :
    Undisturbed o k k' := by
  induction h with
  | done k => exact ⟨fun u _ _ hb => ⟨hb, rfl, rfl⟩, le_rfl⟩
  | switch hswitched =>
    refine ⟨fun u _ _ hb => ⟨(hswitched.blocked_iff u).mp hb, ?_⟩, hswitched.nextPid_eq.ge⟩
    rw [hswitched.rest_eq]
    exact ⟨rfl, rfl⟩
  | @fork k t cloned =>
    obtain ⟨-, hnext, hkept⟩ := taskFork_kept k t cloned
    refine ⟨fun u hu _ hb => ?_, hnext⟩
    exact ⟨(hkept u hu).state_eq.symm.trans hb, (hkept u hu).pending_eq, (hkept u hu).mask_eq⟩
  | @put k k' t st ho _ _ ih =>
    refine ⟨fun u hlt hu hb => ?_, ih.nextPid_le⟩
    obtain ⟨hblocked, hsignals⟩ := ih.signals u hlt hu hb
    have hne : u ≠ t := fun heq => hu (ho.trans (congrArg some heq.symm))
    have hsame : (k.putState t st).state u = k.state u := update_of_ne hne _ _
    exact ⟨hsame.symm.trans hblocked, hsignals⟩
  | note hnoted _ ih =>
    refine ⟨fun u hlt hu hb => ?_, hnoted.nextPid_eq ▸ ih.nextPid_le⟩
    obtain ⟨hblocked, hpending, hmask⟩ := ih.signals u (hnoted.nextPid_eq ▸ hlt) hu hb
    obtain ⟨hpending', hmask'⟩ := hnoted.signals u hu
    exact ⟨hnoted.sched_eq ▸ hblocked, hpending.trans hpending', hmask.trans hmask'⟩
  | wake _ hroused _ ih =>
    refine ⟨fun u hlt hu hb => ?_, hroused.nextPid_eq ▸ ih.nextPid_le⟩
    obtain ⟨hblocked, hpending, hmask⟩ := ih.signals u (hroused.nextPid_eq ▸ hlt) hu hb
    obtain ⟨hpending', hmask'⟩ := hroused.signals u hblocked
    exact ⟨hroused.blocked_of hblocked, hpending.trans hpending', hmask.trans hmask'⟩

section Steps

variable {m m' : Machine} {e : Event} {l : List Task} {t : Task}

theorem step_undisturbed (h : m.sys.Ok l) (hstep : m.step e = some m') :
    Undisturbed m.sys.current m.sys m'.sys := by
  obtain ⟨m1, hstep1, hmoves⟩ := step_moves (e := e) h
  obtain rfl : m' = m1 := Option.some.inj (hstep.symm.trans hstep1)
  exact hmoves.moves.undisturbed

/-- The loop of `task_waitpid` stays in the call only if it blocks. -/
theorem waitLoop_call
    {pid pid' : Int} {options options' : BitVec 32} (hloop : m.waitLoop t pid options = some m')
    (hcall : m'.call t = some (.waitpid pid' options')) :
    m.sys.findChildExitedPid t.val pid = none ∧ options &&& wnohang = 0 := by
  have hleft : ∀ x : Machine, (x.putCall t none).call t ≠ some (.waitpid pid' options') := by
    intro x hx
    simp [Machine.putCall] at hx
  unfold Machine.waitLoop at hloop
  split at hloop
  · cases hloop
    exact absurd hcall (hleft m)
  · rename_i hfind
    split at hloop
    · cases hloop
      exact absurd hcall (hleft m)
    · rename_i hoptions
      exact ⟨hfind, not_not.mp hoptions⟩

theorem sleepLoop_call {pid : Int} {options : BitVec 32} (hloop : m.sleepLoop t = some m') :
    m'.call t ≠ some (.waitpid pid options) := by
  unfold Machine.sleepLoop at hloop
  split at hloop
  · obtain ⟨k', -, rfl⟩ := Option.map_eq_some_iff.mp hloop
    simp [Machine.putCall, Machine.putSys]
  · cases hloop
    simp [Machine.putCall, Machine.putSys]

/-- A task that is inside `task_waitpid` after its own event has blocked there, or
nothing has happened. -/
theorem waitpid_of_step
    {pid : Int} {options : BitVec 32} (ht : m.sys.current = some t) (hstep : m.step e = some m')
    (hcall' : m'.call t = some (.waitpid pid options)) :
    m.blocks t e ∨ m' = m := by
  unfold Machine.step at hstep
  rw [ht] at hstep
  dsimp only at hstep
  cases hcall : m.call t with
  | none =>
    rw [hcall] at hstep
    have hsame : m'.call t ≠ m.call t := by
      rw [hcall, hcall']
      exact Option.some_ne_none _
    cases e with
    | fork cloned =>
      cases hstep
      exact absurd rfl hsame
    | waitpid pid' options' => exact Or.inl ⟨hcall, waitLoop_call hstep hcall'⟩
    | block => exact Or.inl hcall
    | wake pid' =>
      cases hstep
      exact absurd rfl hsame
    | kill pid' sig =>
      simp only [Machine.userStep] at hstep
      split at hstep
      · exact Or.inr (Option.some.inj hstep).symm
      · cases hstep
        exact absurd rfl hsame
    | signals pending mask =>
      cases hstep
      exact absurd rfl hsame
    | nanosleep sec nsec =>
      simp only [Machine.userStep, Machine.sysNanosleep] at hstep
      split at hstep
      · exact Or.inr (Option.some.inj hstep).symm
      · exact absurd hcall' (sleepLoop_call hstep)
    | resume => exact Or.inr (Option.some.inj hstep).symm
    | _ =>
      obtain ⟨k', -, rfl⟩ := Option.map_eq_some_iff.mp hstep
      exact absurd rfl hsame
  | some c =>
    rw [hcall] at hstep
    dsimp only at hstep
    unfold Machine.callStep at hstep
    split at hstep
    · rename_i pid' options'
      exact Or.inl ⟨pid', options', hcall, waitLoop_call hstep hcall'⟩
    · exact absurd hcall' (sleepLoop_call hstep)
    · obtain ⟨k', -, rfl⟩ := Option.map_eq_some_iff.mp hstep
      rw [show (m.putSys k').call t = m.call t from rfl, hcall] at hcall'
      cases hcall'
    · exact Or.inr (Option.some.inj hstep).symm

theorem blocks_signals (h : m.sys.Ok l) (ht : m.sys.current = some t) (hblocks : m.blocks t e)
    (hstep : m.step e = some m') :
    m'.sys.pendingSignals = m.sys.pendingSignals ∧ m'.sys.signalMask = m.sys.signalMask := by
  have hschedule : (m.sys.putState t blocked).schedule = some m'.sys :=
    (blocks_step ht hblocks hstep).1
  obtain ⟨k', -, hschedule', -, -, hswitched⟩ := (h.putState t blocked).schedule
  obtain rfl : k' = m'.sys := Option.some.inj (hschedule'.symm.trans hschedule)
  rw [hswitched.rest_eq]
  exact ⟨rfl, rfl⟩

end Steps

namespace SigMachine

variable {m m' : SigMachine} {e : SigEvent} {l : List Task} {t : Task}

/-- The queue is sound, and only allocated tasks are inside a call. -/
structure Ok (m : SigMachine) : Prop where
  queue : ∃ l, m.base.sys.Ok l
  allocated : ∀ t, m.Inside t → t.val < m.base.sys.nextPid

theorem Doomed.congr (hpending : m'.base.sys.pendingSignals t = m.base.sys.pendingSignals t)
    (hmask : m'.base.sys.signalMask t = m.base.sys.signalMask t)
    (hhandlers : m'.handlers t = m.handlers t) :
    m'.Doomed t ↔ m.Doomed t := by
  unfold Doomed
  rw [hpending, hmask, hhandlers]

variable {e : Event}

theorem handlersAfter_of_lt (h : t.val < m.base.sys.nextPid) :
    m.handlersAfter e t = m.handlers t := by
  unfold handlersAfter
  cases m.base.sys.current with
  | none => rfl
  | some u =>
    cases e with
    | fork cloned =>
      by_cases hcall : m.base.call u = none
      · simp only [if_pos hcall, if_neg (Nat.ne_of_lt h)]
      · simp only [if_neg hcall]
    | _ => rfl

theorem inPipeAfter_of_ne (h : m.base.sys.current ≠ some t) :
    m.inPipeAfter e t = m.inPipe t := by
  unfold inPipeAfter
  cases hu : m.base.sys.current with
  | none => rfl
  | some u =>
    apply update_of_ne
    rintro rfl
    exact h hu

theorem inPipeAfter_self (h : m.base.sys.current = some t) :
    m.inPipeAfter e t = true ↔ e = .block ∧ m.base.call t = none := by
  unfold inPipeAfter
  rw [h]
  simp

theorem inside_step {b : Machine} (h : m.base.sys.Ok l) (hstep : m.base.step e = some b)
    (hinside : Inside ⟨b, m.handlersAfter e, m.inPipeAfter e⟩ t) :
    m.base.sys.current ≠ some t ∧ m.Inside t ∨
      m.base.sys.current = some t ∧ (m.base.blocks t e ∨ b = m.base ∧ m.Inside t) := by
  by_cases ht : m.base.sys.current = some t
  · refine Or.inr ⟨ht, ?_⟩
    rcases hinside with hpipe | ⟨pid, options, hcall⟩
    · obtain ⟨rfl, hcall⟩ := (inPipeAfter_self ht).mp hpipe
      exact Or.inl hcall
    · rcases waitpid_of_step ht hstep hcall with hblocks | rfl
      · exact Or.inl hblocks
      · exact Or.inr ⟨rfl, Or.inr ⟨pid, options, hcall⟩⟩
  · refine Or.inl ⟨ht, ?_⟩
    obtain ⟨b', hstep', heffect⟩ := step_effect (e := e) h
    obtain rfl : b = b' := Option.some.inj (hstep.symm.trans hstep')
    rcases hinside with hpipe | ⟨pid, options, hcall⟩
    · exact Or.inl ((inPipeAfter_of_ne ht).symm.trans hpipe)
    · exact Or.inr ⟨pid, options, (heffect.call_eq t ht).symm.trans hcall⟩

/-- A call of `task_block` leaves the task BLOCKED inside its loop. -/
theorem inside_of_blocks
    {b : Machine} (ht : m.base.sys.current = some t) (hblocks : m.base.blocks t e)
    (hstep : m.base.step e = some b) :
    Inside ⟨b, m.handlersAfter e, m.inPipeAfter e⟩ t := by
  obtain ⟨-, hcall⟩ := blocks_step ht hblocks hstep
  cases e with
  | block => exact Or.inl ((inPipeAfter_self ht).mpr ⟨rfl, hblocks⟩)
  | waitpid pid options => exact Or.inr ⟨pid, options, hcall⟩
  | resume =>
    obtain ⟨pid, options, hold, -⟩ := hblocks
    exact Or.inr ⟨pid, options, hcall.trans hold⟩
  | _ => exact hblocks.elim

/-- One event of the machine: nobody is stuck afterwards exactly if the event blocks no
task with a signal that should end it. -/
theorem event_noneStuck_iff
    {b : Machine} (h : m.Ok) (hstep : m.base.step e = some b) (hnone : m.NoneStuck) :
    NoneStuck ⟨b, m.handlersAfter e, m.inPipeAfter e⟩ ↔ m.BlocksUndoomed (.event e) := by
  obtain ⟨l, hl⟩ := h.queue
  have hblocked : ∀ t, m.base.sys.current = some t → m.base.blocks t e →
      (Doomed ⟨b, m.handlersAfter e, m.inPipeAfter e⟩ t ↔ m.Doomed t) := by
    intro t ht hblocks
    obtain ⟨hpending, hmask⟩ := blocks_signals hl ht hblocks hstep
    exact Doomed.congr (congrFun hpending t) (congrFun hmask t)
      (handlersAfter_of_lt (hl.current_lt ht))
  constructor
  · intro hnone' t ht hblocks hdoomed
    exact hnone' t (block_step hl ht hblocks hstep).1 (inside_of_blocks ht hblocks hstep)
      ((hblocked t ht hblocks).mpr hdoomed)
  · intro hok t hstate hinside hdoomed
    rcases inside_step hl hstep hinside with ⟨hne, hold⟩ | ⟨ht, hblocks | ⟨rfl, hold⟩⟩
    · have hlt := h.allocated t hold
      obtain ⟨hstate', hpending, hmask⟩ :=
        (step_undisturbed hl hstep).signals t hlt hne hstate
      exact hnone t hstate' hold
        ((Doomed.congr hpending hmask (handlersAfter_of_lt hlt)).mp hdoomed)
    · exact hok t ht hblocks ((hblocked t ht hblocks).mp hdoomed)
    · have hsame : Doomed ⟨m.base, m.handlersAfter e, m.inPipeAfter e⟩ t ↔ m.Doomed t :=
        Doomed.congr rfl rfl (handlersAfter_of_lt (hl.current_lt ht))
      exact hnone t hstate hold (hsame.mp hdoomed)

theorem setHandler_frame (m : SigMachine) (t : Task) (signum : Nat) (handler : BitVec 32) :
    (m.setHandler t signum handler).base = m.base ∧
      (m.setHandler t signum handler).inPipe = m.inPipe ∧
      ∀ u, u ≠ t → (m.setHandler t signum handler).handlers u = m.handlers u := by
  unfold setHandler
  split
  · exact ⟨rfl, rfl, fun _ _ => rfl⟩
  · exact ⟨rfl, rfl, fun u hu => update_of_ne hu _ _⟩

theorem sigaction_inside {signum : Nat} {handler : BitVec 32} (ht : m.base.sys.current = some t)
    (hcall : m.base.call t = none) {u : Task}
    (hinside : ({ m with inPipe := update m.inPipe t false }.setHandler
      t signum handler).Inside u) :
    u ≠ t ∧ m.Inside u := by
  obtain ⟨hbase, hpipe, -⟩ := setHandler_frame
    { m with inPipe := update m.inPipe t false } t signum handler
  unfold Inside at hinside
  rw [hbase, hpipe] at hinside
  by_cases hu : u = t
  · subst hu
    rcases hinside with hin | ⟨pid, options, hin⟩
    · simp at hin
    · rw [show m.base.call u = none from hcall] at hin
      cases hin
  · refine ⟨hu, hinside.imp_left fun hin => ?_⟩
    exact (update_of_ne hu false m.inPipe).symm.trans hin

/-- Every event returns, and nobody is stuck afterwards exactly if it blocks no task
with a signal that should end it. -/
theorem step_spec (h : m.Ok) (e : SigEvent) :
    ∃ m', m.step e = some m' ∧ m'.Ok ∧
      (m.NoneStuck → (m'.NoneStuck ↔ m.BlocksUndoomed e)) := by
  obtain ⟨l, hl⟩ := h.queue
  cases e with
  | event e =>
    obtain ⟨b, hstep, heffect⟩ := step_effect (e := e) hl
    refine ⟨⟨b, m.handlersAfter e, m.inPipeAfter e⟩, ?_, ⟨heffect.sound, ?_⟩,
      event_noneStuck_iff h hstep⟩
    · simp only [step, hstep, Option.map_some]
    · intro t hinside
      refine lt_of_lt_of_le ?_ heffect.effect.nextPid_le
      rcases inside_step hl hstep hinside with ⟨-, hold⟩ | ⟨ht, -⟩
      · exact h.allocated t hold
      · exact hl.current_lt ht
  | sigaction signum handler =>
    cases ht : m.base.sys.current with
    | none => exact ⟨m, by simp only [step, ht], h, fun hnone => iff_of_true hnone trivial⟩
    | some t =>
      by_cases hcall : m.base.call t = none
      · obtain ⟨hbase, -, hhandlers⟩ := setHandler_frame
          { m with inPipe := update m.inPipe t false } t signum handler
        refine ⟨_, by simp only [step, ht, if_pos hcall], ⟨⟨l, hbase ▸ hl⟩, ?_⟩, ?_⟩
        · intro u hinside
          rw [hbase]
          exact h.allocated u (sigaction_inside ht hcall hinside).2
        · intro hnone
          refine iff_of_true ?_ trivial
          intro u hstate hinside hdoomed
          obtain ⟨hu, hold⟩ := sigaction_inside ht hcall hinside
          rw [hbase] at hstate
          refine hnone u hstate hold ((Doomed.congr ?_ ?_ (hhandlers u hu)).mp hdoomed)
          · rw [hbase]
          · rw [hbase]
      · exact ⟨m, by simp only [step, ht, if_neg hcall], h,
          fun hnone => iff_of_true hnone trivial⟩

theorem boot_sigOk :
    bootSig.Ok where
  queue := ⟨[0, 1], boot_ok⟩
  allocated := by
    rintro t (hpipe | ⟨pid, options, hcall⟩)
    · cases hpipe
    · cases hcall

end SigMachine

/--
In every run from boot no task is ever BLOCKED in `pipe_read_op`, `pipe_write_op` or
`task_waitpid` with an unmasked signal that should end it, exactly if no task calls
`task_block` in these loops with such a signal.
-/
theorem none_stuck_iff
    (es : List SigEvent) :
    ∃ m, bootSig.run es = some m ∧
      ((∀ pre m, pre <+: es → bootSig.run pre = some m → m.NoneStuck) ↔
        ∀ pre e m, pre ++ [e] <+: es → bootSig.run pre = some m → m.BlocksUndoomed e) := by
  refine Run.foldlM_always_iff SigMachine.boot_sigOk ?_ (fun m e h => SigMachine.step_spec h e) es
  rintro t - (hpipe | ⟨pid, options, hcall⟩)
  · cases hpipe
  · cases hcall

/-- Init's child waits for a child of its own and gets `SIGTERM`; when it is current
again it blocks again. -/
def termWaiter : List SigEvent :=
  List.replicate 10 (.event .tick) ++
    [.event .yield, .event (.waitpid (-1) 0#32), .event (.fork true), .event .yield,
      .event (.fork true), .event (.waitpid (-1) 0#32), .event .yield, .event (.kill 2 15),
      .event .yield, .event .resume]

/-- Task 2 is BLOCKED in `task_waitpid` with `SIGTERM` pending, unmasked, and with the
default action. -/
theorem waiter_blocks_again :
    ∃ m, bootSig.run termWaiter = some m ∧ m.base.sys.state 2 = blocked ∧ m.Inside 2 ∧
      m.Doomed 2 := by
  have hrun : (bootSig.run termWaiter).map (fun m => (m.base.sys.state 2, m.base.call 2,
      m.base.sys.pendingSignals 2, m.base.sys.signalMask 2, m.handlers 2 15)) =
      some (blocked, some (.waitpid (-1) 0#32), Signal.sigBit 15, 0#32, Signal.sigDfl) := by
    decide +kernel
  obtain ⟨m, hm, hfields⟩ := Option.map_eq_some_iff.mp hrun
  simp only [Prod.mk.injEq] at hfields
  obtain ⟨hstate, hcall, hpending, hmask, hhandler⟩ := hfields
  refine ⟨m, hm, hstate, Or.inr ⟨_, _, hcall⟩, 15, by decide, by decide, ?_,
    Or.inr (Or.inr ⟨hhandler, by decide⟩)⟩
  rw [hpending, hmask]
  decide

end Sched
end Homunculos
