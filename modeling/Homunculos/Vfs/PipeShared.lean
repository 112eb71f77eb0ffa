import Homunculos.Lib.Run
import Homunculos.Vfs.PipeEnds

/-!
# One pipe for many tasks

The descriptors of an end, in one task or in many, share a `struct file`, and the close
operation of the end runs with the last of them.  A pipe keeps one pid for each end, that
of the task that has blocked there last.
-/

namespace Homunculos
namespace Vfs

open Ipc Function

/-- `reader_pid` or `writer_pid` -/
def PipeEnd.waiter : PipeEnd → Pipe → Int
  | .read, p => p.readerPid
  | .write, p => p.writerPid

/-- The pipe that an activation leaves, and the task it wakes unless it blocks. -/
abbrev Left := Pipe × Option (Option Int)

def leftByRead : ReadOutcome → Left
  | .blocked p => (p, none)
  | .done _ _ p wake => (p, some wake)

def leftByWrite : WriteOutcome → Left
  | .blocked _ _ p => (p, none)
  | .done _ _ p wake => (p, some wake)

/-- A pipe, the descriptors of its ends, and the end at which a task is BLOCKED. -/
structure Shared where
  pipe : Pipe
  fds : PipeEnd → Nat
  asleep : Nat → Option PipeEnd

/-- A call is made or goes on, a descriptor is copied by `fork` or `dup`, or closed, or a
task is woken for another reason. -/
inductive PipeAct where
  | read (pid nbyte : Nat)
  | write (pid : Nat) (src : List (BitVec 8)) (total : Nat)
  | dup (e : PipeEnd)
  | close (e : PipeEnd)
  | wake (pid : Int)

namespace Shared

/-- The pipe after `sys_pipe`. -/
def init : Shared where
  pipe := pipeNew
  fds := fun _ => 1
  asleep := fun _ => none

/-- The task `pid` has run up to `task_block` or `task_wake` at the end `e`. -/
def goOn (s : Shared) (pid : Nat) (e : PipeEnd) : Left → Shared
  | (p, none) => { s with pipe := p, asleep := update s.asleep pid (some e) }
  | (p, some wake) =>
    { s with pipe := p, asleep := fun t => if wake = some (t : Int) then none else s.asleep t }

/-- A task that is BLOCKED or has no descriptor makes no call. -/
def step (s : Shared) : PipeAct → Shared
  | .read pid nbyte =>
    if s.asleep pid = none ∧ 0 < s.fds .read then
      s.goOn pid .read (leftByRead (pipeReadOp s.pipe pid nbyte))
    else
      s
  | .write pid src total =>
    if s.asleep pid = none ∧ 0 < s.fds .write then
      s.goOn pid .write (leftByWrite (pipeWriteOp s.pipe pid src total))
    else
      s
  | .dup e => if s.fds e = 0 then s else { s with fds := update s.fds e (s.fds e + 1) }
  | .close e =>
    if s.fds e = 1 then
      let c := e.close s.pipe
      { s with fds := update s.fds e 0 }.goOn 0 e (c.1, some c.2.1)
    else
      { s with fds := update s.fds e (s.fds e - 1) }
  | .wake pid => s.goOn 0 .read (s.pipe, some (some pid))

/-- Nobody goes to sleep at an end where another task sleeps. -/
def Alone (s : Shared) (a : PipeAct) : Prop :=
  ∀ e t t', s.asleep t = none → (s.step a).asleep t = some e → s.asleep t' ≠ some e

/-- Closing the last descriptor of the end makes every task READY that is BLOCKED at the
other one. -/
def WakesAll (s : Shared) (e : PipeEnd) : Prop :=
  ∀ t, s.asleep t = some e.other → (s.step (.close e)).asleep t = none

/-- The pipe knows every task that is BLOCKED at the end. -/
def Known (s : Shared) (e : PipeEnd) : Prop :=
  ∀ t, s.asleep t = some e → e.waiter s.pipe = t

/-- An end with a descriptor is open. -/
def Open (s : Shared) : Prop :=
  ∀ e : PipeEnd, 0 < s.fds e → e.refs s.pipe = 1

end Shared

/-- What an activation does to the pids: it leaves its own, or it wakes the task whose pid
it takes. -/
structure Fits (p : Pipe) (pid : Nat) (e : PipeEnd) (r : Left) : Prop where
  refs : ∀ x : PipeEnd, x.refs r.1 = x.refs p
  blocks : r.2 = none → ∀ x : PipeEnd, x.waiter r.1 = if x = e then (pid : Int) else x.waiter p
  wakes : ∀ wake, r.2 = some wake →
    ∀ x : PipeEnd, x.waiter r.1 = x.waiter p ∨ wake = some (x.waiter p)

theorem read_fits (p : Pipe) (pid nbyte : Nat) :
    Fits p pid .read (leftByRead (pipeReadOp p pid nbyte)) := by
  unfold pipeReadOp
  split
  · split
    · exact ⟨fun _ => rfl, (nomatch ·), fun _ _ _ => Or.inl rfl⟩
    · refine ⟨fun x => ?_, fun _ x => ?_, fun _ => (nomatch ·)⟩ <;> cases x <;> rfl
  · split
    · refine ⟨fun x => by cases x <;> rfl, (nomatch ·), ?_⟩
      rintro wake ⟨⟩ (_ | _)
      · exact Or.inl rfl
      · exact Or.inr rfl
    · refine ⟨fun x => ?_, (nomatch ·), fun _ _ x => Or.inl ?_⟩ <;> cases x <;> rfl

theorem write_fits (p : Pipe) (pid : Nat) (src : List (BitVec 8)) (total : Nat) :
    Fits p pid .write (leftByWrite (pipeWriteOp p pid src total)) := by
  unfold pipeWriteOp
  dsimp only
  split
  · split
    · refine ⟨fun x => by cases x <;> rfl, (nomatch ·), ?_⟩
      rintro wake ⟨⟩ (_ | _)
      · exact Or.inr rfl
      · exact Or.inl rfl
    · refine ⟨fun x => ?_, (nomatch ·), fun _ _ x => Or.inl ?_⟩ <;> cases x <;> rfl
  · split
    · refine ⟨fun x => ?_, (nomatch ·), fun _ _ x => Or.inl ?_⟩ <;> cases x <;> rfl
    · refine ⟨fun x => ?_, fun _ x => ?_, fun _ => (nomatch ·)⟩ <;> cases x <;> rfl

theorem close_waiter {e : PipeEnd} {p : Pipe} (h : e.refs p = 1) :
    (∀ x : PipeEnd, x.waiter (e.close p).1 = x.waiter p ∨ (e.close p).2.1 = some (x.waiter p)) ∧
      (e.close p).2.1 = if 0 ≤ e.other.waiter p then some (e.other.waiter p) else none := by
  cases e with
  | read =>
    replace h : p.readRefs = 1 := h
    refine ⟨?_, ?_⟩
    · rintro (_ | _) <;> by_cases hwake : 0 ≤ p.writerPid <;>
        simp [PipeEnd.close, PipeEnd.waiter, pipeCloseRead, h, hwake]
    · by_cases hwake : 0 ≤ p.writerPid <;>
        simp [PipeEnd.close, PipeEnd.waiter, PipeEnd.other, pipeCloseRead, h, hwake]
  | write =>
    replace h : p.writeRefs = 1 := h
    refine ⟨?_, ?_⟩
    · rintro (_ | _) <;> by_cases hwake : 0 ≤ p.readerPid <;>
        simp [PipeEnd.close, PipeEnd.waiter, pipeCloseWrite, h, hwake]
    · by_cases hwake : 0 ≤ p.readerPid <;>
        simp [PipeEnd.close, PipeEnd.waiter, PipeEnd.other, pipeCloseWrite, h, hwake]

namespace Shared

variable {s : Shared} {pid : Nat} {e : PipeEnd} {r : Left}

theorem goOn_pipe :
    (s.goOn pid e r).pipe = r.1 ∧ (s.goOn pid e r).fds = s.fds := by
  obtain ⟨p, _ | wake⟩ := r
  · exact ⟨rfl, rfl⟩
  · exact ⟨rfl, rfl⟩

theorem Open.setFds {n : Nat} (h : s.Open) (hn : 0 < n → 0 < s.fds e) :
    Open { s with fds := update s.fds e n } := by
  intro x hx
  apply h x
  by_cases hxe : x = e
  · subst hxe
    simp only [update_self] at hx
    exact hn hx
  · simpa only [update_of_ne hxe] using hx

theorem blocks_known {p : Pipe} (hknown : ∀ x, s.Known x) (hfree : s.asleep pid = none)
    (hp : ∀ x : PipeEnd, x.waiter p = if x = e then (pid : Int) else x.waiter s.pipe)
    (halone : ∀ t, s.asleep t ≠ some e) :
    ∀ x, (s.goOn pid e (p, none)).Known x := by
  intro x t ht
  refine (hp x).trans ?_
  by_cases htp : t = pid
  · subst htp
    have hx : e = x := Option.some.inj ((update_self t _ s.asleep).symm.trans ht)
    rw [if_pos hx.symm]
  · have hold : s.asleep t = some x := (update_of_ne htp _ _).symm.trans ht
    rw [if_neg ?_]
    · exact hknown x t hold
    · rintro rfl
      exact halone t hold

theorem wakes_known {p : Pipe} {wake : Option Int} (hknown : ∀ x, s.Known x)
    (hp : ∀ x : PipeEnd, x.waiter p = x.waiter s.pipe ∨ wake = some (x.waiter s.pipe)) :
    ∀ x, (s.goOn pid e (p, some wake)).Known x := by
  intro x t ht
  simp only [goOn, ite_eq_iff, reduceCtorEq, and_false, false_or] at ht
  rcases hp x with hsame | hwake
  · exact hsame.trans (hknown x t ht.2)
  · rw [hknown x t ht.2] at hwake
    exact absurd hwake ht.1

/-- A call leaves the ends open, and everyone known who sleeps if it does not sleep next
to another task. -/
theorem Open.call (h : s.Open) (hfree : s.asleep pid = none) (hfits : Fits s.pipe pid e r) :
    (s.goOn pid e r).Open ∧ ((∀ x t t', s.asleep t = none →
      (s.goOn pid e r).asleep t = some x → s.asleep t' ≠ some x) →
      (∀ x, s.Known x) → ∀ x, (s.goOn pid e r).Known x) := by
  refine ⟨?_, fun halone hknown => ?_⟩
  · intro x hx
    rw [goOn_pipe.2] at hx
    rw [goOn_pipe.1, hfits.refs]
    exact h x hx
  · obtain ⟨p, _ | wake⟩ := r
    · exact blocks_known hknown hfree (hfits.blocks rfl)
        (fun t => halone e pid t hfree (update_self ..))
    · exact wakes_known hknown (hfits.wakes wake rfl)

/-- One action: the ends stay open, and if nobody sleeps next to another task, the pipe
knows everyone who sleeps. -/
theorem Open.step (h : s.Open) (a : PipeAct) :
    (s.step a).Open ∧ (s.Alone a → (∀ x, s.Known x) → ∀ x, (s.step a).Known x) := by
  unfold Alone
  cases a with
  | read pid nbyte =>
    simp only [Shared.step]
    split
    · exact h.call (And.left ‹_›) (read_fits s.pipe pid nbyte)
    · exact ⟨h, fun _ hknown => hknown⟩
  | write pid src total =>
    simp only [Shared.step]
    split
    · exact h.call (And.left ‹_›) (write_fits s.pipe pid src total)
    · exact ⟨h, fun _ hknown => hknown⟩
  | dup e =>
    simp only [Shared.step]
    split
    · exact ⟨h, fun _ hknown => hknown⟩
    · exact ⟨h.setFds (by omega), fun _ hknown => hknown⟩
  | close e =>
    simp only [Shared.step]
    split
    · rename_i hlast
      have hopen := h e (hlast ▸ one_pos)
      refine ⟨?_, fun _ hknown => wakes_known hknown (close_waiter hopen).1⟩
      intro x hx
      rcases eq_or_eq_other e x with rfl | rfl
      · exact absurd hx (by simp [goOn])
      · exact (close_spec hopen).2.1.trans (h.setFds (n := 0) (by omega) _ hx)
    · exact ⟨h.setFds (by omega), fun _ hknown => hknown⟩
  | wake pid =>
    simp only [Shared.step]
    exact ⟨h, fun _ hknown => wakes_known hknown (fun _ => Or.inl rfl)⟩

theorem Open.wakesAll_iff (h : s.Open) (hlast : s.fds e = 1) :
    s.WakesAll e ↔ s.Known e.other := by
  obtain ⟨-, hwake⟩ := close_waiter (h e (hlast ▸ one_pos))
  refine forall_congr' fun t => imp_congr_right fun ht => ?_
  simp only [Shared.step, if_pos hlast, goOn, hwake]
  by_cases hwaiter : e.other.waiter s.pipe = t
  · simp [hwaiter]
  · rw [if_neg ?_, ht]
    · simp [hwaiter]
    · split
      · exact fun heq => hwaiter (Option.some.inj heq)
      · exact (nomatch ·)

end Shared

/-- After every run of one pipe, closing the last descriptor of an end makes every task READY that
is BLOCKED at the other end exactly if the pipe knows all of them. It does in every run in which
no task goes to sleep at an end where another one sleeps. -/
theorem last_close_wakes_iff
    (acts : List PipeAct) (e : PipeEnd) (s : Shared)
    (hs : acts.foldl Shared.step Shared.init = s) (hlast : s.fds e = 1) :
    (s.WakesAll e ↔ s.Known e.other) ∧
      (Run.Allowed Shared.step Shared.Alone Shared.init acts → s.WakesAll e) := by
  have hinit : Shared.init.Open := fun x _ => refs_pipeNew x
  have hopen : s.Open := by
    rw [← hs]
    exact List.foldlRecOn acts _ hinit (fun s h a _ => (h.step a).1)
  refine ⟨hopen.wakesAll_iff hlast, fun halone => (hopen.wakesAll_iff hlast).mpr ?_⟩
  have hall : s.Open ∧ ∀ x, s.Known x := by
    rw [← hs]
    refine halone.invariant (P := fun s => s.Open ∧ ∀ x, s.Known x) ⟨hinit, ?_⟩ ?_
    · intro x t ht
      cases ht
    · intro s a _ ha h
      exact ⟨(h.1.step a).1, (h.1.step a).2 ha h.2⟩
  exact hall.2 e.other

theorem last_close_wakes_iff_one :
    ((Shared.init.step (.read 2 1)).step (.close .write)).asleep 2 = none := by
  refine (last_close_wakes_iff [.read 2 1] .write _ rfl rfl).2 ⟨?_, trivial⟩ 2 rfl
  intro x t t' _ _ ht'
  cases ht'

/-- Two tasks read the empty pipe; the end of the writers wakes the second one only. -/
theorem first_reader_sleeps_on :
    ∃ s, [PipeAct.dup .read, .read 2 1, .read 3 1].foldl Shared.step Shared.init = s ∧
      s.fds .write = 1 ∧ ¬ s.WakesAll .write := by
  refine ⟨_, rfl, rfl, ?_⟩
  intro h
  cases h 2 rfl

end Vfs
end Homunculos
