import Mathlib
import Homunculos.Lib.Linked

/-!
# The run queue

The task table has a fixed number of slots; the run queue is a singly linked
list through the `next` fields of the slots.  A task is put at the tail when it
is added, and the current task is moved to the tail by every call of
`schedule`, which then takes the first READY task.

`Queue s l` says that the list `l` is what the pointers of `s` spell: no slot
twice, from the head to the tail, whose pointer is null.
-/

namespace Homunculos
namespace Sched

open Linked Function

def maxTasks : Nat :=
  256

/-- A slot of the task table; its index is the pid. -/
abbrev Task :=
  Fin maxTasks

instance : NeZero maxTasks :=
  ⟨by decide⟩

inductive TaskState where
  | ready
  | running
  | blocked
  | exited
  deriving DecidableEq, Repr

/-- The run queue, the current task and the fields of tasks that both use. -/
structure Scheduler where
  head : Option Task
  tail : Option Task
  current : Option Task
  next : Task → Option Task
  state : Task → TaskState

namespace Scheduler

def setNext (s : Scheduler) (t : Task) (p : Option Task) : Scheduler :=
  { s with next := update s.next t p }

def setState (s : Scheduler) (t : Task) (st : TaskState) : Scheduler :=
  { s with state := update s.state t st }

end Scheduler

/-- `t->next = 0; run_queue_tail->next = t; run_queue_tail = t` -/
def linkAtTail (s : Scheduler) (t : Task) : Scheduler :=
  let s := s.setNext t none
  match s.tail with
  | none => { s with tail := some t }
  | some last => { s.setNext last (some t) with tail := some t }

def schedulerAddTask (s : Scheduler) (t : Option Task) : Scheduler :=
  match t with
  | none => s
  | some t =>
    match s.head with
    | none => { s.setNext t none with head := some t, tail := some t }
    | some _ => linkAtTail s t

/-- The result is `none` when the search for the predecessor does not end. -/
def moveToTail (s : Scheduler) (t : Task) : Option Scheduler :=
  if s.head = none ∨ s.head = s.tail then
    some s
  else if some t = s.tail then
    some s
  else if s.head = some t then
    some (linkAtTail { s with head := s.next t } t)
  else
    match walk s.next (fun prev => decide (s.next prev = some t)) maxTasks s.head with
    | none => none
    | some none => some s
    | some (some prev) => some (linkAtTail (s.setNext prev (s.next t)) t)

/-- What `schedule` does with the task that called it. -/
def retire (s : Scheduler) : Option Scheduler :=
  match s.current with
  | none => some s
  | some prev =>
    let s := if s.state prev = .running then s.setState prev .ready else s
    if s.state prev = .exited then some s else moveToTail s prev

/-- Make the first READY task of the queue current. -/
def dispatch (s : Scheduler) : Option Scheduler :=
  match walk s.next (fun t => decide (s.state t = .ready)) maxTasks s.head with
  | none => none
  | some none => some s
  | some (some t) =>
    if some t = s.current then
      some s
    else
      some { s.setState t .running with current := some t }

/-- The result is `none` when a loop along the queue does not end. -/
def schedule (s : Scheduler) : Option Scheduler :=
  (retire s).bind dispatch

/-- No task has been added. -/
def bootScheduler : Scheduler where
  head := none
  tail := none
  current := none
  next := fun _ => none
  state := fun _ => .ready

section Representation

/-- The run queue is the list `l`. -/
structure Queue (s : Scheduler) (l : List Task) : Prop where
  links : Seg s.next s.head l none
  tail_eq : s.tail = l.getLast?
  nodup : l.Nodup

variable {s s' : Scheduler} {l : List Task}

theorem Queue.length_le (h : Queue s l) :
    l.length ≤ maxTasks := by
  have hcard := h.nodup.length_le_card
  rwa [Fintype.card_fin] at hcard

theorem Queue.head_eq (h : Queue s l) :
    s.head = l.head? :=
  h.links.head?_eq.symm

theorem Queue.walk_eq (h : Queue s l) (test : Task → Bool) :
    walk s.next test maxTasks s.head = some (l.find? test) :=
  h.links.walk_eq h.length_le

theorem Queue.unique {l' : List Task} (h : Queue s l) (h' : Queue s l') :
    l = l' :=
  h.links.unique h'.links

theorem Queue.congr (h : Queue s l) (hhead : s'.head = s.head) (htail : s'.tail = s.tail)
    (hnext : s'.next = s.next) :
    Queue s' l where
  links := by
    rw [hhead, hnext]
    exact h.links
  tail_eq := htail.trans h.tail_eq
  nodup := h.nodup

theorem boot_queue :
    Queue bootScheduler [] :=
  ⟨rfl, rfl, List.nodup_nil⟩

end Representation

section AddTask

variable {s : Scheduler} {l : List Task} {t last : Task}

theorem linkAtTail_queue
    (hlinks : Seg s.next s.head (l ++ [last]) none) (htail : s.tail = some last)
    (hnodup : (l ++ [last]).Nodup) (ht : t ∉ l ++ [last]) :
    Queue (linkAtTail s t) (l ++ [last] ++ [t]) := by
  have hne : t ≠ last := by
    intro heq
    exact ht (heq ▸ by simp)
  have hlast : last ∉ l := by
    have happend := List.nodup_append.mp hnodup
    intro hmem
    exact happend.2.2 last hmem last (by simp) rfl
  have hstep : linkAtTail s t =
      { s with
        next := update (update s.next t none) last (some t),
        tail := some t } := by
    simp only [linkAtTail, Scheduler.setNext, htail]
  rw [hstep]
  constructor
  · apply seg_append.mpr
    refine ⟨some t, (hlinks.update ht none).update_last hlast (some t), rfl, ?_⟩
    exact (update_of_ne hne _ _).trans (update_self ..)
  · simp
  · rw [List.nodup_append]
    refine ⟨hnodup, by simp, ?_⟩
    intro x hx y hy
    rw [List.mem_singleton.mp hy]
    intro heq
    exact ht (heq ▸ hx)

@[simp]
theorem linkAtTail_state :
    (linkAtTail s t).state = s.state := by
  unfold linkAtTail
  cases htail : s.tail with
  | none => simp [Scheduler.setNext, htail]
  | some last => simp [Scheduler.setNext, htail]

@[simp]
theorem linkAtTail_current :
    (linkAtTail s t).current = s.current := by
  unfold linkAtTail
  cases htail : s.tail with
  | none => simp [Scheduler.setNext, htail]
  | some last => simp [Scheduler.setNext, htail]

theorem addTask_queue (h : Queue s l) (ht : t ∉ l) :
    Queue (schedulerAddTask s (some t)) (l ++ [t]) := by
  rcases List.eq_nil_or_concat l with rfl | ⟨l, last, rfl⟩
  · have hhead : s.head = none := h.head_eq
    have hstep : schedulerAddTask s (some t) =
        { s.setNext t none with head := some t, tail := some t } := by
      simp only [schedulerAddTask, hhead]
    rw [hstep]
    refine ⟨⟨rfl, ?_⟩, rfl, List.nodup_singleton t⟩
    exact update_self ..
  · rw [List.concat_eq_append] at h ht ⊢
    obtain ⟨first, hfirst⟩ : ∃ first, s.head = some first := by
      rw [h.head_eq]
      simp
    have hstep : schedulerAddTask s (some t) = linkAtTail s t := by
      simp only [schedulerAddTask, hfirst]
    rw [hstep]
    exact linkAtTail_queue h.links (h.tail_eq.trans (by simp)) h.nodup ht

@[simp]
theorem addTask_state :
    (schedulerAddTask s (some t)).state = s.state := by
  unfold schedulerAddTask
  cases hhead : s.head with
  | none => simp [Scheduler.setNext]
  | some _ => simp

@[simp]
theorem addTask_current :
    (schedulerAddTask s (some t)).current = s.current := by
  unfold schedulerAddTask
  cases hhead : s.head with
  | none => simp [Scheduler.setNext]
  | some _ => simp

end AddTask

section MoveToTail

variable {s s' : Scheduler} {l a b : List Task} {t prev last : Task}

/-- The tests at the start of `move_to_tail` fail for a task that is not last. -/
theorem moveToTail_not_last (h : Queue s (a ++ t :: (b ++ [last]))) :
    s.tail = some last ∧ some t ≠ s.tail ∧ ¬ (s.head = none ∨ s.head = s.tail) := by
  have htail : s.tail = some last := by
    rw [h.tail_eq, ← List.cons_append, ← List.append_assoc, List.getLast?_concat]
  have hapart := (List.nodup_append.mp (by simpa using h.nodup :
    ((a ++ t :: b) ++ [last]).Nodup)).2.2
  refine ⟨htail, ?_, ?_⟩
  · intro heq
    rw [htail] at heq
    exact hapart t (by simp) last (by simp) (Option.some.inj heq)
  · rw [h.head_eq, htail]
    cases a with
    | nil =>
      rintro (heq | heq)
      · cases heq
      · exact hapart t (by simp) last (by simp) (Option.some.inj heq)
    | cons x a =>
      rintro (heq | heq)
      · cases heq
      · exact hapart x (by simp) last (by simp) (Option.some.inj heq)

theorem moveToTail_head (h : Queue s (t :: (b ++ [last]))) :
    ∃ s', moveToTail s t = some s' ∧ Queue s' (b ++ [last] ++ [t]) ∧
      s'.state = s.state ∧ s'.current = s.current := by
  obtain ⟨htail, htlast, hne⟩ := moveToTail_not_last (show Queue s ([] ++ _) from h)
  obtain ⟨ht, hnodup⟩ := List.nodup_cons.mp h.nodup
  have hstep : moveToTail s t = some (linkAtTail { s with head := s.next t } t) := by
    rw [moveToTail, if_neg hne, if_neg htlast, if_pos (show s.head = some t from h.head_eq)]
  refine ⟨_, hstep, ?_, linkAtTail_state, linkAtTail_current⟩
  exact linkAtTail_queue h.links.2 htail hnodup ht

theorem moveToTail_middle (h : Queue s (a ++ prev :: t :: (b ++ [last]))) :
    ∃ s', moveToTail s t = some s' ∧ Queue s' (a ++ prev :: (b ++ [last]) ++ [t]) ∧
      s'.state = s.state ∧ s'.current = s.current := by
  have hlist : a ++ prev :: t :: (b ++ [last]) = (a ++ [prev]) ++ t :: (b ++ [last]) := by simp
  obtain ⟨htail, htlast, hne⟩ :=
    moveToTail_not_last (show Queue s ((a ++ [prev]) ++ t :: (b ++ [last])) from hlist ▸ h)
  obtain ⟨hnodup, ht⟩ : (a ++ [prev] ++ (b ++ [last])).Nodup ∧
      t ∉ a ++ [prev] ++ (b ++ [last]) := by
    have hperm : (a ++ [prev] ++ t :: (b ++ [last])).Perm (t :: (a ++ [prev] ++ (b ++ [last]))) :=
      List.perm_middle
    have hcons := List.nodup_cons.mp (hperm.nodup_iff.mp (hlist ▸ h.nodup))
    exact ⟨hcons.2, hcons.1⟩
  obtain ⟨hfront, -, hapart⟩ := List.nodup_append.mp hnodup
  have hnothead : s.head ≠ some t := by
    rw [h.head_eq]
    intro heq
    apply ht
    cases a with
    | nil =>
      have hprev : prev = t := Option.some.inj heq
      simp [hprev]
    | cons x a =>
      have hx : x = t := Option.some.inj heq
      simp [hx]
  have hwalk : walk s.next (fun prev => decide (s.next prev = some t)) maxTasks s.head =
      some (some prev) := by
    rw [h.walk_eq, h.links.find?_pred h.nodup]
  have hstep : moveToTail s t = some (linkAtTail (s.setNext prev (s.next t)) t) := by
    rw [moveToTail, if_neg hne, if_neg htlast, if_neg hnothead, hwalk]
  refine ⟨_, hstep, ?_, linkAtTail_state, linkAtTail_current⟩
  have hprev : prev ∉ a := by
    intro hmem
    exact (List.nodup_append.mp hfront).2.2 prev hmem prev (by simp) rfl
  have hprev' : prev ∉ b ++ [last] := by
    intro hmem
    exact hapart prev (by simp) prev hmem rfl
  -- the part before the task now leads to the part behind it
  have hlinks : Seg (update s.next prev (s.next t)) s.head
      (a ++ [prev] ++ (b ++ [last])) none := by
    obtain ⟨m, hfirst, -, hrest⟩ := seg_append.mp (hlist ▸ h.links)
    exact seg_append.mpr ⟨s.next t, hfirst.update_last hprev _, hrest.update hprev' _⟩
  have hmoved : a ++ prev :: (b ++ [last]) = a ++ [prev] ++ b ++ [last] := by simp
  rw [hmoved]
  rw [← List.append_assoc] at hlinks hnodup ht
  exact linkAtTail_queue hlinks htail hnodup ht

theorem moveToTail_queue (h : Queue s l) (ht : t ∈ l) :
    ∃ s', moveToTail s t = some s' ∧ Queue s' (l.erase t ++ [t]) ∧
      s'.state = s.state ∧ s'.current = s.current := by
  obtain ⟨a, b, rfl⟩ := List.mem_iff_append.mp ht
  have ha : t ∉ a := by
    intro hmem
    exact (List.nodup_append.mp h.nodup).2.2 t hmem t (by simp) rfl
  have herase : (a ++ t :: b).erase t = a ++ b := by
    rw [List.erase_append_right _ ha, List.erase_cons_head]
  rw [herase]
  cases b with
  | nil =>
    -- the task is the last one already
    refine ⟨s, ?_, ?_, rfl, rfl⟩
    · have htail : some t = s.tail := by
        rw [h.tail_eq]
        simp
      simp only [moveToTail, htail, if_true, ite_self]
    · rw [List.append_nil]
      exact h
  | cons x b =>
    obtain ⟨b', last, hb⟩ : ∃ b' last, x :: b = b' ++ [last] :=
      ⟨_, _, (List.dropLast_append_getLast (List.cons_ne_nil x b)).symm⟩
    rw [hb] at h ⊢
    rcases List.eq_nil_or_concat a with rfl | ⟨a, prev, rfl⟩
    · exact moveToTail_head h
    · have hlist : (a.concat prev) ++ t :: (b' ++ [last]) =
          a ++ prev :: t :: (b' ++ [last]) := by
        simp
      have hmoved : (a.concat prev) ++ (b' ++ [last]) = a ++ prev :: (b' ++ [last]) := by simp
      rw [hlist] at h
      rw [hmoved]
      exact moveToTail_middle h

end MoveToTail

section Schedule

variable {s s' : Scheduler} {l : List Task} {t : Task}

/-- The order of the queue after the current task has been retired. -/
def retiredQueue (s : Scheduler) (l : List Task) : List Task :=
  match s.current with
  | none => l
  | some prev => if s.state prev = .exited then l else l.erase prev ++ [prev]

/-- The states after the current task has been retired. -/
def retiredState (s : Scheduler) : Task → TaskState :=
  fun t => if s.current = some t ∧ s.state t = .running then .ready else s.state t

theorem retire_spec (h : Queue s l) (hcur : ∀ t, s.current = some t → t ∈ l) :
    ∃ s', retire s = some s' ∧ Queue s' (retiredQueue s l) ∧
      s'.state = retiredState s ∧ s'.current = s.current := by
  cases hc : s.current with
  | none =>
    refine ⟨s, ?_, ?_, ?_, hc⟩
    · simp only [retire, hc]
    · simp only [retiredQueue, hc]
      exact h
    · funext t
      simp [retiredState, hc]
  | some prev =>
    -- the first step only changes the state of the caller
    obtain ⟨s1, hs1, hqueue, hstate, hcurrent⟩ : ∃ s1,
        (if s.state prev = .running then s.setState prev .ready else s) = s1 ∧
        Queue s1 l ∧ s1.state = retiredState s ∧ s1.current = some prev := by
      refine ⟨_, rfl, ?_⟩
      by_cases hrun : s.state prev = .running
      · rw [if_pos hrun]
        refine ⟨h.congr rfl rfl rfl, ?_, hc⟩
        funext t
        by_cases ht : t = prev
        · subst ht
          simp [Scheduler.setState, retiredState, hc, hrun]
        · simp [Scheduler.setState, retiredState, hc, ht, Ne.symm ht]
      · rw [if_neg hrun]
        refine ⟨h, ?_, hc⟩
        funext t
        by_cases ht : prev = t
        · subst ht
          simp [retiredState, hrun]
        · simp [retiredState, hc, ht]
    have hprev : s1.state prev = .exited ↔ s.state prev = .exited := by
      rw [hstate]
      by_cases hrun : s.state prev = .running
      · simp [retiredState, hc, hrun]
      · simp [retiredState, hrun]
    simp only [retire, hc, retiredQueue, hs1, hprev]
    by_cases hexit : s.state prev = .exited
    · rw [if_pos hexit, if_pos hexit]
      exact ⟨s1, rfl, hqueue, hstate, hcurrent⟩
    · rw [if_neg hexit, if_neg hexit]
      obtain ⟨s2, hmove, hqueue2, hstate2, hcurrent2⟩ :=
        moveToTail_queue hqueue (hcur prev hc)
      exact ⟨s2, hmove, hqueue2, hstate2.trans hstate, hcurrent2.trans hcurrent⟩

/-- `schedule` returns; it retires the caller and takes the first READY task. -/
theorem schedule_spec (h : Queue s l) (hcur : ∀ t, s.current = some t → t ∈ l) :
    ∃ s', schedule s = some s' ∧ Queue s' (retiredQueue s l) ∧
      match (retiredQueue s l).find? (fun t => decide (retiredState s t = .ready)) with
      | none => s'.state = retiredState s ∧ s'.current = s.current
      | some t =>
        s'.current = some t ∧
          s'.state = if some t = s.current then retiredState s
            else update (retiredState s) t .running := by
  obtain ⟨s1, hretire, hqueue, hstate, hcurrent⟩ := retire_spec h hcur
  have hwalk := hqueue.walk_eq (fun t => decide (s1.state t = .ready))
  have hschedule : schedule s = dispatch s1 := by
    rw [schedule, hretire, Option.bind_some]
  rw [hschedule, dispatch, hwalk]
  rw [hstate]
  cases hfind : (retiredQueue s l).find? (fun t => decide (retiredState s t = .ready)) with
  | none => exact ⟨s1, rfl, hqueue, hstate, hcurrent⟩
  | some t =>
    simp only [hcurrent]
    by_cases ht : some t = s.current
    · rw [if_pos ht, if_pos ht]
      exact ⟨s1, rfl, hqueue, hcurrent.trans ht.symm, hstate⟩
    · rw [if_neg ht, if_neg ht]
      refine ⟨_, rfl, hqueue.congr rfl rfl rfl, rfl, ?_⟩
      rw [← hstate]
      rfl

theorem retiredQueue_perm (hcur : ∀ t, s.current = some t → t ∈ l) :
    (retiredQueue s l).Perm l := by
  unfold retiredQueue
  cases hc : s.current with
  | none => exact List.Perm.refl l
  | some prev =>
    dsimp only
    split
    · exact List.Perm.refl l
    · have hback : (l.erase prev ++ [prev]).Perm ([prev] ++ l.erase prev) :=
        List.perm_append_comm
      exact hback.trans (List.perm_cons_erase (hcur prev hc)).symm

end Schedule

end Sched
end Homunculos
