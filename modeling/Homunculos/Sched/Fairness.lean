import Homunculos.Sched.RunQueue

/-!
# Runs of the scheduler

Tasks are added, `schedule` is called, and between the calls the states of
tasks change in any way that keeps EXITED tasks EXITED.  Along every such run
the queue holds the added tasks, each once.  A READY task is passed over only
by tasks ahead of it, each at most once: the task that is chosen in its place
goes behind it at the next call or never runs again.
-/

namespace Homunculos
namespace Sched

open TaskState (ready running exited)

inductive QueueEvent where
  | add (t : Task)
  | schedule
  /-- Blocking, waking and exiting: every task gets the state that `f` says. -/
  | change (f : Task → TaskState)

/-- The result is `none` when a call does not return. -/
def queueStep (s : Scheduler) : QueueEvent → Option Scheduler
  | .add t => some (schedulerAddTask s (some t))
  | .schedule => schedule s
  | .change f => some { s with state := f }

def queueRun (s : Scheduler) (es : List QueueEvent) : Option Scheduler :=
  es.foldlM queueStep s

/-- The tasks that a run adds. -/
def added : List QueueEvent → List Task
  | [] => []
  | .add t :: es => t :: added es
  | _ :: es => added es

/-- The number of calls of `schedule` in a run. -/
def calls : List QueueEvent → Nat
  | [] => 0
  | .schedule :: es => calls es + 1
  | _ :: es => calls es

/-- Only EXITED is permanent. -/
def keepsExited (s : Scheduler) : QueueEvent → Prop
  | .change f => ∀ t, s.state t = exited → f t = exited
  | _ => True

/-- In every state of the run the next event keeps EXITED tasks EXITED. -/
def ExitedPermanent : Scheduler → List QueueEvent → Prop
  | _, [] => True
  | s, e :: es => keepsExited s e ∧ ∀ s', queueStep s e = some s' → ExitedPermanent s' es

/-- One of the first `n` calls of `schedule` in the run chooses `t`. -/
def ChosenWithin (n : Nat) (s : Scheduler) (es : List QueueEvent) (t : Task) : Prop :=
  ∃ pre post s₁ s₂, es = pre ++ .schedule :: post ∧ calls pre < n ∧
    queueRun s pre = some s₁ ∧ schedule s₁ = some s₂ ∧ s₂.current = some t

/-- Until `t` is chosen, it stays READY. -/
def StaysReady (s : Scheduler) (es : List QueueEvent) (t : Task) : Prop :=
  s.state t = ready ∧
    ∀ pre f post, es = pre ++ .change f :: post →
      f t = ready ∨ ∃ n, ChosenWithin n s pre t

section Events

theorem added_append (es es' : List QueueEvent) :
    added (es ++ es') = added es ++ added es' := by
  induction es with
  | nil => rfl
  | cons e es ih =>
    cases e with
    | add t => simp [added, ih]
    | schedule => simpa [added] using ih
    | change f => simpa [added] using ih

variable {s s' : Scheduler} {e : QueueEvent} {es : List QueueEvent} {t : Task} {n : Nat}

theorem queueRun_cons (h : queueStep s e = some s') :
    queueRun s (e :: es) = queueRun s' es := by
  simp [queueRun, h]

theorem ChosenWithin.cons (h : ChosenWithin n s' es t) (hstep : queueStep s e = some s') :
    ChosenWithin (calls [e] + n) s (e :: es) t := by
  obtain ⟨pre, post, s₁, s₂, rfl, hcalls, hpre, hchoice⟩ := h
  refine ⟨e :: pre, post, s₁, s₂, rfl, ?_, (queueRun_cons hstep).trans hpre, hchoice⟩
  cases e with
  | add t => simpa [calls] using hcalls
  | schedule =>
    simp only [calls]
    omega
  | change f => simpa [calls] using hcalls

theorem ChosenWithin.tail (h : ChosenWithin n s (e :: es) t) (hstep : queueStep s e = some s')
    (hfirst : e = .schedule → s'.current ≠ some t) :
    ∃ m, ChosenWithin m s' es t := by
  obtain ⟨pre, post, s₁, s₂, heq, hcalls, hpre, hcall, hchosen⟩ := h
  cases pre with
  | nil =>
    obtain ⟨he, -⟩ := List.cons.inj heq
    have hsame : s = s₁ := Option.some.inj hpre
    rw [he, queueStep, hsame, hcall] at hstep
    exact absurd (Option.some.inj hstep ▸ hchosen) (hfirst he)
  | cons e' pre =>
    obtain ⟨rfl, rfl⟩ := List.cons.inj heq
    rw [queueRun_cons hstep] at hpre
    exact ⟨calls pre + 1, pre, post, s₁, s₂, rfl, Nat.lt_succ_self _, hpre, hcall, hchosen⟩

theorem StaysReady.tail
    (h : StaysReady s (e :: es) t) (hstep : queueStep s e = some s') (hready : s'.state t = ready)
    (hfirst : e = .schedule → s'.current ≠ some t) :
    StaysReady s' es t := by
  refine ⟨hready, ?_⟩
  intro pre f post heq
  rcases h.2 (e :: pre) f post (by rw [heq]; rfl) with hf | ⟨n, hn⟩
  · exact Or.inl hf
  · exact Or.inr (hn.tail hstep hfirst)

end Events

section Steps

/-- The queue is `l` and the current task is in it. -/
structure Scheduled (s : Scheduler) (l : List Task) : Prop where
  queue : Queue s l
  current_mem : ∀ t, s.current = some t → t ∈ l

variable {s s' : Scheduler} {l : List Task} {t : Task}

theorem boot_scheduled :
    Scheduled bootScheduler [] where
  queue := boot_queue
  current_mem := by
    intro t ht
    cases ht

theorem Scheduled.add (h : Scheduled s l) (ht : t ∉ l) :
    Scheduled (schedulerAddTask s (some t)) (l ++ [t]) where
  queue := addTask_queue h.queue ht
  current_mem := by
    intro u hu
    rw [addTask_current] at hu
    exact List.mem_append_left _ (h.current_mem u hu)

theorem Scheduled.change (h : Scheduled s l) (f : Task → TaskState) :
    Scheduled { s with state := f } l where
  queue := h.queue.congr rfl rfl rfl
  current_mem := h.current_mem

/-- `schedule` returns and keeps the queue. -/
theorem Scheduled.schedule (h : Scheduled s l) :
    ∃ s', schedule s = some s' ∧ Scheduled s' (retiredQueue s l) := by
  obtain ⟨s', hstep, hqueue, hcases⟩ := schedule_spec h.queue h.current_mem
  refine ⟨s', hstep, hqueue, ?_⟩
  have hperm := retiredQueue_perm h.current_mem
  intro u hu
  cases hfind : (retiredQueue s l).find? (fun t => decide (retiredState s t = ready)) with
  | none =>
    rw [hfind] at hcases
    exact hperm.mem_iff.mpr (h.current_mem u (hcases.2 ▸ hu))
  | some v =>
    rw [hfind] at hcases
    have huv : v = u := Option.some.inj (hcases.1.symm.trans hu)
    exact huv ▸ List.mem_of_find?_eq_some hfind

theorem Scheduled.run {es : List QueueEvent} (h : Scheduled s l) (hnew : (l ++ added es).Nodup) :
    ∃ s' l', queueRun s es = some s' ∧ Scheduled s' l' ∧ l'.Perm (l ++ added es) := by
  induction es generalizing s l with
  | nil =>
    refine ⟨s, l, rfl, h, ?_⟩
    simp [added]
  | cons e es ih =>
    cases e with
    | add t =>
      have hassoc : l ++ added (.add t :: es) = l ++ [t] ++ added es := by simp [added]
      rw [hassoc] at hnew ⊢
      have ht : t ∉ l := by
        intro hmem
        have hlt := (List.nodup_append.mp hnew).1
        exact (List.nodup_append.mp hlt).2.2 t hmem t (by simp) rfl
      obtain ⟨s', l', hrun, hrest⟩ := ih (h.add ht) hnew
      exact ⟨s', l', (queueRun_cons rfl).trans hrun, hrest⟩
    | schedule =>
      obtain ⟨s₁, hstep, hs1⟩ := h.schedule
      have hperm : (retiredQueue s l ++ added es).Perm (l ++ added es) :=
        (retiredQueue_perm h.current_mem).append_right _
      obtain ⟨s', l', hrun, hs', hl'⟩ := ih hs1 (hperm.nodup_iff.mpr hnew)
      have hfirst : queueRun s (.schedule :: es) = queueRun s₁ es := queueRun_cons hstep
      exact ⟨s', l', hfirst.trans hrun, hs', hl'.trans hperm⟩
    | change f =>
      obtain ⟨s', l', hrun, hrest⟩ := ih (h.change f) hnew
      exact ⟨s', l', (queueRun_cons rfl).trans hrun, hrest⟩

end Steps

section Rivals

variable {s s' : Scheduler} {a b : List Task} {t u : Task}

/-- The tasks of `a` that can still be chosen before the task behind `a`. -/
def rivals (s : Scheduler) (a : List Task) : Finset Task :=
  a.toFinset.filter (fun u => s.state u ≠ exited ∧ s.current ≠ some u)

theorem mem_rivals :
    u ∈ rivals s a ↔ u ∈ a ∧ s.state u ≠ exited ∧ s.current ≠ some u := by
  simp [rivals]

theorem rivals_card_le :
    (rivals s a).card ≤ a.length :=
  (Finset.card_filter_le _ _).trans a.toFinset_card_le

/-- What is ahead of a task once the caller of `schedule` has been retired. -/
def stillAhead (s : Scheduler) (a : List Task) : List Task :=
  a.filter (fun u => decide (s.current ≠ some u ∨ s.state u = exited))

theorem mem_stillAhead :
    u ∈ stillAhead s a ↔ u ∈ a ∧ (s.current ≠ some u ∨ s.state u = exited) := by
  simp [stillAhead]

theorem retiredState_exited_iff :
    retiredState s u = exited ↔ s.state u = exited := by
  unfold retiredState
  split
  case isTrue h => simp [h.2]
  case isFalse => rfl

theorem stillAhead_eq_self (h : ∀ u ∈ a, s.current = some u → s.state u = exited) :
    stillAhead s a = a := by
  apply List.filter_eq_self.mpr
  intro u hu
  by_cases hc : s.current = some u
  · simp [h u hu hc]
  · simp [hc]

/-- Retiring another task leaves `t` behind what is still ahead of it. -/
theorem retiredQueue_split (hnodup : (a ++ t :: b).Nodup) (ht : s.current ≠ some t) :
    ∃ b', retiredQueue s (a ++ t :: b) = stillAhead s a ++ t :: b' := by
  unfold retiredQueue
  cases hc : s.current with
  | none =>
    rw [stillAhead_eq_self (by simp [hc])]
    exact ⟨b, rfl⟩
  | some prev =>
    dsimp only
    by_cases hexit : s.state prev = exited
    · rw [if_pos hexit, stillAhead_eq_self]
      · exact ⟨b, rfl⟩
      · intro u _ hu
        rw [hc] at hu
        rwa [← Option.some.inj hu]
    · rw [if_neg hexit]
      have htprev : t ≠ prev := by
        intro heq
        exact ht (heq ▸ hc)
      have hfilter : stillAhead s a = a.erase prev := by
        rw [(List.nodup_append.mp hnodup).1.erase_eq_filter]
        apply List.filter_congr
        intro u _
        by_cases hu : u = prev
        · subst hu
          simp [hc, hexit]
        · simp [hc, hu, Ne.symm hu]
      rw [hfilter]
      by_cases hmem : prev ∈ a
      · rw [List.erase_append_left _ hmem]
        exact ⟨b ++ [prev], by simp⟩
      · rw [List.erase_append_right _ hmem, List.erase_of_not_mem hmem,
          List.erase_cons_tail (by simpa using htprev)]
        exact ⟨b.erase prev ++ [prev], by simp⟩

/-- A call that does not choose the READY task `t` leaves fewer rivals of it. -/
theorem schedule_passes
    (h : Scheduled s (a ++ t :: b)) (hcur : s.current ≠ some t) (hready : s.state t = ready) :
    ∃ s' a' b', schedule s = some s' ∧ Scheduled s' (a' ++ t :: b') ∧
      (a' ++ t :: b').Perm (a ++ t :: b) ∧
      (s'.current = some t ∨
        s'.current ≠ some t ∧ s'.state t = ready ∧
          (rivals s' a').card < (rivals s a).card) := by
  obtain ⟨b', hsplit⟩ := retiredQueue_split h.queue.nodup hcur
  obtain ⟨s', hstep, hs'⟩ := h.schedule
  obtain ⟨s'', hstep', -, hcases⟩ := schedule_spec h.queue h.current_mem
  obtain rfl : s' = s'' := Option.some.inj (hstep.symm.trans hstep')
  have hperm := retiredQueue_perm h.current_mem
  rw [hsplit] at hs' hcases hperm
  refine ⟨s', stillAhead s a, b', hstep, hs', hperm, ?_⟩
  have hreadyNow : retiredState s t = ready := by simp [retiredState, hready]
  cases hfind : (stillAhead s a ++ t :: b').find?
      (fun u => decide (retiredState s u = ready)) with
  | none =>
    have hnone := List.find?_eq_none.mp hfind t (by simp)
    simp [hreadyNow] at hnone
  | some u =>
    rw [hfind] at hcases
    obtain ⟨hcurrent, hstate⟩ := hcases
    by_cases hut : u = t
    · exact Or.inl (hut ▸ hcurrent)
    right
    -- the chosen task stands before `t`, so it was ahead of it
    have hu : u ∈ stillAhead s a := by
      rw [List.find?_append] at hfind
      cases hfirst : (stillAhead s a).find? (fun u => decide (retiredState s u = ready)) with
      | none =>
        rw [hfirst, Option.none_or, List.find?_cons] at hfind
        simp only [hreadyNow, decide_true, Option.some.injEq] at hfind
        exact absurd hfind.symm hut
      | some v =>
        rw [hfirst] at hfind
        exact Option.some.inj hfind ▸ List.mem_of_find?_eq_some hfirst
    have huready : retiredState s u = ready := by simpa using List.find?_some hfind
    have hualive : s.state u ≠ exited := by
      intro hexit
      rw [retiredState_exited_iff.mpr hexit] at huready
      cases huready
    have hunew : s.current ≠ some u := by
      rcases (mem_stillAhead.mp hu).2 with hne | hexit
      · exact hne
      · exact absurd hexit hualive
    rw [if_neg (Ne.symm hunew)] at hstate
    refine ⟨?_, ?_, ?_⟩
    · rw [hcurrent]
      exact fun heq => hut (Option.some.inj heq)
    · rw [hstate, Function.update_of_ne (Ne.symm hut), hreadyNow]
    · apply Finset.card_lt_card
      rw [Finset.ssubset_iff_of_subset]
      · refine ⟨u, mem_rivals.mpr ⟨(mem_stillAhead.mp hu).1, hualive, hunew⟩, ?_⟩
        intro hmem
        exact (mem_rivals.mp hmem).2.2 hcurrent
      · intro v hv
        obtain ⟨hva, hvalive, hvcur⟩ := mem_rivals.mp hv
        obtain ⟨hmem, hkept⟩ := mem_stillAhead.mp hva
        have hvu : v ≠ u := by
          intro heq
          exact hvcur (heq ▸ hcurrent)
        rw [hstate, Function.update_of_ne hvu, ne_eq, retiredState_exited_iff] at hvalive
        exact mem_rivals.mpr ⟨hmem, hvalive, hkept.resolve_right hvalive⟩

theorem rivals_change_card_le {f : Task → TaskState} (h : ∀ u, s.state u = exited → f u = exited) :
    (rivals { s with state := f } a).card ≤ (rivals s a).card := by
  apply Finset.card_le_card
  intro u hu
  obtain ⟨hmem, halive, hcur⟩ := mem_rivals.mp hu
  exact mem_rivals.mpr ⟨hmem, fun hexit => halive (h u hexit), hcur⟩

theorem chosen_of_staysReady
    {es : List QueueEvent} {n : Nat} (h : Scheduled s (a ++ t :: b)) (hcur : s.current ≠ some t)
    (hnew : (a ++ t :: b ++ added es).Nodup) (hexited : ExitedPermanent s es)
    (hstay : StaysReady s es t) (hn : (rivals s a).card < n) (hcalls : n ≤ calls es) :
    ChosenWithin n s es t := by
  induction es generalizing s a b n with
  | nil =>
    simp only [calls] at hcalls
    omega
  | cons e es ih =>
    obtain ⟨hkeep, hexited⟩ := hexited
    cases e with
    | add u =>
      have hassoc : a ++ t :: b ++ added (.add u :: es) = a ++ t :: (b ++ [u]) ++ added es := by
        simp [added]
      rw [hassoc] at hnew
      have hu : u ∉ a ++ t :: b := by
        have hfront := (List.nodup_append.mp hnew).1
        rw [← List.cons_append, ← List.append_assoc] at hfront
        intro hmem
        exact (List.nodup_append.mp hfront).2.2 u hmem u (by simp) rfl
      have hadd : Scheduled (schedulerAddTask s (some u)) (a ++ t :: (b ++ [u])) := by
        have := h.add hu
        rwa [List.append_assoc] at this
      have hrivals : rivals (schedulerAddTask s (some u)) a = rivals s a := by simp [rivals]
      have hready : (schedulerAddTask s (some u)).state t = ready := by
        rw [addTask_state]
        exact hstay.1
      have hlater := ih hadd (by rwa [addTask_current]) hnew (hexited _ rfl)
        (hstay.tail rfl hready (by simp)) (hrivals ▸ hn) hcalls
      simpa [calls] using hlater.cons (e := .add u) rfl
    | schedule =>
      obtain ⟨s', a', b', hstep, hs', hperm, hcases⟩ := schedule_passes h hcur hstay.1
      have hpos : 0 < n := by omega
      by_cases hchosen : s'.current = some t
      · exact ⟨[], es, s, s', rfl, hpos, rfl, hstep, hchosen⟩
      obtain ⟨hcur', hready', hfewer⟩ := hcases.resolve_left hchosen
      have hnew' : (a' ++ t :: b' ++ added es).Nodup :=
        (hperm.append_right _).nodup_iff.mpr hnew
      have hlater := ih hs' hcur' hnew' (hexited _ hstep)
        (hstay.tail hstep hready' (fun _ => hcur')) (n := n - 1) (by omega)
        (by simp only [calls] at hcalls; omega)
      have hall := hlater.cons (e := .schedule) hstep
      have hcount : calls [.schedule] + (n - 1) = n := by
        simp only [calls]
        omega
      rwa [hcount] at hall
    | change f =>
      have hf : f t = ready := by
        rcases hstay.2 [] f es rfl with hf | ⟨m, pre, post, _, _, heq, _⟩
        · exact hf
        · simp at heq
      have hfewer := rivals_change_card_le (a := a) hkeep
      have hlater := ih (h.change f) hcur hnew (hexited _ rfl)
        (hstay.tail rfl hf (by simp)) (hfewer.trans_lt hn) hcalls
      simpa [calls] using hlater.cons (e := .change f) rfl

end Rivals

/-- Every run keeps the queue an acyclic list of the added tasks, each once, that ends at the
tail. A queued task that is not current and stays READY is chosen by one of the next `p + 1` calls
of `schedule`, `p` tasks being ahead of it. -/
theorem run_queue_exact_and_fair
    (es : List QueueEvent) (honce : (added es).Nodup) :
    ∃ s l, queueRun bootScheduler es = some s ∧ Queue s l ∧ l.Perm (added es) ∧
      ∀ t ∈ l, s.current ≠ some t →
        ∀ es', (added (es ++ es')).Nodup → ExitedPermanent s es' → StaysReady s es' t →
          l.idxOf t + 1 ≤ calls es' →
            ChosenWithin (l.idxOf t + 1) s es' t := by
  obtain ⟨s, l, hrun, hs, hl⟩ :=
    boot_scheduled.run (show ([] ++ added es).Nodup from honce)
  refine ⟨s, l, hrun, hs.queue, hl, ?_⟩
  intro t ht hcur es' hnew hexited hstay hcalls
  obtain ⟨a, b, rfl⟩ := List.mem_iff_append.mp ht
  have ha : t ∉ a := by
    intro hmem
    exact (List.nodup_append.mp hs.queue.nodup).2.2 t hmem t (by simp) rfl
  have hplace : (a ++ t :: b).idxOf t = a.length := by
    rw [List.idxOf_append_of_notMem ha, List.idxOf_cons_self, Nat.add_zero]
  rw [hplace] at hcalls ⊢
  have hlater : (a ++ t :: b ++ added es').Nodup := by
    rw [added_append] at hnew
    exact (hl.append_right _).nodup_iff.mpr hnew
  exact chosen_of_staysReady hs hcur hlater hexited hstay
    (Nat.lt_succ_of_le rivals_card_le) hcalls

/-- Three tasks are added and made READY; the first one runs, then exits. -/
theorem run_queue_exact_and_fair_three :
    ∃ s, queueRun bootScheduler
        [.add 0, .add 1, .add 2, .change (fun _ => ready), .schedule] = some s ∧
      Queue s [0, 1, 2] ∧
      ChosenWithin 3 s
        [.change (fun t => if t = 0 then exited else ready), .schedule, .schedule,
          .schedule] 2 := by
  obtain ⟨s, l, hrun, hqueue, -, hfair⟩ := run_queue_exact_and_fair
    [.add 0, .add 1, .add 2, .change (fun _ => ready), .schedule] (by decide)
  have hstate : s.state = Function.update (fun _ => ready) 0 running ∧ s.current = some 0 ∧
      Queue s [0, 1, 2] := by
    obtain rfl := Option.some.inj hrun
    exact ⟨rfl, rfl, ⟨rfl, rfl, rfl, rfl⟩, rfl, by decide⟩
  obtain ⟨hready, hcurrent, hlist⟩ := hstate
  obtain rfl : l = [0, 1, 2] := hqueue.unique hlist
  refine ⟨s, hrun, hqueue, ?_⟩
  apply hfair 2 (by decide) (by rw [hcurrent]; decide) _ (by decide) _ _ (by decide)
  · refine ⟨?_, fun _ _ => ⟨trivial,
      fun _ _ => ⟨trivial, fun _ _ => ⟨trivial, fun _ _ => trivial⟩⟩⟩⟩
    intro t ht
    rw [hready] at ht
    by_cases h0 : t = 0
    · simp [h0]
    · simp [h0] at ht
  · refine ⟨by rw [hready]; decide, ?_⟩
    intro pre f post heq
    have hmem : QueueEvent.change f ∈ pre ++ .change f :: post := by simp
    rw [← heq] at hmem
    simp only [List.mem_cons, QueueEvent.change.injEq, reduceCtorEq, List.not_mem_nil,
      or_false] at hmem
    exact Or.inl (by rw [hmem]; decide)

end Sched
end Homunculos
