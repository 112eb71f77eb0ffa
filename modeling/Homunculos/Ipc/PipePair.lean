import Homunculos.Ipc.PipeOp
import Homunculos.Lib.Run

/-!
# One reader and one writer

One task reads from a pipe and one writes to it.  A task that blocks is in
state `BLOCKED` until `task_wake` is called with its pid; only then does it
run again.  `pipe_write_op` wakes the reader behind its copy loop, so a write
that fills the pipe and blocks leaves a sleeping reader asleep.  A write that
fits into the pipe cannot do so.
-/

namespace Homunculos
namespace Ipc

/-- The pipe and the two tasks. A call that is suspended at `task_block` keeps its arguments; the
flags say which task is in state `BLOCKED`. -/
structure PairSys where
  pipe : Pipe
  reader : Option Nat
  readerBlocked : Bool
  writer : Option (List (BitVec 8) × Nat)
  writerBlocked : Bool

/-- A new pipe between two tasks that run. -/
def PairSys.init : PairSys where
  pipe := pipeNew
  reader := none
  readerBlocked := false
  writer := none
  writerBlocked := false

section Model

variable (r w : Int)

def PairSys.taskWake (s : PairSys) (pid : Option Int) : PairSys :=
  { s with
    readerBlocked := s.readerBlocked && pid != some r
    writerBlocked := s.writerBlocked && pid != some w }

/-- The reading task runs an activation. -/
def PairSys.runReader (s : PairSys) (nbyte : Nat) : PairSys :=
  match pipeReadOp s.pipe r nbyte with
  | .blocked p => { s with pipe := p, reader := some nbyte, readerBlocked := true }
  | .done _ _ p pid =>
    { s with pipe := p, reader := none, readerBlocked := false }.taskWake
      r w pid

/-- The writing task runs an activation. -/
def PairSys.runWriter (s : PairSys) (src : List (BitVec 8)) (total : Nat) : PairSys :=
  match pipeWriteOp s.pipe w src total with
  | .blocked stored rest p =>
    { s with
      pipe := p
      writer := some (rest, total + stored.length)
      writerBlocked := true }
  | .done _ _ p pid =>
    { s with pipe := p, writer := none, writerBlocked := false }.taskWake
      r w pid

/-- A task calls or, when it is not `BLOCKED`, goes on; writes have up to `n` bytes. -/
inductive PairStep (n : Nat) : PairSys → PairSys → Prop
  | read
      (s : PairSys) (nbyte : Nat)
      (hidle : s.reader = none) :
      PairStep n s (s.runReader r w nbyte)
  | resumeRead
      (s : PairSys) (nbyte : Nat)
      (hcall : s.reader = some nbyte)
      (hready : s.readerBlocked = false) :
      PairStep n s (s.runReader r w nbyte)
  | write
      (s : PairSys) (data : List (BitVec 8))
      (hidle : s.writer = none)
      (hsize : data.length ≤ n) :
      PairStep n s (s.runWriter r w data 0)
  | resumeWrite
      (s : PairSys) (rest : List (BitVec 8)) (total : Nat)
      (hcall : s.writer = some (rest, total))
      (hready : s.writerBlocked = false) :
      PairStep n s (s.runWriter r w rest total)

end Model

/-- The reader sleeps although there are bytes, the writer on the full pipe. -/
structure PairSys.Stuck (s : PairSys) : Prop where
  reader : s.reader ≠ none ∧ s.readerBlocked = true
  bytes : 0 < s.pipe.bytes
  writer : s.writer ≠ none ∧ s.writerBlocked = true
  full : s.pipe.bytes = pipeBufSize

/-- A sleeping reader has left its pid in an empty pipe. -/
structure PairSys.Inv (r : Int) (s : PairSys) : Prop where
  valid : s.pipe.ring.Valid pipeBufSize
  refs : s.pipe.readRefs ≠ 0
  asleep : s.readerBlocked = true → s.pipe.bytes = 0 ∧ s.pipe.readerPid = r
  fits : ∀ rest total, s.writer = some (rest, total) →
    rest.length ≤ pipeBufSize

section Invariant

variable {r w : Int} {s : PairSys}

theorem pairInv_init :
    PairSys.init.Inv r := by
  refine ⟨⟨by decide, by decide, by decide⟩, by decide, ?_, ?_⟩
  · intro h
    cases h
  · intro rest total h
    cases h

theorem bytes_eq_length (p : Pipe) :
    (p.ring.toList pipeBufSize).length = p.bytes :=
  Ring.length_toList p.ring

theorem PairSys.Inv.runReader (h : s.Inv r) (nbyte : Nat) :
    (s.runReader r w nbyte).Inv r := by
  unfold PairSys.runReader
  rcases pipeReadOp_cases r h.valid nbyte with
    ⟨hempty, hout⟩ | ⟨bytes, q, wake, hout, hvalid, _, _, hrefs, _⟩
  · rw [hout]
    exact ⟨h.valid, h.refs, fun _ => ⟨hempty, rfl⟩, h.fits⟩
  · rw [hout]
    refine ⟨hvalid, ?_, ?_, h.fits⟩
    · dsimp only [PairSys.taskWake]
      rw [hrefs]
      exact h.refs
    · intro hblocked
      simp [PairSys.taskWake] at hblocked

theorem PairSys.Inv.runWriter
    (h : s.Inv r) (hr : 0 ≤ r) {src : List (BitVec 8)} (hsize : src.length ≤ pipeBufSize)
    (total : Nat) :
    (s.runWriter r w src total).Inv r := by
  obtain ⟨stored, rest, q, hsrc, hvalid, hlist, hrefs, _, hout⟩ :=
    pipeWriteOp_cases w h.valid src total
  have hlen := congrArg List.length hlist
  rw [List.length_append, bytes_eq_length, bytes_eq_length] at hlen
  have hparts := congrArg List.length hsrc
  rw [List.length_append] at hparts
  have hrefs' : q.readRefs ≠ 0 := by
    rw [hrefs]
    exact h.refs
  unfold PairSys.runWriter
  rcases hout with
    ⟨hrest, hfull, _, _, hout⟩ | ⟨_, _, hout⟩ | ⟨_, hnone, _⟩
  · rw [hout]
    refine ⟨hvalid, hrefs', ?_, ?_⟩
    · -- from an empty pipe the rest would have fitted
      intro hblocked
      obtain ⟨hempty, _⟩ := h.asleep hblocked
      have hpos := List.length_pos_iff.mpr hrest
      omega
    · intro rest' total' hcall
      obtain ⟨rfl, _⟩ := Prod.mk.inj (Option.some.inj hcall)
      omega
  · rw [hout]
    refine ⟨hvalid, hrefs', ?_, ?_⟩
    · intro hblocked
      simp only [PairSys.taskWake, Bool.and_eq_true] at hblocked
      obtain ⟨hblocked, hne⟩ := hblocked
      obtain ⟨_, hpid⟩ := h.asleep hblocked
      rw [hpid, if_pos hr] at hne
      simp at hne
    · intro rest' total' hcall
      cases hcall
  · exact absurd hnone h.refs

theorem PairStep.inv
    {n : Nat} {s' : PairSys} (hstep : PairStep r w n s s') (hr : 0 ≤ r) (hn : n ≤ pipeBufSize)
    (h : s.Inv r) :
    s'.Inv r := by
  cases hstep with
  | read nbyte hidle => exact h.runReader nbyte
  | resumeRead nbyte hcall hready => exact h.runReader nbyte
  | write data hidle hsize => exact h.runWriter hr (hsize.trans hn) 0
  | resumeWrite rest total hcall hready => exact h.runWriter hr (h.fits rest total hcall) total

theorem pairInv_of_run {n : Nat} (hr : 0 ≤ r) (hn : n ≤ pipeBufSize)
    (hrun : Relation.ReflTransGen (PairStep r w n) PairSys.init s) :
    s.Inv r :=
  Run.Keeps.run (fun _ _ hstep hs => hstep.inv hr hn hs) hrun pairInv_init

theorem PairSys.Inv.not_stuck (h : s.Inv r) :
    ¬ s.Stuck := by
  intro hstuck
  obtain ⟨hempty, _⟩ := h.asleep hstuck.reader.2
  have hbytes := hstuck.bytes
  omega

end Invariant

section LongWrite

variable (r w : Int)

/-- The reader reads from the empty pipe. -/
def readerAsleep : PairSys :=
  PairSys.init.runReader r w 1

/-- Then the writer writes one byte more than fits. -/
def longWrite : PairSys :=
  (readerAsleep r w).runWriter r w (List.replicate 4097 0#8) 0

theorem longWrite_reachable {n : Nat} (hn : 4097 ≤ n) :
    Relation.ReflTransGen (PairStep r w n) PairSys.init (longWrite r w) := by
  refine (Relation.ReflTransGen.single (PairStep.read PairSys.init 1 rfl)).tail ?_
  refine PairStep.write (readerAsleep r w) _ rfl ?_
  rw [List.length_replicate]
  exact hn

theorem longWrite_stuck :
    (longWrite r w).Stuck := by
  have hasleep : (readerAsleep r w).Inv r := pairInv_init.runReader 1
  obtain ⟨stored, rest, q, hsrc, hq, hlist, _, _, hout⟩ :=
    pipeWriteOp_cases w hasleep.valid (List.replicate 4097 0#8) 0
  have hrest : rest ≠ [] := by
    rintro rfl
    have hlen := congrArg List.length hlist
    have hparts := congrArg List.length hsrc
    rw [List.length_append, bytes_eq_length] at hlen
    rw [List.append_nil, List.length_replicate] at hparts
    have hle : q.bytes ≤ 4096 := hq.count_le
    omega
  rcases hout with ⟨_, hfull, _, _, hout⟩ | ⟨hend, _⟩ | ⟨_, hrefs, _⟩
  · unfold longWrite PairSys.runWriter
    rw [hout]
    refine ⟨⟨?_, rfl⟩, ?_, ⟨?_, rfl⟩, hfull⟩
    · intro h
      cases h
    · rw [hfull]
      decide
    · intro h
      cases h
  · exact absurd hend hrest
  · exact absurd hrefs hasleep.refs

end LongWrite

/--
With writes of up to `n` bytes no run reaches a state in which both tasks
sleep on a full pipe, exactly when every write fits into the pipe.
-/
theorem no_stuck_pair_iff
    (r w : Int) (hr : 0 ≤ r) (n : Nat) :
    (∀ s, Relation.ReflTransGen (PairStep r w n) PairSys.init s →
        ¬ s.Stuck) ↔ n ≤ 4096 := by
  constructor
  · intro hnever
    by_contra hbig
    exact hnever _ (longWrite_reachable r w (by omega))
      (longWrite_stuck r w)
  · intro hn s hrun
    exact (pairInv_of_run hr hn hrun).not_stuck

/-- The bound is exact. -/
theorem no_stuck_pair_iff_short :
    (∀ s, Relation.ReflTransGen (PairStep 1 2 4096) PairSys.init s → ¬ s.Stuck) ∧
    ¬ ∀ s, Relation.ReflTransGen (PairStep 1 2 4097) PairSys.init s →
      ¬ s.Stuck :=
  ⟨(no_stuck_pair_iff 1 2 (by decide) 4096).mpr (le_refl _),
    fun hnever =>
      absurd ((no_stuck_pair_iff 1 2 (by decide) 4097).mp hnever) (by decide)⟩

/-- A read of an empty pipe and then a write of 4097 bytes. -/
theorem longWrite_leaves_both_asleep :
    Relation.ReflTransGen (PairStep 1 2 4097) PairSys.init (longWrite 1 2) ∧
      (longWrite 1 2).Stuck :=
  ⟨longWrite_reachable 1 2 (le_refl _), longWrite_stuck 1 2⟩

end Ipc
end Homunculos
