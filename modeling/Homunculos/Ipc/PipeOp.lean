import Homunculos.Lib.Ring

/-!
# Pipe operations

`pipe_read_op`, `pipe_write_op` and the two close operations of
`kernel/pipe.c` on one pipe.

A call is modelled by its activations.  An activation runs from the loop head
at which the call stands to the next `task_block` or to the return; after
`task_block` the loop condition is tested again, so the first activation of a
call and the later ones are the same function.  `task_wake` is reported as the
pid to wake.
-/

namespace Homunculos
namespace Ipc

def pipeBufSize : Nat := 4096

/-- `struct pipe`; `ring` has `buf`, `read_pos`, `write_pos` and `bytes`. -/
structure Pipe where
  ring : Ring (BitVec 8)
  readRefs : Nat
  writeRefs : Nat
  readerPid : Int
  writerPid : Int

/-- The pipe that `pipe_alloc` sets up. -/
def pipeNew : Pipe where
  ring := ⟨fun _ => 0, 0, 0, 0⟩
  readRefs := 1
  writeRefs := 1
  readerPid := -1
  writerPid := -1

/-- The bytes in the pipe. -/
def Pipe.bytes (p : Pipe) : Nat :=
  p.ring.count

/-- The copy loop of `pipe_read_op`: the bytes handed out and the ring left. -/
def copyOut (r : Ring (BitVec 8)) : Nat → List (BitVec 8) × Ring (BitVec 8)
  | 0 => ([], r)
  | nbyte + 1 =>
    if r.count = 0 then
      ([], r)
    else
      let rest := copyOut (r.pop pipeBufSize) nbyte
      (r.buf r.readPos :: rest.1, rest.2)

/-- How an activation of `pipe_read_op` ends. -/
inductive ReadOutcome where
  | blocked (p : Pipe)
  | done (ret : Int) (bytes : List (BitVec 8)) (p : Pipe) (wake : Option Int)

/-- `pipe_read_op` called by the task `pid`. -/
def pipeReadOp (p : Pipe) (pid : Int) (nbyte : Nat) : ReadOutcome :=
  if p.bytes = 0 then
    if p.writeRefs = 0 then
      .done 0 [] p none
    else
      .blocked { p with readerPid := pid }
  else
    let c := copyOut p.ring nbyte
    if 0 ≤ p.writerPid then
      .done c.1.length c.1 { p with ring := c.2, writerPid := -1 }
        (some p.writerPid)
    else
      .done c.1.length c.1 { p with ring := c.2 } none

/--
The copy loop of `pipe_write_op` up to the end of the source or a full pipe:
the bytes stored, those not stored yet, and the ring left.
-/
def copyIn (r : Ring (BitVec 8)) :
    List (BitVec 8) → List (BitVec 8) × List (BitVec 8) × Ring (BitVec 8)
  | [] => ([], [], r)
  | b :: src =>
    if pipeBufSize ≤ r.count then
      ([], b :: src, r)
    else
      let rest := copyIn (r.push pipeBufSize b) src
      (b :: rest.1, rest.2)

/-- How an activation of `pipe_write_op` ends. -/
inductive WriteOutcome where
  | blocked (stored rest : List (BitVec 8)) (p : Pipe)
  | done (ret : Int) (stored : List (BitVec 8)) (p : Pipe)
      (wake : Option Int)

/-- `pipe_write_op` called by the task `pid`, with `total` bytes stored by earlier activations.
The result is a 32-bit `int`. -/
def pipeWriteOp (p : Pipe) (pid : Int) (src : List (BitVec 8)) (total : Nat) : WriteOutcome :=
  let c := copyIn p.ring src
  if c.2.1 = [] then
    let ret := Int.bmod (total + c.1.length) (2 ^ 32)
    if 0 ≤ p.readerPid then
      .done ret c.1 { p with ring := c.2.2, readerPid := -1 }
        (some p.readerPid)
    else
      .done ret c.1 { p with ring := c.2.2 } none
  else if p.readRefs = 0 then
    .done (-1) c.1 { p with ring := c.2.2 } none
  else
    .blocked c.1 c.2.1 { p with ring := c.2.2, writerPid := pid }

/-- `pipe_close_read`: the pipe, the task woken, and whether it is freed. -/
def pipeCloseRead (p : Pipe) : Pipe × Option Int × Bool :=
  let q := { p with readRefs := p.readRefs - 1 }
  if q.readRefs = 0 then
    if 0 ≤ q.writerPid then
      ({ q with writerPid := -1 }, some q.writerPid, q.writeRefs == 0)
    else
      (q, none, q.writeRefs == 0)
  else
    (q, none, false)

def pipeCloseWrite (p : Pipe) : Pipe × Option Int × Bool :=
  let q := { p with writeRefs := p.writeRefs - 1 }
  if q.writeRefs = 0 then
    if 0 ≤ q.readerPid then
      ({ q with readerPid := -1 }, some q.readerPid, q.readRefs == 0)
    else
      (q, none, q.readRefs == 0)
  else
    (q, none, false)

section Loops

variable {r : Ring (BitVec 8)}

theorem copyOut_spec (n : Nat) (h : r.Valid pipeBufSize) :
    (copyOut r n).2.Valid pipeBufSize ∧
      r.toList pipeBufSize =
        (copyOut r n).1 ++ (copyOut r n).2.toList pipeBufSize := by
  induction n generalizing r with
  | zero => exact ⟨h, rfl⟩
  | succ n ih =>
    rw [copyOut]
    by_cases hnone : r.count = 0
    · rw [if_pos hnone]
      exact ⟨h, rfl⟩
    · rw [if_neg hnone]
      have hsome : 0 < r.count := Nat.pos_of_ne_zero hnone
      obtain ⟨hvalid, hlist⟩ := ih (h.pop hsome)
      refine ⟨hvalid, ?_⟩
      rw [h.toList_pop hsome, hlist, List.cons_append]

theorem copyIn_spec (src : List (BitVec 8)) (h : r.Valid pipeBufSize) :
    (copyIn r src).2.2.Valid pipeBufSize ∧
      src = (copyIn r src).1 ++ (copyIn r src).2.1 ∧
      (copyIn r src).2.2.toList pipeBufSize =
        r.toList pipeBufSize ++ (copyIn r src).1 ∧
      ((copyIn r src).2.1 ≠ [] →
        (copyIn r src).2.2.count = pipeBufSize) := by
  induction src generalizing r with
  | nil => simp [copyIn, h]
  | cons b src ih =>
    rw [copyIn]
    by_cases hfull : pipeBufSize ≤ r.count
    · rw [if_pos hfull]
      simp only [List.nil_append, List.append_nil, true_and]
      exact ⟨h, fun _ => le_antisymm h.count_le hfull⟩
    · rw [if_neg hfull]
      have hroom : r.count < pipeBufSize := Nat.lt_of_not_le hfull
      obtain ⟨hvalid, hsrc, hlist, hrest⟩ := ih (h.push hroom b)
      refine ⟨hvalid, ?_, ?_, hrest⟩
      · rw [List.cons_append, ← hsrc]
      · rw [hlist, h.toList_push hroom, List.append_assoc]
        rfl

end Loops

section Outcomes

variable {p : Pipe} (pid : Int)

/--
Everything an activation of `pipe_read_op` can do: block on an empty pipe and
leave its pid, or return the number of bytes it took.
-/
theorem pipeReadOp_cases (h : p.ring.Valid pipeBufSize) (nbyte : Nat) :
    (p.bytes = 0 ∧
        pipeReadOp p pid nbyte = .blocked { p with readerPid := pid }) ∨
      ∃ bytes q wake,
        pipeReadOp p pid nbyte = .done (bytes.length : Int) bytes q wake ∧
        q.ring.Valid pipeBufSize ∧
        p.ring.toList pipeBufSize =
          bytes ++ q.ring.toList pipeBufSize ∧
        (p.bytes = 0 → p.writeRefs = 0) ∧
        q.readRefs = p.readRefs ∧ q.writeRefs = p.writeRefs ∧
        q.readerPid = p.readerPid := by
  unfold pipeReadOp
  by_cases hempty : p.bytes = 0
  · rw [if_pos hempty]
    by_cases heof : p.writeRefs = 0
    · rw [if_pos heof]
      exact Or.inr ⟨[], p, none, rfl, h, rfl, fun _ => heof, rfl, rfl, rfl⟩
    · rw [if_neg heof]
      exact Or.inl ⟨hempty, rfl⟩
  · rw [if_neg hempty]
    obtain ⟨hvalid, hlist⟩ := copyOut_spec nbyte h
    right
    by_cases hwake : 0 ≤ p.writerPid
    · rw [if_pos hwake]
      exact ⟨_, _, _, rfl, hvalid, hlist, fun h0 => absurd h0 hempty, rfl, rfl, rfl⟩
    · rw [if_neg hwake]
      exact ⟨_, _, _, rfl, hvalid, hlist, fun h0 => absurd h0 hempty, rfl, rfl, rfl⟩

/--
Everything an activation of `pipe_write_op` can do: store a front part of its
source and block on the full pipe, store all of it and return the total, or
fail on a full pipe without readers.
-/
theorem pipeWriteOp_cases (h : p.ring.Valid pipeBufSize) (src : List (BitVec 8)) (total : Nat) :
    ∃ stored rest q,
      src = stored ++ rest ∧
      q.ring.Valid pipeBufSize ∧
      q.ring.toList pipeBufSize = p.ring.toList pipeBufSize ++ stored ∧
      q.readRefs = p.readRefs ∧ q.writeRefs = p.writeRefs ∧
      ((rest ≠ [] ∧ q.bytes = pipeBufSize ∧ q.writerPid = pid ∧
          q.readerPid = p.readerPid ∧
          pipeWriteOp p pid src total = .blocked stored rest q) ∨
        (rest = [] ∧ q.readerPid < 0 ∧
          pipeWriteOp p pid src total =
            .done (Int.bmod (total + src.length) (2 ^ 32)) stored q
              (if 0 ≤ p.readerPid then some p.readerPid else none)) ∨
        (rest ≠ [] ∧ p.readRefs = 0 ∧
          pipeWriteOp p pid src total = .done (-1) stored q none)) := by
  obtain ⟨hvalid, hsrc, hlist, hfull⟩ := copyIn_spec src h
  unfold pipeWriteOp
  by_cases hend : (copyIn p.ring src).2.1 = []
  · rw [if_pos hend]
    have hall : src = (copyIn p.ring src).1 := by
      rw [hend, List.append_nil] at hsrc
      exact hsrc
    by_cases hwake : 0 ≤ p.readerPid
    · rw [if_pos hwake, if_pos hwake, ← hall]
      exact ⟨src, [], { p with ring := (copyIn p.ring src).2.2
                               readerPid := -1 },
        by simp, hvalid, by rw [hlist, ← hall], rfl, rfl,
        Or.inr (Or.inl ⟨rfl, by simp, rfl⟩)⟩
    · rw [if_neg hwake, if_neg hwake, ← hall]
      exact ⟨src, [], { p with ring := (copyIn p.ring src).2.2 },
        by simp, hvalid, by rw [hlist, ← hall], rfl, rfl,
        Or.inr (Or.inl ⟨rfl, by simpa using hwake, rfl⟩)⟩
  · rw [if_neg hend]
    by_cases hrefs : p.readRefs = 0
    · rw [if_pos hrefs]
      exact ⟨_, _, { p with ring := (copyIn p.ring src).2.2 },
        hsrc, hvalid, hlist, rfl, rfl,
        Or.inr (Or.inr ⟨hend, hrefs, rfl⟩)⟩
    · rw [if_neg hrefs]
      exact ⟨_, _, { p with ring := (copyIn p.ring src).2.2
                            writerPid := pid },
        hsrc, hvalid, hlist, rfl, rfl,
        Or.inl ⟨hend, hfull hend, rfl, rfl, rfl⟩⟩

end Outcomes

end Ipc
end Homunculos
