import Homunculos.Ipc.PipeOp
import Homunculos.Lib.Run

/-!
# Histories of one pipe

Any number of calls of `pipe_read_op` and `pipe_write_op` on one pipe, each
suspended at `task_block` and resumed in any order, woken or not; the ends may
be closed at any time.  Two histories record every byte stored and every byte
taken together with the call that did it.

The pipe is a queue between the two histories: what was taken, followed by
what is in the ring, is what was stored.
-/

namespace Homunculos
namespace Ipc

open Function

/-- A byte of a history with the call it belongs to. -/
abbrev Event := Nat × BitVec 8

/-- The bytes of call `id` in a history. -/
def ofCall (id : Nat) (h : List Event) : List (BitVec 8) :=
  (h.filter (fun e => e.1 = id)).map Prod.snd

/-- Bytes handled by call `id`, in order. -/
def tag (id : Nat) (bytes : List (BitVec 8)) : List Event :=
  bytes.map (fun b => (id, b))

theorem map_snd_tag (id : Nat) (bytes : List (BitVec 8)) :
    (tag id bytes).map Prod.snd = bytes := by
  simp [tag]

theorem ofCall_append_self (id : Nat) (h : List Event) (bytes : List (BitVec 8)) :
    ofCall id (h ++ tag id bytes) = ofCall id h ++ bytes := by
  simp [ofCall, tag, List.filter_map]

theorem ofCall_append_of_ne
    {id id' : Nat} (hne : id' ≠ id) (h : List Event) (bytes : List (BitVec 8)) :
    ofCall id' (h ++ tag id bytes) = ofCall id' h := by
  simp [ofCall, tag, hne.symm]

/-- Where a call stands. -/
inductive Call where
  | reading (pid : Int) (nbyte : Nat)
  | readDone (ret : Int)
  | writing (pid : Int) (data rest : List (BitVec 8)) (total : Nat)
  | writeDone (data : List (BitVec 8)) (ret : Int)

/-- One pipe, the calls made on it and its two histories. -/
structure PipeSys where
  pipe : Pipe
  calls : Nat → Option Call
  stored : List Event
  taken : List Event

/-- A new pipe without calls. -/
def PipeSys.init : PipeSys where
  pipe := pipeNew
  calls := fun _ => none
  stored := []
  taken := []

/-- Run an activation of the read call `id`. -/
def PipeSys.activateRead (s : PipeSys) (id : Nat) (pid : Int) (nbyte : Nat) : PipeSys :=
  match pipeReadOp s.pipe pid nbyte with
  | .blocked p =>
    { s with
      pipe := p
      calls := update s.calls id (some (.reading pid nbyte)) }
  | .done ret bytes p _ =>
    { s with
      pipe := p
      calls := update s.calls id (some (.readDone ret))
      taken := s.taken ++ tag id bytes }

/-- Run an activation of the write call `id`, whose buffer is `data`. -/
def PipeSys.activateWrite (s : PipeSys) (id : Nat) (pid : Int) (data rest : List (BitVec 8))
    (total : Nat) : PipeSys :=
  match pipeWriteOp s.pipe pid rest total with
  | .blocked bytes rest' p =>
    { s with
      pipe := p
      calls := update s.calls id
        (some (.writing pid data rest' (total + bytes.length)))
      stored := s.stored ++ tag id bytes }
  | .done ret bytes p _ =>
    { s with
      pipe := p
      calls := update s.calls id (some (.writeDone data ret))
      stored := s.stored ++ tag id bytes }

/-- A call is made or resumed, or an end is closed. -/
inductive PipeStep : PipeSys → PipeSys → Prop
  | read
      (s : PipeSys) (id : Nat) (pid : Int) (nbyte : Nat)
      (hnew : s.calls id = none) :
      PipeStep s (s.activateRead id pid nbyte)
  | resumeRead
      (s : PipeSys) (id : Nat) (pid : Int) (nbyte : Nat)
      (hcall : s.calls id = some (.reading pid nbyte)) :
      PipeStep s (s.activateRead id pid nbyte)
  | write
      (s : PipeSys) (id : Nat) (pid : Int) (data : List (BitVec 8))
      (hnew : s.calls id = none)
      (hlen : data.length < 2 ^ 32) :
      PipeStep s (s.activateWrite id pid data data 0)
  | resumeWrite
      (s : PipeSys) (id : Nat) (pid : Int) (data rest : List (BitVec 8))
      (total : Nat)
      (hcall : s.calls id = some (.writing pid data rest total)) :
      PipeStep s (s.activateWrite id pid data rest total)
  | closeRead
      (s : PipeSys)
      (hopen : 0 < s.pipe.readRefs) :
      PipeStep s { s with pipe := (pipeCloseRead s.pipe).1 }
  | closeWrite
      (s : PipeSys)
      (hopen : 0 < s.pipe.writeRefs) :
      PipeStep s { s with pipe := (pipeCloseWrite s.pipe).1 }

/-- What the histories say about call `id`. -/
def PipeSys.CallOk (s : PipeSys) (id : Nat) : Prop :=
  match s.calls id with
  | none => ofCall id s.stored = [] ∧ ofCall id s.taken = []
  | some (.reading _ _) => ofCall id s.taken = []
  | some (.readDone ret) => ((ofCall id s.taken).length : Int) = ret
  | some (.writing _ data rest total) =>
    ofCall id s.stored ++ rest = data ∧
      total = (ofCall id s.stored).length ∧ data.length < 2 ^ 32
  | some (.writeDone data ret) => 0 < ret → ofCall id s.stored = data ∧ ret = data.length

/-- The pipe is a queue between the histories, and they fit every call. -/
structure PipeSys.Inv (s : PipeSys) : Prop where
  valid : s.pipe.ring.Valid pipeBufSize
  fifo : s.taken.map Prod.snd ++ s.pipe.ring.toList pipeBufSize =
    s.stored.map Prod.snd
  callOk : ∀ id, s.CallOk id

section Invariant

variable {s : PipeSys}

theorem inv_init :
    PipeSys.init.Inv := by
  refine ⟨⟨by decide, by decide, by decide⟩, rfl, ?_⟩
  intro id
  exact ⟨rfl, rfl⟩

theorem PipeSys.Inv.act
    {s' : PipeSys} {id : Nat} {c : Call} {bytes bytes' : List (BitVec 8)} (h : s.Inv)
    (hvalid : s'.pipe.ring.Valid pipeBufSize)
    (hfifo : s'.taken.map Prod.snd ++ s'.pipe.ring.toList pipeBufSize = s'.stored.map Prod.snd)
    (hcalls : s'.calls = update s.calls id (some c))
    (hstored : s'.stored = s.stored ++ tag id bytes)
    (htaken : s'.taken = s.taken ++ tag id bytes') (hself : s'.CallOk id) :
    s'.Inv := by
  refine ⟨hvalid, hfifo, ?_⟩
  intro id'
  by_cases heq : id' = id
  · rw [heq]
    exact hself
  · have hother := h.callOk id'
    unfold PipeSys.CallOk at hother ⊢
    rw [hcalls, update_of_ne heq, hstored, htaken, ofCall_append_of_ne heq, ofCall_append_of_ne heq]
    exact hother

theorem append_tag_nil (id : Nat) (h : List Event) :
    h = h ++ tag id [] := by
  simp [tag]

theorem PipeSys.Inv.activateRead
    (h : s.Inv) {id : Nat} (hid : ofCall id s.taken = []) (pid : Int) (nbyte : Nat) :
    (s.activateRead id pid nbyte).Inv := by
  unfold PipeSys.activateRead
  rcases pipeReadOp_cases pid h.valid nbyte with
    ⟨_, hout⟩ | ⟨bytes, q, wake, hout, hvalid, hlist, _⟩
  · rw [hout]
    refine h.act h.valid h.fifo rfl (append_tag_nil id _) (append_tag_nil id _) ?_
    simp only [PipeSys.CallOk, update_self]
    exact hid
  · rw [hout]
    refine h.act hvalid ?_ rfl (append_tag_nil id _) rfl ?_
    · rw [List.map_append, map_snd_tag, List.append_assoc, ← hlist]
      exact h.fifo
    · simp only [PipeSys.CallOk, update_self]
      rw [ofCall_append_self, hid, List.nil_append]

theorem eq_of_bmod_pos {n : Nat} (hn : n < 2 ^ 32) (hpos : 0 < Int.bmod n (2 ^ 32)) :
    Int.bmod n (2 ^ 32) = n := by
  unfold Int.bmod at hpos ⊢
  have hmod : ((n : Int) % (2 ^ 32 : Nat)) = n :=
    Int.emod_eq_of_lt (by omega) (by exact_mod_cast hn)
  simp only [hmod] at hpos ⊢
  split
  · rfl
  · next hbig =>
    omega

theorem PipeSys.Inv.activateWrite (h : s.Inv) {id : Nat} {data rest : List (BitVec 8)} {total : Nat}
    (hdata : ofCall id s.stored ++ rest = data) (htotal : total = (ofCall id s.stored).length)
    (hlen : data.length < 2 ^ 32) (pid : Int) :
    (s.activateWrite id pid data rest total).Inv := by
  obtain ⟨stored, rest', q, hsrc, hvalid, hlist, _, _, hout⟩ :=
    pipeWriteOp_cases pid h.valid rest total
  have hfifo : s.taken.map Prod.snd ++ q.ring.toList pipeBufSize =
      (s.stored ++ tag id stored).map Prod.snd := by
    rw [hlist, ← List.append_assoc, h.fifo, List.map_append, map_snd_tag]
  have hself : ofCall id (s.stored ++ tag id stored) ++ rest' = data := by
    rw [ofCall_append_self, List.append_assoc, ← hsrc, hdata]
  unfold PipeSys.activateWrite
  rcases hout with ⟨_, _, _, _, hout⟩ | ⟨hend, _, hout⟩ | ⟨_, _, hout⟩
  · rw [hout]
    refine h.act hvalid hfifo rfl rfl (append_tag_nil id _) ?_
    simp only [PipeSys.CallOk, update_self]
    refine ⟨hself, ?_, hlen⟩
    rw [ofCall_append_self, List.length_append, htotal]
  · rw [hout]
    refine h.act hvalid hfifo rfl rfl (append_tag_nil id _) ?_
    simp only [PipeSys.CallOk, update_self]
    intro hpos
    have hall : total + rest.length = data.length := by
      rw [htotal, ← hdata, List.length_append]
    rw [hend, List.append_nil] at hself
    have hint : (total : Int) + (rest.length : Int) =
        (data.length : Int) := by
      exact_mod_cast hall
    rw [hint] at hpos ⊢
    exact ⟨hself, eq_of_bmod_pos hlen hpos⟩
  · rw [hout]
    refine h.act hvalid hfifo rfl rfl (append_tag_nil id _) ?_
    simp only [PipeSys.CallOk, update_self]
    intro hpos
    exact absurd hpos (by decide)

theorem ring_pipeCloseRead (p : Pipe) :
    (pipeCloseRead p).1.ring = p.ring := by
  unfold pipeCloseRead
  dsimp only
  split
  · split
    · rfl
    · rfl
  · rfl

theorem ring_pipeCloseWrite (p : Pipe) :
    (pipeCloseWrite p).1.ring = p.ring := by
  unfold pipeCloseWrite
  dsimp only
  split
  · split
    · rfl
    · rfl
  · rfl

theorem PipeStep.inv {s' : PipeSys} (hstep : PipeStep s s') (h : s.Inv) :
    s'.Inv := by
  cases hstep with
  | read id pid nbyte hnew =>
    have hok := h.callOk id
    simp only [PipeSys.CallOk, hnew] at hok
    exact h.activateRead hok.2 pid nbyte
  | resumeRead id pid nbyte hcall =>
    have hok := h.callOk id
    simp only [PipeSys.CallOk, hcall] at hok
    exact h.activateRead hok pid nbyte
  | write id pid data hnew hlen =>
    have hok := h.callOk id
    simp only [PipeSys.CallOk, hnew] at hok
    refine h.activateWrite ?_ ?_ hlen pid
    · rw [hok.1, List.nil_append]
    · rw [hok.1, List.length_nil]
  | resumeWrite id pid data rest total hcall =>
    have hok := h.callOk id
    simp only [PipeSys.CallOk, hcall] at hok
    exact h.activateWrite hok.1 hok.2.1 hok.2.2 pid
  | closeRead hopen =>
    refine ⟨?_, ?_, h.callOk⟩
    · rw [ring_pipeCloseRead]
      exact h.valid
    · rw [ring_pipeCloseRead]
      exact h.fifo
  | closeWrite hopen =>
    refine ⟨?_, ?_, h.callOk⟩
    · rw [ring_pipeCloseWrite]
      exact h.valid
    · rw [ring_pipeCloseWrite]
      exact h.fifo

theorem inv_of_run (hrun : Relation.ReflTransGen PipeStep PipeSys.init s) :
    s.Inv :=
  Run.Keeps.run (fun _ _ hstep hs => hstep.inv hs) hrun inv_init

/--
In every state of every run: the positions and the count agree, the pipe is a
queue between the two histories, a write call that returned a positive number
stored its whole buffer of that length, and a read call that returned a number
took that many bytes.
-/
theorem pipe_is_fifo
    (hrun : Relation.ReflTransGen PipeStep PipeSys.init s) :
    s.pipe.bytes ≤ 4096 ∧
      s.pipe.ring.writePos =
        (s.pipe.ring.readPos + s.pipe.bytes) % 4096 ∧
      s.taken.map Prod.snd ++ s.pipe.ring.toList 4096 =
        s.stored.map Prod.snd ∧
      (∀ id data ret, s.calls id = some (.writeDone data ret) → 0 < ret →
        ofCall id s.stored = data ∧ ret = data.length) ∧
      (∀ id ret, s.calls id = some (.readDone ret) →
        ((ofCall id s.taken).length : Int) = ret) := by
  have h := inv_of_run hrun
  refine ⟨h.valid.count_le, h.valid.writePos_eq, h.fifo, ?_, ?_⟩
  · intro id data ret hcall
    have hok := h.callOk id
    simp only [PipeSys.CallOk, hcall] at hok
    exact hok
  · intro id ret hcall
    have hok := h.callOk id
    simp only [PipeSys.CallOk, hcall] at hok
    exact hok

/-- A reader waits, a writer stores two bytes, the reader takes both. -/
def shortTalk : PipeSys :=
  ((PipeSys.init.activateRead 0 7 16).activateWrite 1 8 [1#8, 2#8] [1#8, 2#8] 0).activateRead 0 7 16

/-- The two bytes arrive in order, and both calls say two. -/
theorem pipe_is_fifo_shortTalk :
    shortTalk.taken.map Prod.snd ++ shortTalk.pipe.ring.toList 4096 =
        shortTalk.stored.map Prod.snd ∧
      ((ofCall 0 shortTalk.taken).length : Int) = 2 := by
  have hrun : Relation.ReflTransGen PipeStep PipeSys.init shortTalk :=
    ((Relation.ReflTransGen.single
      (.read PipeSys.init 0 7 16 rfl)).tail
      (.write _ 1 8 [1#8, 2#8] rfl (by decide))).tail
      (.resumeRead _ 0 7 16 rfl)
  have h := pipe_is_fifo hrun
  exact ⟨h.2.2.1, h.2.2.2.2 0 2 rfl⟩

end Invariant

end Ipc
end Homunculos
