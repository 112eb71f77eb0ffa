import Homunculos.Arch.Entry
import Homunculos.Signal.Model

/-!
# A signal and the context that it interrupts

The whole way of a signal: a kernel entry at the end of which `signal_check_and_deliver`
redirects the return frame, the handler in user mode, the trampoline on the user stack, and
the entry of `rt_sigreturn`, which puts the saved frame back.

The signal frame has no place for the general registers.  `eip`, `esp` and `eflags` come
back; `eax` is what `sys_rt_sigreturn` returns, and `ecx` and `edx` are what the C functions
have left in them.
-/

namespace Homunculos
namespace Signal

open Arch WordStack Function

/-- The registers of a task in user mode. -/
structure Context where
  reg : Reg → Word
  eip : Word
  cs : Word
  eflags : Word
  ss : Word

/-- The return frame of a context. -/
def Context.frame (c : Context) : IretFrame where
  eip := c.eip
  cs := c.cs
  eflags := c.eflags
  userEsp := c.reg .esp
  ss := c.ss

/-- The processor leaves user mode: it takes the kernel stack and pushes the return frame. -/
def enter (c : Context) (esp0 : Word) (mem : Word → Word) : Machine :=
  (((((⟨update c.reg .esp esp0, mem⟩ : Machine).push c.ss).push (c.reg .esp)).push
    c.eflags).push c.cs).push c.eip

/-- The return frame at an address of the kernel stack. -/
def frameAt (m : Machine) (p : Word) : IretFrame where
  eip := m.mem p
  cs := m.mem (p + 4#32)
  eflags := m.mem (p + 8#32)
  userEsp := m.mem (p + 12#32)
  ss := m.mem (p + 16#32)

/-- `iretl` to user mode. -/
def leave (m : Machine) : Context where
  reg := update m.reg .esp (frameAt m (m.reg .esp)).userEsp
  eip := (frameAt m (m.reg .esp)).eip
  cs := (frameAt m (m.reg .esp)).cs
  eflags := (frameAt m (m.reg .esp)).eflags
  ss := (frameAt m (m.reg .esp)).ss

/-- The number of instructions before the call that looks for signals. -/
def checkAt : Stub → Nat
  | .isrErrorCode _ => 5
  | .isr _ => 5
  | .irq _ => 7
  | .syscallHandler => 10

/-- An entry into the kernel from user mode, with the C functions that it comes upon. -/
structure Entry where
  context : Context
  stub : Stub
  esp0 : Word
  mem : Word → Word
  env : Env

namespace Entry

def start (e : Entry) : Machine :=
  enter e.context e.esp0 e.mem

/-- The address of the return frame. -/
def frame (e : Entry) : Word :=
  e.start.reg .esp

/-- The machine after the first instructions of the stub. -/
def upTo (e : Entry) (n : Nat) : Machine :=
  run e.env (e.stub.code.take n) e.start

/-- The machine when signals are looked for, and after that. -/
def before (e : Entry) : Machine :=
  e.upTo (checkAt e.stub)

def after (e : Entry) : Machine :=
  e.upTo (checkAt e.stub + 1)

/-- The context in which the task goes on. -/
def exit (e : Entry) : Context :=
  leave (run e.env e.stub.code e.start)

/-- What `eax` should be then: the result of a system call, or what it was. -/
def result (e : Entry) : Word :=
  match e.stub with
  | .syscallHandler => syscallResult e.env e.start
  | _ => e.context.reg .eax

end Entry

/-- What an instruction of the trampoline does. -/
inductive Fetched where
  | next (c : Context)
  | int (vector : BitVec 8) (c : Context)
  | other

/-- `mov $imm32, %eax` and `int $imm8`, decoded from user memory. -/
def fetch (u : UserMem) (c : Context) : Fetched :=
  if load u c.eip 0 = 0xB8#8 then
    .next { c with
      reg := update c.reg .eax (Bytes.word (fun j => load u c.eip (1 + j)))
      eip := c.eip + 5#32 }
  else if load u c.eip 0 = 0xCD#8 then
    .int (load u c.eip 1) { c with eip := c.eip + 2#32 }
  else
    .other

/-- User code up to an `int`, for at most `n` instructions. -/
def runToInt (u : UserMem) : Nat → Context → Option (BitVec 8 × Context)
  | 0, _ => none
  | n + 1, c =>
    match fetch u c with
    | .next c => runToInt u n c
    | .int vector c => some (vector, c)
    | .other => none

/-- The handler of a signal starts at the end of an interrupt or of a system call. -/
structure Arrives (e : Entry) (t : SigTask) (u : UserMem) (sig : Nat) : Prop where
  stub : e.stub = .syscallHandler ∨ (∃ vector, e.stub = .isr vector) ∨ ∃ irqNo, e.stub = .irq irqNo
  obeys : Obeys e.env e.frame
  systemcall : e.stub = .syscallHandler → frameAt (e.upTo 7) e.frame = frameAt (e.upTo 6) e.frame
  check : frameAt e.after e.frame =
    (signalCheckAndDeliver t u (frameAt e.before e.frame)).2.2.1
  handler : (signalCheckAndDeliver t u e.context.frame).2.2.2 = .handler sig

/--
The handler returns as the calling convention has it: to the return address, with the
stack pointer above it, and with the stack of its caller above the argument as it was.
-/
structure Returns (c : Context) (u : UserMem) (c' : Context) (u' : UserMem) : Prop where
  eip : c'.eip = Bytes.word (fun j => load u (c.reg .esp) j)
  esp : c'.reg .esp = c.reg .esp + 4#32
  saved : ∀ r, r = .ebx ∨ r = .esi ∨ r = .edi ∨ r = .ebp → c'.reg r = c.reg r
  stack : ∀ i, 8 ≤ i → i < 40 → load u' (c.reg .esp) i = load u (c.reg .esp) i

/-- An entry by `int $0x80` whose system call, if it is number 173, is `rt_sigreturn`. -/
structure Sigreturns (e : Entry) (t : SigTask) (u : UserMem) : Prop where
  stub : e.stub = .syscallHandler
  obeys : Obeys e.env e.frame
  frame : e.context.reg .eax = 173#32 → frameAt (e.upTo 7) e.frame =
    (sysRtSigreturn t u (frameAt (e.upTo 6) e.frame)).2.2
  value : e.context.reg .eax = 173#32 → (e.upTo 7).reg .eax =
    BitVec.ofInt 32 (sysRtSigreturn t u (frameAt (e.upTo 6) e.frame)).1
  check : frameAt e.after e.frame =
    (signalCheckAndDeliver (sysRtSigreturn t u (frameAt (e.upTo 6) e.frame)).2.1 u
      (frameAt e.before e.frame)).2.2.1
  quiet : ∀ sig, (signalCheckAndDeliver (sysRtSigreturn t u (frameAt (e.upTo 6) e.frame)).2.1 u
    (frameAt e.before e.frame)).2.2.2 ≠ .handler sig

/-- The task goes on where the signal came, as if there had been none. -/
structure Resumed (e : Entry) (c : Context) : Prop where
  eip : c.eip = e.context.eip
  esp : c.reg .esp = e.context.reg .esp
  eflags : c.eflags = e.context.eflags
  eax : c.reg .eax = e.result
  ecx : c.reg .ecx = e.context.reg .ecx
  edx : c.reg .edx = e.context.reg .edx

section Frames

variable {m : Machine} {p : Word} {env : Env}

theorem frameAt_push (hp : (p - m.reg .esp).toNat < 2 ^ 31) (w : Word) :
    frameAt (m.push w) p = frameAt m p := by
  unfold frameAt Machine.push
  dsimp only
  rw [update_of_ne (by bv_omega), update_of_ne (by bv_omega),
    update_of_ne (by bv_omega), update_of_ne (by bv_omega),
    update_of_ne (by bv_omega)]

theorem frameAt_enter (c : Context) (esp0 : Word) (mem : Word → Word) :
    frameAt (enter c esp0 mem) ((enter c esp0 mem).reg .esp) = c.frame := by
  have hstack : Holds (enter c esp0 mem).mem ((enter c esp0 mem).reg .esp)
      [c.eip, c.cs, c.eflags, c.reg .esp, c.ss] := by
    iterate 5 apply holds_push
    · exact holds_nil _ _
    all_goals simp
  simp only [frameAt, Context.frame, IretFrame.mk.injEq]
  exact ⟨hstack.head, hstack 1 _ rfl, hstack 2 _ rfl, hstack 3 _ rfl, hstack 4 _ rfl⟩

theorem esp_leave (m : Machine) :
    (leave m).reg .esp = (frameAt m (m.reg .esp)).userEsp := by
  simp [leave]

theorem reg_leave (m : Machine) {r : Reg} (hr : r ≠ .esp) :
    (leave m).reg r = m.reg r := by
  simp [leave, hr]

theorem frameAt_pushal (hp : p = m.reg .esp) :
    frameAt (exec env m .pushal) p = frameAt m p := by
  simp only [exec]
  iterate 7 rw [frameAt_push (by simp only [esp_push]; bv_omega)]
  exact frameAt_push (by bv_omega) _

end Frames

section Stubs

variable {e : Entry}

theorem frameAt_start (e : Entry) :
    frameAt e.start e.frame = e.context.frame :=
  frameAt_enter _ _ _

theorem frameAt_congr {m m' : Machine} {p p' : Word} (h : m.frameAt p = m'.frameAt p') :
    frameAt m p = frameAt m' p' := by
  unfold Machine.frameAt at h
  simp only [List.cons.injEq, and_true] at h
  obtain ⟨heip, hcs, heflags, hesp, hss⟩ := h
  unfold frameAt
  rw [heip, hcs, heflags, hesp, hss]

theorem frameAt_of_mem {m m' : Machine} (h : m.mem = m'.mem) (p : Word) :
    frameAt m p = frameAt m' p := by
  unfold frameAt
  rw [h]

theorem mem_pops (env : Env) (m : Machine) :
    (exec env (exec env m (.addEsp 8#32)) .popal).mem = m.mem :=
  rfl

theorem frameAt_arguments (e : Entry) (a b : Word) :
    frameAt (((exec e.env e.start .pushal).push a).push b) e.frame = e.context.frame := by
  obtain ⟨-, hesp, -⟩ := pushal_spec e.env e.start
  have hnear : e.frame - (exec e.env e.start .pushal).reg .esp = 32#32 := by
    unfold Entry.frame
    bv_omega
  rw [frameAt_push (by rw [esp_push]; bv_omega), frameAt_push (by rw [hnear]; decide)]
  exact (frameAt_pushal rfl).trans (frameAt_start e)

/-- An interrupt: the frame is untouched up to the C function, and `iretl` takes it as the C
function has left it. -/
theorem interrupt_frame (hobeys : Obeys e.env e.frame)
    (hstub : (∃ vector, e.stub = .isr vector) ∨ ∃ irqNo, e.stub = .irq irqNo) :
    frameAt e.before e.frame = e.context.frame ∧
      frameAt (run e.env e.stub.code e.start) ((run e.env e.stub.code e.start).reg .esp) =
        frameAt e.after e.frame := by
  unfold Entry.before Entry.after Entry.upTo
  rcases hstub with ⟨vector, hstub⟩ | ⟨irqNo, hstub⟩
  · have hrestores : Restores e.env (.isr vector) e.start := isr_restores vector hobeys
    have hbefore : run e.env ((Stub.isr vector).code.take 5) e.start =
        run e.env [.lea 32#32 .esp .ebx, .push .ebx, .movImm vector .eax, .push .eax]
          (exec e.env e.start .pushal) := by
      simp only [run, Stub.code, List.take_succ_cons, List.take_zero, List.foldl_cons]
    have hmem : (run e.env (Stub.isr vector).code e.start).mem =
        (run e.env ((Stub.isr vector).code.take 6) e.start).mem := by
      simp only [run, Stub.code, List.take_succ_cons, List.take_zero, List.foldl_cons,
        List.foldl_nil, mem_pops]
    obtain ⟨harguments, -⟩ := isr_arguments e.env (exec e.env e.start .pushal) vector
    rw [hstub]
    refine ⟨?_, ?_⟩
    · change frameAt (run e.env ((Stub.isr vector).code.take 5) e.start) e.frame = _
      rw [hbefore, frameAt_of_mem harguments, frameAt_arguments]
    · rw [frameAt_congr hrestores.frame]
      exact frameAt_of_mem hmem _
  · have hrestores : Restores e.env (.irq irqNo) e.start := irq_restores irqNo hobeys
    have hbefore : run e.env ((Stub.irq irqNo).code.take 7) e.start =
        run e.env [.mov .esp .ecx, .lea 32#32 .ecx .ebx, .movImm irqNo .eax, .push .ebx,
          .push .eax] (exec e.env e.start .pushal) := by
      simp only [run, Stub.code, List.take_succ_cons, List.take_zero, List.foldl_cons, exec_cld]
    have hmem : (run e.env (Stub.irq irqNo).code e.start).mem =
        (run e.env ((Stub.irq irqNo).code.take 8) e.start).mem := by
      simp only [run, Stub.code, List.take_succ_cons, List.take_zero, List.foldl_cons,
        List.foldl_nil, exec_cli, mem_pops]
    obtain ⟨harguments, -⟩ := irq_arguments e.env (exec e.env e.start .pushal) irqNo
    rw [hstub]
    refine ⟨?_, ?_⟩
    · change frameAt (run e.env ((Stub.irq irqNo).code.take 7) e.start) e.frame = _
      rw [hbefore, frameAt_of_mem harguments, frameAt_arguments]
    · rw [frameAt_congr hrestores.frame]
      exact frameAt_of_mem hmem _

/-- The six arguments of a system call. -/
def pushArgs (m : Machine) : Machine :=
  (((((m.push (m.reg .ebp)).push (m.reg .edi)).push (m.reg .esi)).push (m.reg .edx)).push
    (m.reg .ecx)).push (m.reg .ebx)

/-- The machine with the result of the system call and the address of the frame pushed. -/
def pushCheck (m : Machine) : Machine :=
  ((m.setReg .ebx (m.reg .esp + 24#32)).push (m.reg .eax)).push (m.reg .esp + 24#32)

theorem run_pushArgs (env : Env) (m : Machine) :
    run env [.push .ebp, .push .edi, .push .esi, .push .edx, .push .ecx, .push .ebx] m =
      pushArgs m := by
  simp only [run, List.foldl_cons, List.foldl_nil, exec, pushArgs,
    reg_push (show Reg.edi ≠ .esp by decide), reg_push (show Reg.esi ≠ .esp by decide),
    reg_push (show Reg.edx ≠ .esp by decide), reg_push (show Reg.ecx ≠ .esp by decide),
    reg_push (show Reg.ebx ≠ .esp by decide)]

theorem run_append (env : Env) (code code' : List Instr) (m : Machine) :
    run env (code ++ code') m = run env code' (run env code m) :=
  List.foldl_append

theorem Entry.upTo_add (e : Entry) (n k : Nat) (code : List Instr)
    (h : e.stub.code.take (n + k) = e.stub.code.take n ++ code) :
    e.upTo (n + k) = run e.env code (e.upTo n) := by
  unfold Entry.upTo
  rw [h, run_append]

theorem syscall_steps (hstub : e.stub = .syscallHandler) :
    e.upTo 6 = pushArgs e.start ∧ e.upTo 7 = e.env .systemcall (e.upTo 6) ∧
      e.before = pushCheck (e.upTo 7) ∧ e.after = e.env .signalCheckAndDeliver e.before ∧
      run e.env e.stub.code e.start = ((e.after.addEsp 4#32).pop .eax).addEsp 24#32 := by
  have hbefore : e.before = e.upTo 10 := by
    rw [Entry.before, hstub, checkAt]
  have hafter : e.after = e.upTo 11 := by
    rw [Entry.after, hstub, checkAt]
  have hall : run e.env e.stub.code e.start = e.upTo 14 := by
    rw [Entry.upTo, hstub]
    rfl
  refine ⟨?_, ?_, ?_, ?_, ?_⟩
  · rw [← run_pushArgs e.env, Entry.upTo, hstub]
    rfl
  · exact e.upTo_add 6 1 [.call .systemcall] (by rw [hstub]; rfl)
  · rw [hbefore]
    exact e.upTo_add 7 3 _ (by rw [hstub]; rfl)
  · rw [hafter, hbefore]
    exact e.upTo_add 10 1 [.call .signalCheckAndDeliver] (by rw [hstub]; rfl)
  · rw [hall, hafter]
    exact e.upTo_add 11 3 [.addEsp 4#32, .pop .eax, .addEsp 24#32] (by rw [hstub]; rfl)

/--
A system call: the frame is untouched but by the two C functions, `iretl` takes it as the
second one has left it, `eax` is the result of the first one, and `ecx` and `edx` are what
the second one has left.
-/
theorem syscall_frame (hobeys : Obeys e.env e.frame) (hstub : e.stub = .syscallHandler) :
    frameAt (e.upTo 6) e.frame = e.context.frame ∧
      frameAt e.before e.frame = frameAt (e.upTo 7) e.frame ∧
      frameAt (run e.env e.stub.code e.start) ((run e.env e.stub.code e.start).reg .esp) =
        frameAt e.after e.frame ∧
      (run e.env e.stub.code e.start).reg .eax = (e.upTo 7).reg .eax ∧
      (run e.env e.stub.code e.start).reg .ecx = e.after.reg .ecx ∧
      (run e.env e.stub.code e.start).reg .edx = e.after.reg .edx := by
  obtain ⟨hsix, hseven, hbefore, hafter, hrun⟩ := syscall_steps hstub
  have hesp6 : (e.upTo 6).reg .esp = e.frame - 24#32 := by
    rw [hsix, pushArgs]
    simp only [esp_push]
    unfold Entry.frame
    bv_omega
  have hesp7 : (e.upTo 7).reg .esp = e.frame - 24#32 := by
    rw [hseven, hobeys.saved _ _ .esp (by simp), hesp6]
  have hespBefore : e.before.reg .esp = e.frame - 32#32 := by
    rw [hbefore, pushCheck]
    change (e.upTo 7).reg .esp - 4#32 - 4#32 = _
    bv_omega
  have hespAfter : e.after.reg .esp = e.frame - 32#32 := by
    rw [hafter, hobeys.saved _ _ .esp (by simp), hespBefore]
  have hespEnd : (run e.env e.stub.code e.start).reg .esp = e.frame := by
    rw [hrun]
    simp only [Machine.pop, Machine.addEsp, Machine.setReg]
    simp [hespAfter]
    bv_omega
  have hmemEnd : (run e.env e.stub.code e.start).mem = e.after.mem := by
    rw [hrun]
    rfl
  refine ⟨?_, ?_, ?_, ?_, ?_, ?_⟩
  · rw [hsix, pushArgs, ← frameAt_start]
    iterate 5 rw [frameAt_push (by simp only [esp_push]; unfold Entry.frame; bv_omega)]
    exact frameAt_push (by unfold Entry.frame; bv_omega) _
  · rw [hbefore, pushCheck]
    rw [frameAt_push (by change (e.frame - ((e.upTo 7).reg .esp - 4#32)).toNat < _
                         bv_omega),
      frameAt_push (by change (e.frame - (e.upTo 7).reg .esp).toNat < _
                       bv_omega)]
    exact frameAt_of_mem rfl _
  · rw [hespEnd]
    exact frameAt_of_mem hmemEnd _
  · -- the result was saved on the stack, above the argument of the second call
    have hkept := hobeys.stack .signalCheckAndDeliver e.before 1 (le_refl 1) (by
      bv_omega)
    rw [← hafter, hespBefore] at hkept
    have hslot : wordAt (e.frame - 32#32) 1 = e.frame - 28#32 := by
      unfold wordAt
      bv_omega
    have hsaved : e.before.mem (e.frame - 28#32) = (e.upTo 7).reg .eax := by
      have hfour : e.frame - 24#32 - 4#32 = e.frame - 28#32 := by bv_omega
      rw [hbefore, pushCheck]
      simp only [Machine.push, Machine.setReg, update_self,
        update_of_ne (show Reg.esp ≠ .ebx by decide), hesp7, hfour]
      rw [update_of_ne (by bv_omega), update_self]
    have hpopped : (run e.env e.stub.code e.start).reg .eax =
        e.after.mem (e.after.reg .esp + 4#32) := by
      rw [hrun]
      rfl
    have haddr : e.frame - 32#32 + 4#32 = e.frame - 28#32 := by bv_omega
    rw [hpopped, hespAfter, haddr, ← hslot, hkept, hslot, hsaved]
  · rw [hrun]
    rfl
  · rw [hrun]
    rfl

end Stubs

section User

variable {t : SigTask} {u u' : UserMem} {f : IretFrame} {sig : Nat}

theorem deliver_handler (h : (signalCheckAndDeliver t u f).2.2.2 = .handler sig) :
    ∃ p, signalCheckAndDeliver t u f = startHandler { t with pendingSignals := p } u f sig := by
  rcases signalCheckAndDeliver_cases t u f with ⟨hnone, -⟩ | ⟨sig', p, hstart⟩
  · exact absurd h (hnone sig)
  · rw [hstart] at h
    cases h
    exact ⟨p, hstart⟩

theorem word_returnAddress :
    Bytes.word (fun j => load (frameMem t u f sig) (newEsp f) j) = frameEsp f + 24#32 := by
  have hword : Bytes.word (fun j => Bytes.wordsBytes [frameEsp f + 24#32, BitVec.ofNat 32 sig]
      (4 * 0 + j)) = frameEsp f + 24#32 := Bytes.word_wordsBytes _ 0
  refine (Bytes.word_congr ?_).trans hword
  intro j hj
  have hbelow : ¬ (newEsp f + BitVec.ofNat 32 j - frameEsp f).toNat < 32 := by
    unfold newEsp
    bv_omega
  unfold frameMem
  conv_lhs => rw [load, store, if_neg hbelow]
  rw [Nat.zero_add]
  exact load_store u (newEsp f) _ (by omega) (by omega)

theorem load_frame {i : Nat} (hi : i < 32) :
    load (frameMem t u f sig) (frameEsp f) i = (savedContext t f).bytes i :=
  load_store _ _ _ hi (by omega)

theorem frame_kept
    (hstack : ∀ i, 8 ≤ i → i < 40 → load u' (newEsp f) i = load u (newEsp f) i) {i : Nat}
    (hi : i < 32) :
    load u' (frameEsp f) i = load u (frameEsp f) i := by
  have hsame := hstack (8 + i) (by omega) (by omega)
  have haddr : newEsp f + BitVec.ofNat 32 (8 + i) = frameEsp f + BitVec.ofNat 32 i := by
    unfold newEsp
    bv_omega
  unfold load at hsame ⊢
  rwa [haddr] at hsame

/-- The code behind the saved words. -/
def trampoline : List (BitVec 8) :=
  [0xB8#8, 0xAD#8, 0x00#8, 0x00#8, 0x00#8, 0xCD#8, 0x80#8, 0x00#8]

theorem bytes_trampoline (sf : Sigframe) {i : Nat} (hi : i < 8) :
    sf.bytes (24 + i) = trampoline.getD i 0#8 := by
  have hwords : sf.bytes (24 + i) = Bytes.wordsBytes [0x0000ADB8#32, 0x0080CD00#32] i := by
    have hdiv : (24 + i) / 4 = i / 4 + 6 := by omega
    have hmod : (24 + i) % 4 = i % 4 := by omega
    unfold Sigframe.bytes Bytes.wordsBytes
    rw [hdiv, hmod]
    rfl
  have hbytes : ∀ i, i < 8 → Bytes.wordsBytes [0x0000ADB8#32, 0x0080CD00#32] i =
      trampoline.getD i 0#8 := by
    decide
  rw [hwords, hbytes i hi]

theorem run_trampoline
    (hframe : ∀ i, i < 32 → load u' (frameEsp f) i = (savedContext t f).bytes i) {c : Context}
    (hc : c.eip = frameEsp f + 24#32) :
    runToInt u' 2 c = some (0x80#8,
      { c with reg := update c.reg .eax 173#32, eip := c.eip + 5#32 + 2#32 }) := by
  have hbyte : ∀ i, i < 8 → load u' c.eip i = trampoline.getD i 0#8 := by
    intro i hi
    rw [← bytes_trampoline (savedContext t f) hi, ← hframe (24 + i) (by omega), hc]
    unfold load
    rw [BitVec.ofNat_add, ← BitVec.add_assoc]
  have himm : Bytes.word (fun j => load u' c.eip (1 + j)) = 173#32 := by
    have himm : ∀ j, j < 4 → load u' c.eip (1 + j) = Bytes.byteAt 173#32 j := by
      intro j hj
      have hconst : ∀ j, j < 4 → trampoline.getD (1 + j) 0#8 = Bytes.byteAt 173#32 j := by decide
      rw [hbyte (1 + j) (by omega), hconst j hj]
    rw [Bytes.word_congr himm, Bytes.word_byteAt]
  have hmov : fetch u' c = .next { c with
      reg := update c.reg .eax 173#32
      eip := c.eip + 5#32 } := by
    have hop : load u' c.eip 0 = 0xB8#8 := hbyte 0 (by decide)
    rw [fetch, if_pos hop, himm]
  have hnext : ∀ i, load u' (c.eip + 5#32) i = load u' c.eip (5 + i) := by
    intro i
    unfold load
    rw [BitVec.ofNat_add, ← BitVec.add_assoc]
  have hop : load u' (c.eip + 5#32) 0 = 0xCD#8 := (hnext 0).trans (hbyte 5 (by decide))
  have hvector : load u' (c.eip + 5#32) 1 = 0x80#8 := (hnext 1).trans (hbyte 6 (by decide))
  rw [runToInt, hmov]
  dsimp only
  rw [runToInt, fetch, if_neg (by rw [hop]; decide), if_pos hop, hvector]

end User

section Trip

variable {e e' : Entry} {t t' : SigTask} {u u' : UserMem} {sig : Nat} {c : Context}

theorem Arrives.esp (h : Arrives e t u sig) :
    e.exit.reg .esp = newEsp e.context.frame := by
  obtain ⟨p, hdeliver⟩ := deliver_handler h.handler
  have hframes : frameAt e.before e.frame = e.context.frame ∧
      frameAt (run e.env e.stub.code e.start) ((run e.env e.stub.code e.start).reg .esp) =
        frameAt e.after e.frame := by
    rcases h.stub with hstub | hstub
    · obtain ⟨hsix, hbefore, hexit, -⟩ := syscall_frame h.obeys hstub
      refine ⟨?_, hexit⟩
      rw [hbefore, h.systemcall hstub, hsix]
    · exact interrupt_frame h.obeys hstub
  rw [Entry.exit, esp_leave, hframes.2, h.check, hframes.1, hdeliver]
  rfl

/-- The context in which `rt_sigreturn` ends. -/
theorem Sigreturns.exit (h : Sigreturns e t u) (hnumber : e.context.reg .eax = 173#32) :
    e.exit.reg .esp = (sysRtSigreturn t u e.context.frame).2.2.userEsp ∧
      e.exit.eip = (sysRtSigreturn t u e.context.frame).2.2.eip ∧
      e.exit.eflags = (sysRtSigreturn t u e.context.frame).2.2.eflags ∧
      e.exit.reg .eax = BitVec.ofInt 32 (sysRtSigreturn t u e.context.frame).1 ∧
      e.exit.reg .ecx = e.after.reg .ecx ∧ e.exit.reg .edx = e.after.reg .edx := by
  obtain ⟨hsix, hbefore, hexit, heax, hecx, hedx⟩ := syscall_frame h.obeys h.stub
  have hcheck := h.check
  rcases signalCheckAndDeliver_cases (sysRtSigreturn t u (frameAt (e.upTo 6) e.frame)).2.1 u
    (frameAt e.before e.frame) with ⟨-, -, hsame, -⟩ | ⟨sig, p, hstart⟩
  · rw [hsame, hbefore, h.frame hnumber, hsix] at hcheck
    rw [hcheck] at hexit
    have hvalue := h.value hnumber
    rw [hsix] at hvalue
    refine ⟨?_, congrArg IretFrame.eip hexit, congrArg IretFrame.eflags hexit, ?_, ?_, ?_⟩
    · rw [Entry.exit, esp_leave, hexit]
    · rw [Entry.exit, reg_leave _ (by decide), heax, hvalue]
    · rw [Entry.exit, reg_leave _ (by decide), hecx]
    · rw [Entry.exit, reg_leave _ (by decide), hedx]
  · exact absurd (by rw [hstart]; rfl) (h.quiet sig)

/-- The way of one signal: a handler is started at the end of an interrupt or of a system call, it
returns as the calling convention has it, without another signal in between, and the trampoline
comes to `rt_sigreturn`. The task goes on as if there had been no signal exactly if its stack
pointer was not 32, its `eax` should be 0, and its `ecx` and `edx` happen to be what the kernel
leaves in these registers. -/
theorem signal_resumes_iff
    (harrives : Arrives e t u sig)
    (hreturns : Returns e.exit (signalCheckAndDeliver t u e.context.frame).2.1 c u')
    (hone : t'.signalSigframe = (signalCheckAndDeliver t u e.context.frame).1.signalSigframe)
    (htrampoline : runToInt u' 2 c = some (0x80#8, e'.context))
    (hsigreturns : Sigreturns e' t' u') :
    Resumed e e'.exit ↔ e.context.reg .esp ≠ 32#32 ∧ e.result = 0#32 ∧
      e.context.reg .ecx = e'.after.reg .ecx ∧ e.context.reg .edx = e'.after.reg .edx := by
  obtain ⟨p, hdeliver⟩ := deliver_handler harrives.handler
  have hesp := harrives.esp
  obtain ⟨heip, hespRet, -, hstack⟩ := hreturns
  rw [hdeliver] at heip hstack hone
  rw [hesp] at heip hespRet hstack
  have hframe : ∀ i, i < 32 → load u' (frameEsp e.context.frame) i =
      (savedContext t e.context.frame).bytes i := by
    intro i hi
    rw [frame_kept hstack hi]
    exact load_frame hi
  have hcontext := run_trampoline hframe (heip.trans word_returnAddress)
  rw [htrampoline] at hcontext
  have hcontext' := congrArg Prod.snd (Option.some.inj hcontext)
  dsimp only at hcontext'
  have hnumber : e'.context.reg .eax = 173#32 := by simp [hcontext']
  obtain ⟨hexitEsp, hexitEip, hexitFlags, hexitEax, hexitEcx, hexitEdx⟩ := hsigreturns.exit hnumber
  have hsigframe : t'.signalSigframe = frameEsp e.context.frame := hone
  by_cases hzero : e.context.reg .esp = 32#32
  · -- the signal frame is at address 0, which stands for no frame
    have hnone : t'.signalSigframe = 0#32 := by
      rw [hsigframe]
      change e.context.reg .esp - 32#32 = 0#32
      rw [hzero]
      decide
    refine iff_of_false ?_ (fun hcond => hcond.1 hzero)
    intro hresumed
    have hback := hresumed.esp
    rw [hexitEsp, sysRtSigreturn, if_pos hnone] at hback
    change e'.context.reg .esp = _ at hback
    have hmoved : e'.context.reg .esp = c.reg .esp := by simp [hcontext']
    rw [hmoved, hespRet, hzero] at hback
    change e.context.reg .esp - 32#32 - 8#32 + 4#32 = 32#32 at hback
    rw [hzero] at hback
    exact absurd hback (by decide)
  · have hsome : t'.signalSigframe ≠ 0#32 := by
      rw [hsigframe]
      change e.context.reg .esp - 32#32 ≠ 0#32
      bv_omega
    have hread : readSigframe u' t'.signalSigframe = savedContext t e.context.frame := by
      rw [hsigframe, ← readSigframe_store u (frameEsp e.context.frame)
        (savedContext t e.context.frame)]
      apply readSigframe_congr
      intro i hi
      rw [hframe i hi, load_store _ _ _ hi (by omega)]
    rw [sysRtSigreturn, if_neg hsome, hread] at hexitEsp hexitEip hexitFlags hexitEax
    constructor
    · intro hresumed
      exact ⟨hzero, hresumed.eax.symm.trans hexitEax, hresumed.ecx.symm.trans hexitEcx,
        hresumed.edx.symm.trans hexitEdx⟩
    · rintro ⟨-, heax, hecx, hedx⟩
      exact ⟨hexitEip, hexitEsp, hexitFlags, hexitEax.trans heax.symm, hexitEcx.trans hecx.symm,
        hexitEdx.trans hedx.symm⟩

end Trip

/-- A C function writes the return frame. -/
def editFrame (m : Machine) (p : Word) (f : IretFrame) : Machine :=
  { m with
    mem := update (update (update (update (update m.mem
      p f.eip) (p + 4#32) f.cs) (p + 8#32) f.eflags) (p + 12#32) f.userEsp) (p + 16#32) f.ss }

theorem mem_editFrame
    (m : Machine) {p esp : Word} (f : IretFrame) {i : Nat} (hnear : (p - esp).toNat ≤ 64)
    (hi : 4 * i < (p - esp).toNat) :
    (editFrame m p f).mem (wordAt esp i) = m.mem (wordAt esp i) := by
  have hne : ∀ k : Word, k.toNat ≤ 16 → wordAt esp i ≠ p + k := by
    intro k hk
    unfold wordAt
    bv_omega
  have hzero : wordAt esp i ≠ p := by
    unfold wordAt
    bv_omega
  unfold editFrame
  dsimp only
  rw [update_of_ne (hne _ (by decide)), update_of_ne (hne _ (by decide)),
    update_of_ne (hne _ (by decide)), update_of_ne (hne _ (by decide)),
    update_of_ne hzero]

/-- A task with a handler for `SIGUSR1`, which is pending. -/
def usr1Task : SigTask where
  isUser := true
  pendingSignals := sigBit 10
  signalMask := 0#32
  signalSigframe := 0#32
  signalHandlers := fun sig => if sig = 10 then 0x8049000#32 else sigDfl
  signalHandlersMask := fun _ => 0#32
  signalHandlersFlags := fun _ => 0#32

/-- It is interrupted with 5 in `eax`. -/
def usr1Context : Context where
  reg := fun r => if r = .esp then 0x4000#32 else if r = .eax then 5#32 else 0#32
  eip := 0x8048000#32
  cs := 0x1B#32
  eflags := 0x202#32
  ss := 0x23#32

/-- What `signal_check_and_deliver` comes to. -/
def usr1Delivery : Delivery :=
  signalCheckAndDeliver usr1Task (fun _ => 0#8) usr1Context.frame

/-- The timer interrupt; `irq_handler` redirects the frame, which is at `0x8FEC`. -/
def usr1Entry : Entry where
  context := usr1Context
  stub := .irq 0#32
  esp0 := 0x9000#32
  mem := fun _ => 0#32
  env := fun f m =>
    if f = .irqHandler ∧ m.reg .esp = 0x8FC4#32 then
      editFrame m 0x8FEC#32 usr1Delivery.2.2.1
    else
      m

/-- The handler has returned at once. -/
def usr1Returned : Context :=
  { usr1Entry.exit with
    reg := update usr1Entry.exit.reg .esp (newEsp usr1Context.frame + 4#32)
    eip := frameEsp usr1Context.frame + 24#32 }

/-- The entry of `rt_sigreturn`; the C functions leave `ecx` and `edx` alone. -/
def usr1Sigreturn : Entry where
  context := { usr1Returned with
    reg := update usr1Returned.reg .eax 173#32
    eip := usr1Returned.eip + 5#32 + 2#32 }
  stub := .syscallHandler
  esp0 := 0x9000#32
  mem := fun _ => 0#32
  env := fun f m =>
    if f = .systemcall ∧ m.reg .esp = 0x8FD4#32 then
      (editFrame m 0x8FEC#32 usr1Context.frame).setReg .eax 0#32
    else
      m

/-- A C function that writes the frame alone, from a known depth of the stack, obeys. -/
theorem obeys_of_edits {env : Env} {p : Word}
    (h : ∀ f m, env f m = m ∨ (p - m.reg .esp).toNat ≤ 64 ∧
      (∃ g, (env f m).mem = (editFrame m p g).mem) ∧ ∀ r, r ≠ .eax → (env f m).reg r = m.reg r) :
    Obeys env p := by
  refine ⟨?_, ?_⟩
  · intro f m r hr
    rcases h f m with hsame | ⟨-, -, hreg⟩
    · rw [hsame]
    · apply hreg
      rintro rfl
      simp at hr
  · intro f m i _ hi
    rcases h f m with hsame | ⟨hnear, ⟨g, hmem⟩, -⟩
    · rw [hsame]
    · rw [hmem]
      exact mem_editFrame m g hnear hi

theorem usr1_arrives :
    Arrives usr1Entry usr1Task (fun _ => 0#8) 10 := by
  have hframe : usr1Entry.frame = 0x8FEC#32 := by decide +kernel
  refine ⟨Or.inr (Or.inr ⟨0#32, rfl⟩), ?_, (fun hstub => by cases hstub), ?_, ?_⟩
  · apply obeys_of_edits
    intro f m
    by_cases hf : f = .irqHandler ∧ m.reg .esp = 0x8FC4#32
    · have henv : usr1Entry.env f m = editFrame m 0x8FEC#32 usr1Delivery.2.2.1 := if_pos hf
      rw [henv, hf.2]
      exact Or.inr ⟨by decide, ⟨_, rfl⟩, fun _ _ => rfl⟩
    · exact Or.inl (if_neg hf)
  · decide +kernel
  · decide +kernel

theorem usr1_returns :
    Returns usr1Entry.exit usr1Delivery.2.1 usr1Returned usr1Delivery.2.1 := by
  refine ⟨by decide +kernel, by decide +kernel, ?_, fun _ _ _ => rfl⟩
  intro r hr
  apply update_of_ne
  rintro rfl
  simp at hr

theorem usr1_trampoline :
    runToInt usr1Delivery.2.1 2 usr1Returned = some (0x80#8, usr1Sigreturn.context) := by
  have hbytes : ∀ i, i < 32 → load usr1Delivery.2.1 (frameEsp usr1Context.frame) i =
      (savedContext usr1Task usr1Context.frame).bytes i := by
    decide +kernel
  exact run_trampoline hbytes rfl

theorem usr1_sigreturns :
    Sigreturns usr1Sigreturn usr1Delivery.1 usr1Delivery.2.1 := by
  have hframe : usr1Sigreturn.frame = 0x8FEC#32 := by decide +kernel
  refine ⟨rfl, ?_, fun _ => by decide +kernel, fun _ => by decide +kernel, by decide +kernel, ?_⟩
  · apply obeys_of_edits
    intro f m
    by_cases hf : f = .systemcall ∧ m.reg .esp = 0x8FD4#32
    · have henv : usr1Sigreturn.env f m =
          (editFrame m 0x8FEC#32 usr1Context.frame).setReg .eax 0#32 := if_pos hf
      rw [henv, hf.2]
      exact Or.inr ⟨by decide, ⟨_, rfl⟩, fun _ hr => update_of_ne hr _ _⟩
    · exact Or.inl (if_neg hf)
  · have hnone : (signalCheckAndDeliver (sysRtSigreturn usr1Delivery.1 usr1Delivery.2.1
        (frameAt (usr1Sigreturn.upTo 6) usr1Sigreturn.frame)).2.1 usr1Delivery.2.1
        (frameAt usr1Sigreturn.before usr1Sigreturn.frame)).2.2.2 = .returned := by
      decide +kernel
    intro sig hsig
    cases hsig

theorem signal_resumes_iff_usr1 :
    Resumed usr1Entry usr1Sigreturn.exit ↔ usr1Context.reg .esp ≠ 32#32 ∧ usr1Entry.result = 0#32 ∧
      usr1Context.reg .ecx = usr1Sigreturn.after.reg .ecx ∧
      usr1Context.reg .edx = usr1Sigreturn.after.reg .edx :=
  signal_resumes_iff usr1_arrives usr1_returns rfl usr1_trampoline usr1_sigreturns

/-- The interrupted program goes on with 0 in `eax`. -/
theorem usr1_loses_eax :
    Arrives usr1Entry usr1Task (fun _ => 0#8) 10 ∧
      Returns usr1Entry.exit usr1Delivery.2.1 usr1Returned usr1Delivery.2.1 ∧
      runToInt usr1Delivery.2.1 2 usr1Returned = some (0x80#8, usr1Sigreturn.context) ∧
      Sigreturns usr1Sigreturn usr1Delivery.1 usr1Delivery.2.1 ∧
      usr1Context.reg .eax = 5#32 ∧ usr1Sigreturn.exit.reg .eax = 0#32 ∧
      ¬ Resumed usr1Entry usr1Sigreturn.exit := by
  have hbefore : usr1Context.reg .eax = 5#32 := by decide
  have hafter : usr1Sigreturn.exit.reg .eax = 0#32 := by decide +kernel
  refine ⟨usr1_arrives, usr1_returns, usr1_trampoline, usr1_sigreturns, hbefore, hafter, ?_⟩
  intro hresumed
  have heax : usr1Sigreturn.exit.reg .eax = 5#32 := hresumed.eax.trans hbefore
  cases heax

end Signal
end Homunculos
