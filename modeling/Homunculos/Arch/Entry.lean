import Homunculos.Lib.WordStack

/-!
# The entry stubs of the kernel

The stubs of `isrs.S` as programs of a small i386 machine: `ISR`,
`ISR_ERROR_CODE`, `IRQ` and `syscall_handler`.  The C functions they call are
arbitrary, as long as they keep to the calling convention.  The flags are left out:
`iretl` takes them from the frame, whatever `cld`, `cli` and the arithmetic did.
-/

namespace Homunculos
namespace Arch

open WordStack Function

inductive Reg where
  | eax
  | ecx
  | edx
  | ebx
  | esp
  | ebp
  | esi
  | edi
deriving DecidableEq

/-- The C functions that the stubs call; `systemcall` is the one in the table at `%eax`. -/
inductive CFun where
  | commonHandler
  | commonHandlerErrorCode
  | irqHandler
  | systemcall
  | signalCheckAndDeliver
deriving DecidableEq

/-- The number of arguments on the stack. -/
def CFun.args : CFun → Nat
  | commonHandler => 2
  | commonHandlerErrorCode => 2
  | irqHandler => 2
  | systemcall => 6
  | signalCheckAndDeliver => 1

/-- The general registers, and the memory by words. -/
structure Machine where
  reg : Reg → Word
  mem : Word → Word

namespace Machine

def setReg (m : Machine) (r : Reg) (w : Word) : Machine :=
  { m with reg := update m.reg r w }

/-- `pushl` of a value. -/
def push (m : Machine) (w : Word) : Machine where
  reg := update m.reg .esp (m.reg .esp - 4#32)
  mem := update m.mem (m.reg .esp - 4#32) w

/-- The word that a pop takes. -/
def top (m : Machine) : Word :=
  m.mem (m.reg .esp)

def addEsp (m : Machine) (n : Word) : Machine :=
  m.setReg .esp (m.reg .esp + n)

/-- `popl` into a register. -/
def pop (m : Machine) (r : Reg) : Machine :=
  (m.addEsp 4#32).setReg r m.top

end Machine

/-- The instructions of the stubs; the last one, `iretl`, stands by itself. -/
inductive Instr where
  | cld
  | cli
  | pushal
  | popal
  | push (r : Reg)
  | pop (r : Reg)
  | movImm (w : Word) (r : Reg)
  | mov (src dst : Reg)
  | lea (disp : Word) (base dst : Reg)
  | addEsp (n : Word)
  | call (f : CFun)

/-- What a call of each C function does, up to its return. -/
abbrev Env := CFun → Machine → Machine

/-- One instruction. -/
def exec (env : Env) (m : Machine) : Instr → Machine
  | .cld => m
  | .cli => m
  | .pushal =>
    ((((((((m.push (m.reg .eax)).push (m.reg .ecx)).push (m.reg .edx)).push (m.reg .ebx)).push
      (m.reg .esp)).push (m.reg .ebp)).push (m.reg .esi)).push (m.reg .edi))
  | .popal =>
    (((((((m.pop .edi).pop .esi).pop .ebp).addEsp 4#32).pop .ebx).pop .edx).pop .ecx).pop .eax
  | .push r => m.push (m.reg r)
  | .pop r => m.pop r
  | .movImm w r => m.setReg r w
  | .mov src dst => m.setReg dst (m.reg src)
  | .lea disp base dst => m.setReg dst (m.reg base + disp)
  | .addEsp n => m.addEsp n
  | .call f => env f m

def run (env : Env) (code : List Instr) (m : Machine) : Machine :=
  code.foldl (exec env) m

/-- The stubs, with the number that each one passes on. -/
inductive Stub where
  | isrErrorCode (vector : Word)
  | isr (vector : Word)
  | irq (irqNo : Word)
  | syscallHandler

/-- `ISR_ERROR_CODE`, `ISR`, `IRQ` and `syscall_handler`, up to `iretl`. -/
def Stub.code : Stub → List Instr
  | isrErrorCode vector =>
    [.pushal, .lea 36#32 .esp .ebx, .push .ebx, .movImm vector .eax, .push .eax,
      .call .commonHandlerErrorCode, .addEsp 8#32, .addEsp 4#32, .popal, .addEsp 4#32]
  | isr vector =>
    [.pushal, .lea 32#32 .esp .ebx, .push .ebx, .movImm vector .eax, .push .eax,
      .call .commonHandler, .addEsp 8#32, .popal]
  | irq irqNo =>
    [.cld, .pushal, .mov .esp .ecx, .lea 32#32 .ecx .ebx, .movImm irqNo .eax, .push .ebx,
      .push .eax, .call .irqHandler, .addEsp 8#32, .cli, .popal]
  | syscallHandler =>
    [.push .ebp, .push .edi, .push .esi, .push .edx, .push .ecx, .push .ebx,
      .call .systemcall, .lea 24#32 .esp .ebx, .push .eax, .push .ebx,
      .call .signalCheckAndDeliver, .addEsp 4#32, .pop .eax, .addEsp 24#32]

/-- The frame that the hardware pushes; an error code stands below it. -/
def Stub.frame (stub : Stub) (m : Machine) : Word :=
  match stub with
  | isrErrorCode _ => m.reg .esp + 4#32
  | isr _ => m.reg .esp
  | irq _ => m.reg .esp
  | syscallHandler => m.reg .esp

/-- The five words `eip`, `cs`, `eflags`, `esp` and `ss` from an address on. -/
def Machine.frameAt (m : Machine) (p : Word) : List Word :=
  [m.mem p, m.mem (p + 4#32), m.mem (p + 8#32), m.mem (p + 12#32), m.mem (p + 16#32)]

/-- What `iretl` takes from the stack. -/
def iretl (m : Machine) : List Word :=
  m.frameAt (m.reg .esp)

/--
The calling convention: `ebx`, `esi`, `edi`, `ebp` and `esp` are preserved, and so is
the stack of the caller above the arguments, up to the frame, which may be edited.
-/
structure Obeys (env : Env) (frame : Word) : Prop where
  saved : ∀ f m r, r = .ebx ∨ r = .esi ∨ r = .edi ∨ r = .ebp ∨ r = .esp →
    (env f m).reg r = m.reg r
  stack : ∀ f m i, f.args ≤ i → 4 * i < (frame - m.reg .esp).toNat →
    (env f m).mem (wordAt (m.reg .esp) i) = m.mem (wordAt (m.reg .esp) i)

/-- What the system call leaves in `eax`. -/
def syscallResult (env : Env) (m : Machine) : Word :=
  (run env (Stub.syscallHandler.code.take 7) m).reg .eax

/--
The stub returns as it should: `iretl` pops the frame, and the general registers
have the values from entry, but for the result of a system call.
-/
structure Restores (env : Env) (stub : Stub) (m : Machine) : Prop where
  frame : iretl (run env stub.code m) = (run env stub.code m).frameAt (stub.frame m)
  regs : ∀ r, r ≠ .esp → (stub = .syscallHandler → r ≠ .eax) →
    (run env stub.code m).reg r = m.reg r
  result : stub = .syscallHandler → (run env stub.code m).reg .eax = syscallResult env m

/-- The words that `pushal` leaves on the stack. -/
def saved (m : Machine) : List Word :=
  [m.reg .edi, m.reg .esi, m.reg .ebp, m.reg .esp, m.reg .ebx, m.reg .edx, m.reg .ecx, m.reg .eax]

section Steps

variable {env : Env} {m : Machine} {ws : List Word}

theorem holds_push (h : Holds m.mem (m.reg .esp) ws) (hlen : ws.length < 2 ^ 29) (w : Word) :
    Holds (m.push w).mem ((m.push w).reg .esp) (w :: ws) := by
  exact h.push hlen w

theorem reg_push {r : Reg} (hr : r ≠ .esp) (w : Word) :
    (m.push w).reg r = m.reg r :=
  update_of_ne hr _ _

theorem esp_push (w : Word) :
    (m.push w).reg .esp = m.reg .esp - 4#32 := by
  simp [Machine.push]

/-- `pushal` saves the registers, and changes none but `esp`. -/
theorem pushal_spec (env : Env) (m : Machine) :
    Holds (exec env m .pushal).mem ((exec env m .pushal).reg .esp) (saved m) ∧
      (exec env m .pushal).reg .esp = m.reg .esp - 32#32 ∧
      ∀ r, r ≠ .esp → (exec env m .pushal).reg r = m.reg r := by
  refine ⟨?_, ?_, ?_⟩
  · iterate 8 apply holds_push
    · exact holds_nil _ _
    all_goals simp
  · simp only [exec, esp_push]
    bv_omega
  · intro r hr
    simp only [exec, reg_push hr]

/-- `popal` brings back what `pushal` has saved. -/
theorem popal_spec {m' : Machine} (env : Env) (h : Holds m'.mem (m'.reg .esp) (saved m)) :
    (exec env m' .popal).mem = m'.mem ∧
      (exec env m' .popal).reg .esp = m'.reg .esp + 32#32 ∧
      ∀ r, r ≠ .esp → (exec env m' .popal).reg r = m.reg r := by
  have hword : ∀ i w, (saved m)[i]? = some w →
      m'.mem (m'.reg .esp + BitVec.ofNat 32 (4 * i)) = w := h
  refine ⟨rfl, ?_, ?_⟩
  · simp [exec, Machine.pop, Machine.addEsp, Machine.setReg, BitVec.add_assoc]
  · have h0 := hword 0 _ rfl
    have h1 := hword 1 _ rfl
    have h2 := hword 2 _ rfl
    have h4 := hword 4 _ rfl
    have h5 := hword 5 _ rfl
    have h6 := hword 6 _ rfl
    have h7 := hword 7 _ rfl
    intro r hr
    cases r <;>
      simp_all [exec, Machine.pop, Machine.addEsp, Machine.setReg, Machine.top, BitVec.add_assoc]

end Steps

/-- The registers are saved, a C function is called with two arguments, and they come back. -/
theorem saved_and_restored
    {env : Env} {m m1 : Machine} {f : CFun} {a b : Word} (h : Obeys env (m.reg .esp))
    (hf : f.args = 2) (hstack : Holds m1.mem (m1.reg .esp) ([a, b] ++ saved m))
    (hesp : m1.reg .esp = m.reg .esp - 40#32) :
    iretl (run env [.call f, .addEsp 8#32, .popal] m1) =
        (run env [.call f, .addEsp 8#32, .popal] m1).frameAt (m.reg .esp) ∧
      ∀ r, r ≠ .esp → (run env [.call f, .addEsp 8#32, .popal] m1).reg r = m.reg r := by
  obtain ⟨m2, hm2⟩ : ∃ m2, (env f m1).addEsp 8#32 = m2 := ⟨_, rfl⟩
  have hesp2 : m2.reg .esp = m1.reg .esp + 8#32 := by
    rw [← hm2]
    simp [Machine.addEsp, Machine.setReg, h.saved f m1 .esp]
  have hkept : Holds m2.mem (m2.reg .esp) (saved m) := by
    have hmem : m2.mem = (env f m1).mem := by
      rw [← hm2]
      rfl
    rw [hesp2, hmem]
    apply hstack.kept
    intro i hi hlt
    apply h.stack f m1 i (by rw [hf]; exact hi)
    have hdist : m.reg .esp - m1.reg .esp = 40#32 := by
      bv_omega
    rw [hdist]
    have hi : i < 10 := hlt
    have h40 : (40#32).toNat = 40 := rfl
    omega
  obtain ⟨hmem, hesp3, hregs⟩ := popal_spec env hkept
  have hrun : run env [.call f, .addEsp 8#32, .popal] m1 = exec env m2 .popal := by
    rw [← hm2]
    rfl
  rw [hrun]
  refine ⟨?_, hregs⟩
  unfold iretl
  have hend : m.reg .esp - 40#32 + 8#32 + 32#32 = m.reg .esp := by bv_omega
  rw [hesp3, hesp2, hesp, hend]

theorem two_arguments {m p : Machine} (a b : Word) (hstack : Holds p.mem (p.reg .esp) (saved m))
    (hesp : p.reg .esp = m.reg .esp - 32#32) :
    Holds ((p.push b).push a).mem (((p.push b).push a).reg .esp) ([a, b] ++ saved m) ∧
      ((p.push b).push a).reg .esp = m.reg .esp - 40#32 := by
  refine ⟨holds_push (holds_push hstack (by simp [saved]) b) (by simp [saved]) a, ?_⟩
  rw [esp_push, esp_push]
  bv_omega

/-- The arguments of `common_handler`: the vector and the frame. -/
theorem isr_arguments (env : Env) (p : Machine) (vector : Word) :
    (run env [.lea 32#32 .esp .ebx, .push .ebx, .movImm vector .eax, .push .eax] p).mem =
        ((p.push (p.reg .esp + 32#32)).push vector).mem ∧
      (run env [.lea 32#32 .esp .ebx, .push .ebx, .movImm vector .eax, .push .eax] p).reg .esp =
        ((p.push (p.reg .esp + 32#32)).push vector).reg .esp := by
  simp [run, exec, Machine.push, Machine.setReg]

/-- The arguments of `irq_handler`: the number and the frame. -/
theorem irq_arguments (env : Env) (p : Machine) (irqNo : Word) :
    (run env [.mov .esp .ecx, .lea 32#32 .ecx .ebx, .movImm irqNo .eax, .push .ebx,
          .push .eax] p).mem =
        ((p.push (p.reg .esp + 32#32)).push irqNo).mem ∧
      (run env [.mov .esp .ecx, .lea 32#32 .ecx .ebx, .movImm irqNo .eax, .push .ebx,
          .push .eax] p).reg .esp =
        ((p.push (p.reg .esp + 32#32)).push irqNo).reg .esp := by
  simp [run, exec, Machine.push, Machine.setReg]

theorem exec_cld (env : Env) (m : Machine) :
    exec env m .cld = m :=
  rfl

theorem exec_cli (env : Env) (m : Machine) :
    exec env m .cli = m :=
  rfl

theorem isr_restores
    {env : Env} {m : Machine} (vector : Word) (h : Obeys env ((Stub.isr vector).frame m)) :
    Restores env (.isr vector) m := by
  obtain ⟨hstack, hesp, -⟩ := pushal_spec env m
  have hrun : run env (Stub.isr vector).code m = run env [.call .commonHandler, .addEsp 8#32,
      .popal] (run env [.lea 32#32 .esp .ebx, .push .ebx, .movImm vector .eax, .push .eax]
        (exec env m .pushal)) := by
    simp only [run, Stub.code, List.foldl_cons, List.foldl_nil]
  generalize exec env m .pushal = p at hstack hesp hrun
  obtain ⟨hstack1, hesp1⟩ := two_arguments vector (p.reg .esp + 32#32) hstack hesp
  obtain ⟨hmem, hreg⟩ := isr_arguments env p vector
  rw [← hmem] at hstack1
  obtain ⟨hframe, hregs⟩ := saved_and_restored h (show CFun.commonHandler.args = 2 from rfl)
    hstack1 hesp1
  rw [← hrun] at hframe hregs
  exact ⟨hframe, fun r hr _ => hregs r hr, fun hstub => by cases hstub⟩

theorem irq_restores
    {env : Env} {m : Machine} (irqNo : Word) (h : Obeys env ((Stub.irq irqNo).frame m)) :
    Restores env (.irq irqNo) m := by
  obtain ⟨hstack, hesp, -⟩ := pushal_spec env m
  have hrun : run env (Stub.irq irqNo).code m = run env [.call .irqHandler, .addEsp 8#32,
      .popal] (run env [.mov .esp .ecx, .lea 32#32 .ecx .ebx, .movImm irqNo .eax, .push .ebx,
        .push .eax] (exec env m .pushal)) := by
    simp only [run, Stub.code, List.foldl_cons, List.foldl_nil, exec_cld, exec_cli]
  generalize exec env m .pushal = p at hstack hesp hrun
  obtain ⟨hstack1, hesp1⟩ := two_arguments irqNo (p.reg .esp + 32#32) hstack hesp
  obtain ⟨hmem, hreg⟩ := irq_arguments env p irqNo
  rw [← hmem] at hstack1
  obtain ⟨hframe, hregs⟩ := saved_and_restored h (show CFun.irqHandler.args = 2 from rfl)
    hstack1 hesp1
  rw [← hrun] at hframe hregs
  exact ⟨hframe, fun r hr _ => hregs r hr, fun hstub => by cases hstub⟩

/-- C functions that return at once. -/
def returnAtOnce : Env :=
  fun _ m => m

theorem returnAtOnce_obeys (frame : Word) :
    Obeys returnAtOnce frame :=
  ⟨fun _ _ _ _ => rfl, fun _ _ _ _ _ => rfl⟩

/-- Every word of memory holds its own address, and the stack is at `0x1000`. -/
def addressed : Machine where
  reg := fun r => if r = .esp then 0x1000#32 else 0#32
  mem := fun a => a

/--
The registers are popped one word too high, since the error code is above them, and
then the frame: its first word is that of `cs`.
-/
theorem errorCode_frame (vector : Word) :
    let m := run returnAtOnce (Stub.isrErrorCode vector).code addressed
    m.reg .esp = 0x1008#32 ∧ m.mem 0x1008#32 = 0x1008#32 ∧ m.mem 0x1004#32 = 0x1004#32 := by
  simp [run, Stub.code, exec, returnAtOnce, addressed, Machine.push, Machine.pop,
    Machine.addEsp, Machine.setReg]

/--
A stub returns to the frame with the registers from entry, for all C functions that
keep to the calling convention, exactly if it is an `ISR` or an `IRQ`.
-/
theorem stub_restores_iff (stub : Stub) :
    (∀ env m, Obeys env (stub.frame m) → Restores env stub m) ↔
      (∃ vector, stub = .isr vector) ∨ ∃ irqNo, stub = .irq irqNo := by
  constructor
  · intro h
    have hrestores := h returnAtOnce addressed (returnAtOnce_obeys _)
    cases stub with
    | isrErrorCode vector =>
      obtain ⟨hesp, hcs, heip⟩ := errorCode_frame vector
      have hfirst := (List.cons.inj hrestores.frame).1
      rw [hesp, hcs] at hfirst
      exact absurd (hfirst.trans heip) (by decide)
    | isr vector => exact Or.inl ⟨vector, rfl⟩
    | irq irqNo => exact Or.inr ⟨irqNo, rfl⟩
    | syscallHandler =>
      have hebx := hrestores.regs .ebx (by decide) (fun _ => by decide)
      exact absurd hebx (by decide)
  · rintro (⟨vector, rfl⟩ | ⟨irqNo, rfl⟩) env m h
    · exact isr_restores vector h
    · exact irq_restores irqNo h

/-- A page fault whose handler returns at once: `iretl` takes `cs`, `eflags`, `esp` and `ss` for
`eip`, `cs`, `eflags` and `esp`, and `eax` gets the error code. A system call returns with the
kernel's stack pointer in `ebx`. -/
theorem page_fault_returns_to_cs :
    Obeys returnAtOnce ((Stub.isrErrorCode 14#32).frame addressed) ∧
      addressed.frameAt ((Stub.isrErrorCode 14#32).frame addressed) =
        [0x1004#32, 0x1008#32, 0x100C#32, 0x1010#32, 0x1014#32] ∧
      iretl (run returnAtOnce (Stub.isrErrorCode 14#32).code addressed) =
        [0x1008#32, 0x100C#32, 0x1010#32, 0x1014#32, 0x1018#32] ∧
      (run returnAtOnce (Stub.isrErrorCode 14#32).code addressed).reg .eax = 0x1000#32 ∧
      addressed.reg .ebx = 0#32 ∧
      (run returnAtOnce Stub.syscallHandler.code addressed).reg .ebx = 0x1000#32 :=
  ⟨returnAtOnce_obeys _, rfl, rfl, rfl, rfl, rfl⟩

end Arch
end Homunculos
