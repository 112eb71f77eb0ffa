import Homunculos.Vfs.CallSpecs
import Homunculos.Lib.Run

/-!
# Runs of the file system calls

The kernel boots with its own reference to the screen and the three standard
descriptors of the first task.  From there tasks make calls in any order.
-/

namespace Homunculos
namespace Vfs

open Ipc RefCount

/-- The arguments of a call. -/
inductive Call where
  | open (path : Bool) (resolved created : Option Nat) (flags : BitVec 32)
  | close (fd : Int)
  | dup (oldfd : Int)
  | dup2 (oldfd newfd : Int)
  | fcntl (fd : Int) (cmd : FcntlCmd) (arg : BitVec 32)
  | pipe
  | fork (cloned : Bool)
  | exit

/-- The call of a task: the value returned and the state after it. -/
def Call.run (s : FileSys) (t : Pid) : Call → Int × FileSys
  | .open path resolved created flags => sysOpen s t path resolved created flags
  | .close fd => sysClose s t fd
  | .dup oldfd => sysDup s t oldfd
  | .dup2 oldfd newfd => sysDup2 s t oldfd newfd
  | .fcntl fd cmd arg => sysFcntl64 s t fd cmd arg
  | .pipe => ((sysPipe s t).1, (sysPipe s t).2.2)
  | .fork cloned => sysFork s t cloned
  | .exit => sysExit s t

/-- `F_DUPFD` has an argument in 0..15. -/
def Call.Admissible : Call → Prop
  | .fcntl _ .dupfd arg => arg.toNat < 16
  | _ => True

/-- A task that exists makes a call, also one that `schedule` went back to after it exited. -/
inductive FileStep : FileSys → FileSys → Prop
  | call
      (s : FileSys) (t : Pid) (c : Call)
      (ht : t.val < s.nextPid)
      (harg : c.Admissible) :
      FileStep s (c.run s t).2

/-- The tables as they are in the loaded image. -/
def zeroSys : FileSys where
  files := fun _ => ⟨none, .null, 0, 0, 0#32⟩
  pipes := fun _ => ⟨⟨fun _ => 0, 0, 0, 0⟩, 0, 0, 0, 0⟩
  pipeUsed := fun _ => false
  fdTable := fun _ _ => none
  fdFlags := fun _ _ => 0#8
  state := fun _ => .ready
  parentPid := fun _ => 0
  nextPid := 0

/-- `t->fd_table[fd] = vfs_open_file(inode)`. -/
def openAt (s : FileSys) (t : Pid) (fd : Fd) (inode : Option Nat) : FileSys :=
  match vfsOpenFile s inode with
  | some (f, s₁) => s₁.setFd t fd (some f)
  | none => s.setFd t fd none

/-- The device inodes as path resolution finds them while the kernel boots. -/
structure Devices where
  out : Option Nat
  kbd : Option Nat
  vga : Option Nat
  vgaerr : Option Nat

/-- The file that `sys_write` keeps for output without a task (`boot_out`). -/
def bootOut (d : Devices) : Option Slot :=
  (vfsOpenFile zeroSys d.out).map Prod.fst

/-- The state after the first output. -/
def bootPrinted (d : Devices) : FileSys :=
  match vfsOpenFile zeroSys d.out with
  | some (_, s) => s
  | none => zeroSys

def setupMainTask (d : Devices) (s : FileSys) : Option (Pid × FileSys) :=
  (taskAlloc s).map fun x =>
    (x.1, openAt (openAt (openAt x.2 x.1 0 d.kbd) x.1 1 d.vga) x.1 2 d.vgaerr)

/-- `kernel_main`: the task `main` and the waiter, unless the kernel panics. -/
def kernelMain (d : Devices) : Option FileSys :=
  (setupMainTask d (bootPrinted d)).bind fun x =>
    (taskAlloc x.2).map fun y =>
      { y.2 with
        parentPid := Function.update y.2.parentPid x.1 y.1.val }

/-- The kernel's own references. -/
def bootRefs (d : Devices) : Slot → Nat :=
  match bootOut d with
  | some f => hold (fun _ => 0) f
  | none => fun _ => 0

section Boot

variable {s s' : FileSys} {held : Slot → Nat}

theorem zeroSys_inv :
    Inv zeroSys (fun _ => 0) := by
  have hzero : ∀ f, refs zeroSys.table f = 0 := by
    intro f
    rw [refs_eq_zero_iff]
    intro x hx
    cases hx
  refine ⟨⟨?_, ?_⟩, ⟨?_, ?_, ?_, ?_, ?_⟩, fun _ _ _ => rfl⟩
  · intro f hf
    exact absurd rfl hf
  · intro f
    rw [hzero]
    simp [zeroSys]
  · intro f e p hf
    cases hf
  · intro f g e p hf
    cases hf
  · intro p hp
    cases hp
  · intro f e p hf
    cases hf
  · intro e p hp
    cases hp

theorem bootPrinted_inv (d : Devices) :
    Inv (bootPrinted d) (bootRefs d) := by
  unfold bootPrinted bootRefs bootOut
  cases hopen : vfsOpenFile zeroSys d.out with
  | none => exact zeroSys_inv
  | some x => exact zeroSys_inv.openFile hopen

theorem openAt_inv
    {t : Pid} {fd : Fd} (h : Inv s held) (ht : t.val < s.nextPid) (hfd : s.fdTable t fd = none)
    (inode : Option Nat) :
    Inv (openAt s t fd inode) held ∧
      t.val < (openAt s t fd inode).nextPid ∧
      ∀ i, i ≠ fd → (openAt s t fd inode).fdTable t i = s.fdTable t i := by
  unfold openAt
  cases hopen : vfsOpenFile s inode with
  | none =>
    have hsame : s.setFd t fd none = s := by simp [FileSys.setFd, ← hfd]
    rw [hsame]
    exact ⟨h, ht, fun _ _ => rfl⟩
  | some x =>
    obtain ⟨f, s₁⟩ := x
    have h1 := h.openFile hopen
    obtain ⟨_, ino, rfl⟩ := vfsOpenFileFlags_some hopen
    refine ⟨h1.store ht hfd, ht, ?_⟩
    intro i hi
    simp [FileSys.setFd, FileSys.setFile, hi]

theorem setupMainTask_inv
    {t : Pid} {d : Devices} (h : Inv s held) (hmain : setupMainTask d s = some (t, s')) :
    Inv s' held := by
  obtain ⟨⟨u, s₁⟩, halloc, heq⟩ := Option.map_eq_some_iff.mp hmain
  cases heq
  obtain ⟨h1, ht, hfree⟩ := h.taskAlloc halloc
  obtain ⟨h2, ht2, hfd2⟩ := openAt_inv h1 ht (hfree 0) d.kbd
  have hfree2 : (openAt s₁ u 0 d.kbd).fdTable u 1 = none :=
    (hfd2 1 (by decide)).trans (hfree 1)
  obtain ⟨h3, ht3, hfd3⟩ := openAt_inv h2 ht2 hfree2 d.vga
  have hfree3 : (openAt (openAt s₁ u 0 d.kbd) u 1 d.vga).fdTable u 2 = none :=
    (hfd3 2 (by decide)).trans ((hfd2 2 (by decide)).trans (hfree 2))
  exact (openAt_inv h3 ht3 hfree3 d.vgaerr).1

theorem kernelMain_inv {d : Devices} (hboot : kernelMain d = some s) :
    Inv s (bootRefs d) := by
  obtain ⟨⟨t, s₁⟩, hmain, hboot⟩ := Option.bind_eq_some_iff.mp hboot
  obtain ⟨⟨w, s2⟩, halloc, heq⟩ := Option.map_eq_some_iff.mp hboot
  cases heq
  have h1 := setupMainTask_inv (bootPrinted_inv d) hmain
  have h2 := (h1.taskAlloc halloc).1
  exact ⟨h2.counted, h2.pipesOk, h2.fresh⟩

/-- What opening a file, storing a descriptor and making a task keep holds when the
kernel has booted. -/
theorem kernelMain_rule {P : FileSys → Prop} {d : Devices} (hzero : P zeroSys)
    (hopen : ∀ s inode f s', vfsOpenFile s inode = some (f, s') → P s → P s')
    (hfd : ∀ s t fd v, P s → P (s.setFd t fd v))
    (halloc : ∀ s t s', taskAlloc s = some (t, s') → P s → P s')
    (hparent : ∀ s parents, P s → P { s with parentPid := parents })
    (hboot : kernelMain d = some s) :
    P s := by
  have hprinted : P (bootPrinted d) := by
    unfold bootPrinted
    split
    next f s₁ h => exact hopen _ _ f s₁ h hzero
    next => exact hzero
  have hopenAt : ∀ s t fd inode, P s → P (openAt s t fd inode) := by
    intro s t fd inode hs
    unfold openAt
    split
    next f s₁ h => exact hfd _ _ _ _ (hopen _ _ f s₁ h hs)
    next => exact hfd _ _ _ _ hs
  obtain ⟨⟨t, s₁⟩, hmain, hboot⟩ := Option.bind_eq_some_iff.mp hboot
  obtain ⟨⟨w, s2⟩, hwaiter, heq⟩ := Option.map_eq_some_iff.mp hboot
  cases heq
  obtain ⟨⟨u, s₀⟩, hfirst, heq⟩ := Option.map_eq_some_iff.mp hmain
  cases heq
  have h₀ := halloc _ _ _ hfirst hprinted
  have h1 := hopenAt _ u 2 d.vgaerr (hopenAt _ u 1 d.vga (hopenAt _ u 0 d.kbd h₀))
  exact hparent _ _ (halloc _ _ _ hwaiter h1)

end Boot

section Runs

variable {s s' : FileSys} {held : Slot → Nat}

theorem Call.run_inv (h : Inv s held) {t : Pid} (ht : t.val < s.nextPid) (c : Call) :
    Inv (c.run s t).2 held := by
  cases c with
  | «open» path resolved created flags => exact (sysOpen_spec h ht path resolved created flags).1
  | close fd => exact sysClose_inv h fd
  | dup oldfd => exact (sysDup_spec h ht oldfd).1
  | dup2 oldfd newfd => exact (sysDup2_spec h ht oldfd newfd).1
  | fcntl fd cmd arg => exact (sysFcntl64_spec h ht fd cmd arg).1
  | pipe => exact sysPipe_inv h ht
  | fork cloned => exact sysFork_inv h cloned
  | exit => exact sysExit_inv h t

theorem FileStep.inv (hstep : FileStep s s') (h : Inv s held) :
    Inv s' held := by
  cases hstep with
  | call t c ht harg => exact c.run_inv h ht

theorem inv_of_fileRun (hrun : Relation.ReflTransGen FileStep s s') (h : Inv s held) :
    Inv s' held :=
  Run.Keeps.run (P := fun z => Inv z held)
    (fun _ _ hstep hs => hstep.inv hs) hrun h

/-- The calls that leave no trace when they fail. -/
def Call.Traceless : Call → Prop
  | .open .. => True
  | .dup _ => True
  | .dup2 .. => True
  | .fcntl _ cmd _ => cmd = .dupfd
  | .pipe => True
  | _ => False

theorem Call.sameUse_of_failed
    (h : Inv s held) {t : Pid} (ht : t.val < s.nextPid) {c : Call} (hc : c.Traceless)
    (hfail : (c.run s t).1 = -1) :
    SameUse s (c.run s t).2 := by
  cases c with
  | «open» path resolved created flags =>
    exact (sysOpen_spec h ht path resolved created flags).2 hfail
  | dup oldfd => exact (sysDup_spec h ht oldfd).2 hfail
  | dup2 oldfd newfd => exact (sysDup2_spec h ht oldfd newfd).2 hfail
  | fcntl fd cmd arg => exact (sysFcntl64_spec h ht fd cmd arg).2 hc hfail
  | pipe =>
    rcases sysPipe_cases s t with ⟨_, hsame⟩ |
      ⟨p, rf, wf, rfd, wfd, _, _, _, _, _, _, _, hout⟩
    · exact hsame
    · have hret : (sysPipe s t).1 = -1 := hfail
      rw [hout] at hret
      cases hret
  | _ => exact absurd hc not_false

/--
In every state reached from boot: the reference count of a used slot is the
number of descriptors that point to it and of the kernel's own references; a
slot is free exactly when there are none; a pipe is used exactly while it has
an open end, an end is at most one slot, and its counter is 1 while that slot
is open and 0 otherwise; and a call that fails leaves descriptors, used slots
and used pipes alone.
-/
theorem file_references_exact
    {d : Devices} {s₀ : FileSys} (hboot : kernelMain d = some s₀)
    (hrun : Relation.ReflTransGen FileStep s₀ s) :
    (∀ f, (s.files f).ops ≠ none → (s.files f).refcount = refs s.table f + bootRefs d f) ∧
    (∀ f, (s.files f).ops = none ↔ (∀ t fd, s.fdTable t fd ≠ some f) ∧ bootRefs d f = 0) ∧
    (∀ p, s.pipeUsed p = true ↔ ∃ f e, (s.files f).pipeEnd = some (e, p)) ∧
    (∀ f g e p, (s.files f).pipeEnd = some (e, p) → (s.files g).pipeEnd = some (e, p) → f = g) ∧
    (∀ e p, s.pipeUsed p = true →
      ((e.refs (s.pipes p) = 1 ↔ ∃ f, (s.files f).pipeEnd = some (e, p)) ∧
        (e.refs (s.pipes p) = 0 ↔ ¬ ∃ f, (s.files f).pipeEnd = some (e, p)))) ∧
    (∀ t c, t.val < s.nextPid → Call.Admissible c → Call.Traceless c →
      (c.run s t).1 = -1 → SameUse s (c.run s t).2) := by
  have h := inv_of_fileRun hrun (kernelMain_inv hboot)
  refine ⟨h.counted.count_eq, ?_, ?_, h.pipesOk.unique, ?_, ?_⟩
  · intro f
    have hiff := h.counted.used_iff f
    have hrefs : refs s.table f = 0 ↔ ∀ t fd, s.fdTable t fd ≠ some f := by
      rw [refs_eq_zero_iff]
      exact ⟨fun hx t fd => hx (t, fd), fun hx x => hx x.1 x.2⟩
    rw [← hrefs, ← Nat.add_eq_zero_iff]
    constructor
    · intro hfree
      by_contra hne
      exact hiff.mpr (Nat.pos_of_ne_zero hne) hfree
    · intro hzero
      by_contra hne
      have hpos := hiff.mp hne
      omega
  · intro p
    constructor
    · exact h.pipesOk.open_of_used p
    · rintro ⟨f, e, hf⟩
      exact h.pipesOk.used_of_end f e p hf
  · intro e p hp
    by_cases hopen : ∃ f, (s.files f).pipeEnd = some (e, p)
    · obtain ⟨f, hf⟩ := hopen
      rw [h.pipesOk.refs_of_open f e p hf]
      exact ⟨⟨fun _ => ⟨f, hf⟩, fun _ => rfl⟩,
        ⟨fun hz => absurd hz one_ne_zero, fun hno => absurd ⟨f, hf⟩ hno⟩⟩
    · have hclosed : ∀ f, (s.files f).pipeEnd ≠ some (e, p) :=
        fun f hf => hopen ⟨f, hf⟩
      rw [h.pipesOk.refs_of_closed e p hp hclosed]
      exact ⟨⟨fun hz => absurd hz zero_ne_one, fun hex => absurd hex hopen⟩,
        ⟨fun _ => hopen, fun _ => rfl⟩⟩
  · intro t c ht _ hc hfail
    exact Call.sameUse_of_failed h ht hc hfail

end Runs

/-- All devices are found. -/
def devices : Devices where
  out := some 1
  kbd := some 2
  vga := some 1
  vgaerr := some 3

/-- The state after boot. -/
def booted : FileSys :=
  (kernelMain devices).getD zeroSys

/-- Task 0 makes a pipe. -/
def piped : FileSys :=
  (Call.pipe.run booted 0).2

theorem booted_pipe :
    FileStep booted piped :=
  .call booted 0 .pipe (by decide +kernel) trivial

/-- Slot 4 is the read end of the pipe, with one reference. -/
theorem file_references_exact_piped :
    piped.pipeUsed 0 = true ∧
      (piped.files 4).refcount = refs piped.table 4 + bootRefs devices 4 ∧
      PipeEnd.read.refs (piped.pipes 0) = 1 := by
  have h := file_references_exact (show kernelMain devices = some booted from rfl)
    (Relation.ReflTransGen.single booted_pipe)
  have hused : piped.pipeUsed 0 = true := by decide +kernel
  refine ⟨hused, h.1 4 (by decide +kernel), ?_⟩
  exact (h.2.2.2.2.1 .read 0 hused).1.mpr ⟨4, by decide +kernel⟩

/-- The loop of `F_DUPFD` from `newFd` on, with `n` rounds to go: the indices at which it reads
`fd_table`, and the one at which it finds a null pointer. `null` tells where the memory around the
table holds one. -/
def dupfdLoop (null : Int → Bool) : Nat → Int → List Int × Option Int
  | 0, _ => ([], none)
  | n + 1, newFd =>
    if null newFd then
      ([newFd], some newFd)
    else
      let r := dupfdLoop null n (newFd + 1)
      (newFd :: r.1, r.2)

/-- The loop stays in the table, and the call fails without a trace or gives the least free
descriptor from the argument on, which then is the file `f`. -/
structure DupfdRight (null : Int → Bool) (s : FileSys) (t : Pid) (fd : Int) (f : Slot)
    (arg : BitVec 32) : Prop where
  inside : ∀ i ∈ (dupfdLoop null (16 - arg.toInt).toNat arg.toInt).1, 0 ≤ i ∧ i < 16
  result :
    ((dupfdLoop null (16 - arg.toInt).toNat arg.toInt).2 = none ∧
      sysFcntl64 s t fd .dupfd arg = (-1, s)) ∨
    ∃ j : Fd, (dupfdLoop null (16 - arg.toInt).toNat arg.toInt).2 = some (j.val : Int) ∧
      (sysFcntl64 s t fd .dupfd arg).1 = j.val ∧
      IsLeast {k : Fd | arg.toInt ≤ k.val ∧ s.fdTable t k = none} j ∧
      (sysFcntl64 s t fd .dupfd arg).2.fdTable t j = some f

section Dupfd

variable {s : FileSys} {t : Pid} {null : Int → Bool}

theorem dupfdLoop_reads (null : Int → Bool) (n : Nat) (a : Int) :
    ∀ i ∈ (dupfdLoop null n a).1, a ≤ i ∧ i < a + n := by
  induction n generalizing a with
  | zero => simp [dupfdLoop]
  | succ n ih =>
    intro i hi
    unfold dupfdLoop at hi
    split at hi
    · rw [List.mem_singleton.mp hi]
      omega
    · rcases List.mem_cons.mp hi with rfl | hmem
      · omega
      · have hstep := ih (a + 1) i hmem
        omega

theorem dupfdLoop_eq (n : Nat) (a : Int) (j : Option Int)
    (hnone : j = none → ∀ i, a ≤ i → i < a + n → null i = false)
    (hsome : ∀ i, j = some i → a ≤ i ∧ i < a + n ∧ null i = true ∧
      ∀ k, a ≤ k → k < i → null k = false) :
    (dupfdLoop null n a).2 = j := by
  induction n generalizing a with
  | zero =>
    cases j with
    | none => rfl
    | some i =>
      obtain ⟨hlo, hhi, -⟩ := hsome i rfl
      omega
  | succ n ih =>
    unfold dupfdLoop
    split
    next hnull =>
      cases j with
      | none =>
        rw [hnone rfl a le_rfl (by omega)] at hnull
        cases hnull
      | some i =>
        obtain ⟨hlo, -, -, hbefore⟩ := hsome i rfl
        rcases hlo.lt_or_eq with hlt | rfl
        · rw [hbefore a le_rfl hlt] at hnull
          cases hnull
        · rfl
    next hnull =>
      apply ih
      · intro hj i hlo hhi
        exact hnone hj i (by omega) (by omega)
      · intro i hi
        obtain ⟨hlo, hhi, hi', hbefore⟩ := hsome i hi
        have hne : a ≠ i := by
          rintro rfl
          exact hnull hi'
        exact ⟨by omega, by omega, hi', fun k hk => hbefore k (by omega)⟩

theorem freeFdFrom_least {a : Int} {j : Fd} (h : s.freeFdFrom t a = some j) :
    IsLeast {k : Fd | a ≤ k.val ∧ s.fdTable t k = none} j := by
  obtain ⟨hj, i, hi, hat, hbefore⟩ := List.find?_eq_some_iff_getElem.mp h
  rw [Bool.and_eq_true, decide_eq_true_iff, Option.isNone_iff_eq_none] at hj
  refine ⟨hj, ?_⟩
  rintro k ⟨hk, hfree⟩
  by_contra hlt
  have hki : k.val < i := by
    rw [← hat, List.getElem_finRange] at hlt
    exact not_le.mp hlt
  have hno := hbefore k.val hki
  simp [hk, hfree] at hno

/-- `F_DUPFD` is right exactly for an argument that is not negative. -/
theorem dupfd_right_iff (hnull : ∀ k : Fd, null k.val = (s.fdTable t k).isNone) {fd : Int} {i : Fd}
    {f : Slot} (hopen : s.fileAt t fd = some (i, f)) (arg : BitVec 32) :
    DupfdRight null s t fd f arg ↔ 0 ≤ arg.toInt := by
  constructor
  · intro h
    by_contra hneg
    obtain ⟨n, hn⟩ : ∃ n, (16 - arg.toInt).toNat = n + 1 := ⟨(15 - arg.toInt).toNat, by omega⟩
    have hread : arg.toInt ∈ (dupfdLoop null (16 - arg.toInt).toNat arg.toInt).1 := by
      rw [hn, dupfdLoop]
      split
      · simp
      · simp
    exact hneg (h.inside _ hread).1
  · intro hpos
    have hin : ∀ k : Int, 0 ≤ k → k < 16 → ∃ d : Fd, (d.val : Int) = k :=
      fun k h0 h16 => ⟨⟨k.toNat, by omega⟩, by simp [h0]⟩
    refine ⟨?_, ?_⟩
    · intro k hk
      have hread := dupfdLoop_reads null _ _ k hk
      omega
    · unfold sysFcntl64
      rw [hopen]
      cases hfree : s.freeFdFrom t arg.toInt with
      | none =>
        refine Or.inl ⟨dupfdLoop_eq _ _ _ ?_ (by simp), rfl⟩
        intro _ k hlo hhi
        obtain ⟨d, rfl⟩ := hin k (by omega) (by omega)
        have hno := List.find?_eq_none.mp hfree d (List.mem_finRange d)
        rw [hnull, ← Bool.not_eq_true]
        intro hd
        exact hno (by simp [hlo, hd])
      | some j =>
        have hleast := freeFdFrom_least hfree
        refine Or.inr ⟨j, dupfdLoop_eq _ _ _ (by simp) ?_, rfl, hleast, ?_⟩
        · intro k hk
          cases hk
          refine ⟨hleast.1.1, by omega, by simp [hnull, hleast.1.2], ?_⟩
          intro k hlo hhi
          obtain ⟨d, rfl⟩ := hin k (by omega) (by omega)
          rw [hnull]
          by_contra hnone
          have hle := hleast.2 ⟨hlo, by simpa using hnone⟩
          exact absurd (Fin.le_def.mp hle) (by omega)
        · simp [FileSys.setFdFlags, FileSys.incref, FileSys.setFile, FileSys.setFd]

end Dupfd

/-- The memory around the table of task 0 after boot, with no null pointer outside. -/
def bootedNull (i : Int) : Bool :=
  match fdOf i with
  | some fd => (booted.fdTable 0 fd).isNone
  | none => false

/-- The least free descriptor from 1 on is 3. -/
theorem dupfd_right_iff_booted :
    DupfdRight bootedNull booted 0 0 1 1#32 :=
  (dupfd_right_iff (by decide +kernel) (i := 0) (by decide +kernel) 1#32).mpr (by decide)

/-- With the argument -1 the loop reads the word in front of the table. -/
theorem dupfd_reads_outside :
    ¬ DupfdRight bootedNull booted 0 0 1 (-1#32) := by
  intro h
  have hread := h.inside (-1) (by decide +kernel)
  omega

end Vfs
end Homunculos
