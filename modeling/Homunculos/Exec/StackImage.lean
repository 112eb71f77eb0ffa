import Homunculos.Lib.Strings

/-!
# The first stack of a program

The part of `sys_exec` that copies the argument and environment strings into a
page of the kernel and then builds the stack of the new program from them, and
the code of the C library that reads this stack: `_start` and `__env_init`.

The stack lies below `USER_STACK_TOP`, and what is written below it is less
than two pages, so that no address wraps.
-/

namespace Homunculos
namespace Exec

open Bytes

def userStackTop : Nat := 0xC0000000

def userStackSize : Nat := 0x1000

def maxExecArgs : Nat := 16

def maxExecEnvs : Nat := 16

def maxExecStrings : Nat := 4096

def envMax : Nat := 64

def envBufSize : Nat := 4096

/-- The number of addresses; no loop over a string in memory goes further. -/
def addressSpace : Nat := 2 ^ 32

/-- A string that a program passes: its bytes before the terminator, which lie
below the top of the user stack. -/
structure UserString where
  bytes : List (BitVec 8)
  nonzero : 0#8 ∉ bytes
  fits : bytes.length < userStackTop

/-- What one of the two loops over strings has done. -/
structure Copied where
  offsets : List Nat
  strBuf : Nat → BitVec 8
  strOffset : Nat

/-- `MAX_EXEC_STRINGS - str_offset - 1`, as the unsigned number it is. -/
def scanBound (strOffset : Nat) : Nat :=
  (maxExecStrings + 2 ^ 32 - strOffset - 1) % 2 ^ 32

/-- `while (s[len] && len < bound) len++`, with the bytes from `len` on. -/
def scanLen (bound : Nat) : List (BitVec 8) → Nat → Nat
  | [], len => len
  | _ :: rest, len => if len < bound then scanLen bound rest (len + 1) else len

/-- One of the two loops of `sys_exec` over strings: at most `left` of them. -/
def copyStrings : Nat → List UserString → (Nat → BitVec 8) → Nat → Copied
  | 0, _, strBuf, strOffset => ⟨[], strBuf, strOffset⟩
  | _ + 1, [], strBuf, strOffset => ⟨[], strBuf, strOffset⟩
  | left + 1, s :: ss, strBuf, strOffset =>
    let len := scanLen (scanBound strOffset) s.bytes 0
    let next := (strOffset + len + 1) % 2 ^ 32
    if maxExecStrings < next then
      ⟨[], strBuf, strOffset⟩
    else
      let rest := copyStrings left ss
        (copy strBuf strOffset (fun i => s.bytes.getD i 0#8) (len + 1)) next
      { rest with offsets := strOffset :: rest.offsets }

/-- A list that is not passed is skipped. -/
def copyList (left : Nat) (list : Option (List UserString)) (strBuf : Nat → BitVec 8)
    (strOffset : Nat) : Copied :=
  match list with
  | none => ⟨[], strBuf, strOffset⟩
  | some ss => copyStrings left ss strBuf strOffset

/-- `argv_offsets`, `envp_offsets`, `str_buf` and `str_offset` after the loops. -/
structure ExecStrings where
  argvOffsets : List Nat
  envpOffsets : List Nat
  strBuf : Nat → BitVec 8
  strOffset : Nat

/-- Both loops of `sys_exec` over strings. -/
def copyArgs (strBuf : Nat → BitVec 8) (argv envp : Option (List UserString)) : ExecStrings :=
  let a := copyList maxExecArgs argv strBuf 0
  let e := copyList maxExecEnvs envp a.strBuf a.strOffset
  ⟨a.offsets, e.offsets, e.strBuf, e.strOffset⟩

namespace ExecStrings

variable (x : ExecStrings)

def argc : Nat :=
  x.argvOffsets.length

def envc : Nat :=
  x.envpOffsets.length

def totalSize : Nat :=
  4 + (x.argc + 1) * 4 + (x.envc + 1) * 4 + x.strOffset

def userEsp : Nat :=
  userStackTop - x.totalSize

/-- The address of the string data on the stack. -/
def strings : Nat :=
  x.userEsp + 4 + (x.argc + 1) * 4 + (x.envc + 1) * 4

def putStrings (mem : Nat → BitVec 8) : Nat → BitVec 8 :=
  copy mem x.strings x.strBuf x.strOffset

def putArgv (mem : Nat → BitVec 8) : Nat → BitVec 8 :=
  putWords mem (x.userEsp + 4) (x.argvOffsets.map (fun o => x.strings + o) ++ [0])

def putEnvp (mem : Nat → BitVec 8) : Nat → BitVec 8 :=
  putWords mem (x.userEsp + 4 + (x.argc + 1) * 4)
    (x.envpOffsets.map (fun o => x.strings + o) ++ [0])

/-- The stack is written: the strings, the two arrays and `argc`. -/
def buildStack (mem : Nat → BitVec 8) : Nat → BitVec 8 :=
  putU32 (x.putEnvp (x.putArgv (x.putStrings mem))) x.userEsp x.argc

end ExecStrings

/-- What `_start` takes from the stack. -/
structure Start where
  argc : Nat
  argv : Nat
  envp : Nat

/-- `_start`: behind its prologue `4(%ebp)` is the word at the first stack pointer. -/
def start (mem : Nat → BitVec 8) (esp : Nat) : Start where
  argc := u32 mem esp
  argv := esp + 4
  envp := esp + 4 + 4 * u32 mem esp + 4

/-- The strings at a list of addresses. -/
def readStrings (mem : Nat → BitVec 8) : List Nat → Option (List (List (BitVec 8)))
  | [] => some []
  | p :: ps =>
    (readString mem addressSpace p).bind
      (fun s => (readStrings mem ps).map (fun ss => s :: ss))

/-- The strings `argv[0]` to `argv[argc - 1]` that `main` is given. -/
def mainArgv (mem : Nat → BitVec 8) (esp : Nat) : Option (List (List (BitVec 8))) :=
  readStrings mem ((List.range (start mem esp).argc).map
    (fun i => u32 mem ((start mem esp).argv + 4 * i)))

/-- `env_ptrs` up to its null pointer, as offsets of `env_buf`, and `env_used`. -/
structure Env where
  envPtrs : List Nat
  envBuf : Nat → BitVec 8
  envUsed : Nat

/-- The loop of `__env_init`, with `left` free entries of `env_ptrs`. -/
def envInitLoop (mem : Nat → BitVec 8) (envp : Nat) : Nat → Env → Option Env
  | 0, e => some e
  | left + 1, e =>
    let p := u32 mem (envp + 4 * e.envPtrs.length)
    if p = 0 then
      some e
    else
      match stringLen mem addressSpace p with
      | none => none
      | some len =>
        if envBufSize < e.envUsed + (len + 1) then
          some e
        else
          envInitLoop mem envp left
            { envPtrs := e.envPtrs ++ [e.envUsed]
              envBuf := copy e.envBuf e.envUsed (fun i => mem (p + i)) (len + 1)
              envUsed := e.envUsed + (len + 1) }

def envInit (mem : Nat → BitVec 8) (envBuf : Nat → BitVec 8) (envp : Nat) : Option Env :=
  if envp = 0 then some ⟨[], envBuf, 0⟩ else envInitLoop mem envp envMax ⟨[], envBuf, 0⟩

/-- The strings of `environ` after `_start` has called `__env_init`. -/
def startEnviron (mem : Nat → BitVec 8) (envBuf : Nat → BitVec 8)
    (esp : Nat) : Option (List (List (BitVec 8))) :=
  (envInit mem envBuf (start mem esp).envp).bind (fun e => readStrings e.envBuf e.envPtrs)

/-- The bytes of strings with their terminators. -/
def stringsSize (ss : List (List (BitVec 8))) : Nat :=
  (ss.map (fun s => s.length + 1)).sum

/-- The bytes of the strings that a list stands for. -/
def texts (list : Option (List UserString)) : List (List (BitVec 8)) :=
  (list.getD []).map UserString.bytes

/-- The size of the stack image of two lists of strings. -/
def imageSize (argv envp : List (List (BitVec 8))) : Nat :=
  4 + 4 * (argv.length + 1) + 4 * (envp.length + 1) + stringsSize argv + stringsSize envp

/-- A string stands in a buffer, before the end of what is used. -/
structure Placed (buf : Nat → BitVec 8) (used o : Nat) (s : List (BitVec 8)) : Prop where
  holds : HoldsString buf o s
  before : o + s.length < used

section Copy

variable {buf buf' : Nat → BitVec 8} {used used' o : Nat} {s : List (BitVec 8)}

theorem Placed.mono
    (h : Placed buf used o s) (hused : used ≤ used') (heq : ∀ k, k < used → buf' k = buf k) :
    Placed buf' used' o s :=
  ⟨h.holds.congr (fun i hi => heq _ (by have := h.before; omega)),
    Nat.lt_of_lt_of_le h.before hused⟩

theorem placed_mono
    {os : List Nat} {ss : List (List (BitVec 8))} (h : List.Forall₂ (Placed buf used) os ss)
    (hused : used ≤ used') (heq : ∀ k, k < used → buf' k = buf k) :
    List.Forall₂ (Placed buf' used') os ss :=
  h.imp (fun _ _ hp => hp.mono hused heq)

theorem stringsSize_cons (s : List (BitVec 8)) (ss : List (List (BitVec 8))) :
    stringsSize (s :: ss) = (s.length + 1) + stringsSize ss := by
  simp [stringsSize]

theorem placed_copy
    (buf : Nat → BitVec 8) (o : Nat) {src : Nat → BitVec 8} {a : Nat} (h : HoldsString src a s) :
    Placed (copy buf o (fun i => src (a + i)) (s.length + 1)) (o + (s.length + 1)) o s := by
  refine ⟨?_, by omega⟩
  intro i hi
  rw [copy_inside (by omega) (by omega), Nat.add_sub_cancel_left]
  exact h i hi

theorem scanLen_eq (bound : Nat) (rest : List (BitVec 8)) (len : Nat) (h : len ≤ bound) :
    scanLen bound rest len = min (len + rest.length) bound := by
  induction rest generalizing len with
  | nil =>
    simp only [scanLen, List.length_nil]
    omega
  | cons b rest ih =>
    simp only [scanLen, List.length_cons]
    split
    · rw [ih (len + 1) (by omega)]
      omega
    · omega

theorem scanBound_of_lt {strOffset : Nat} (h : strOffset < maxExecStrings) :
    scanBound strOffset = maxExecStrings - strOffset - 1 := by
  unfold scanBound maxExecStrings at *
  omega

theorem copyStrings_fits
    {left strOffset : Nat} {s : UserString} (ss : List UserString) (strBuf : Nat → BitVec 8)
    (h : strOffset + (s.bytes.length + 1) ≤ maxExecStrings) :
    copyStrings (left + 1) (s :: ss) strBuf strOffset =
      let rest := copyStrings left ss
        (copy strBuf strOffset (fun i => s.bytes.getD i 0#8) (s.bytes.length + 1))
        (strOffset + (s.bytes.length + 1))
      { rest with offsets := strOffset :: rest.offsets } := by
  have hlen : scanLen (scanBound strOffset) s.bytes 0 = s.bytes.length := by
    rw [scanLen_eq _ _ _ (Nat.zero_le _), scanBound_of_lt (by omega)]
    omega
  have hnext : (strOffset + s.bytes.length + 1) % 2 ^ 32 = strOffset + (s.bytes.length + 1) := by
    unfold maxExecStrings at h
    omega
  rw [copyStrings]
  simp only [hlen, hnext]
  rw [if_neg (by omega)]

theorem copyStrings_full
    (left : Nat) {strOffset : Nat} {s : UserString} (ss : List UserString) (strBuf : Nat → BitVec 8)
    (hoffset : strOffset ≤ maxExecStrings) (h : maxExecStrings < strOffset + (s.bytes.length + 1)) :
    (copyStrings (left + 1) (s :: ss) strBuf strOffset).strOffset = maxExecStrings ∨
      ∃ strBuf', (copyStrings (left + 1) (s :: ss) strBuf strOffset).strOffset =
        (copyStrings left ss strBuf' maxExecStrings).strOffset := by
  have hfits := s.fits
  unfold userStackTop at hfits
  rcases Nat.lt_or_eq_of_le hoffset with hlt | rfl
  · right
    have hlen : scanLen (scanBound strOffset) s.bytes 0 = maxExecStrings - strOffset - 1 := by
      rw [scanLen_eq _ _ _ (Nat.zero_le _), scanBound_of_lt hlt]
      omega
    have hnext :
        (strOffset + (maxExecStrings - strOffset - 1) + 1) % 2 ^ 32 = maxExecStrings := by
      unfold maxExecStrings at *
      omega
    rw [copyStrings]
    simp only [hlen, hnext]
    exact ⟨_, rfl⟩
  · left
    have hbound : scanBound maxExecStrings = 2 ^ 32 - 1 := by decide
    have hlen : scanLen (scanBound maxExecStrings) s.bytes 0 = s.bytes.length := by
      rw [scanLen_eq _ _ _ (Nat.zero_le _)]
      omega
    have hnext : maxExecStrings < (maxExecStrings + s.bytes.length + 1) % 2 ^ 32 := by
      unfold maxExecStrings
      omega
    rw [copyStrings]
    simp only [hlen]
    rw [if_pos hnext]

theorem copyStrings_strOffset
    (left : Nat) (ss : List UserString) (strBuf : Nat → BitVec 8) (strOffset : Nat)
    (h : strOffset ≤ maxExecStrings) :
    (copyStrings left ss strBuf strOffset).strOffset =
      min (strOffset + stringsSize ((ss.take left).map UserString.bytes)) maxExecStrings := by
  induction left generalizing ss strBuf strOffset with
  | zero => simp [copyStrings, stringsSize, h]
  | succ left ih =>
    cases ss with
    | nil => simp [copyStrings, stringsSize, h]
    | cons s ss =>
      rw [List.take_succ_cons, List.map_cons, stringsSize_cons]
      rcases Nat.lt_or_ge maxExecStrings (strOffset + (s.bytes.length + 1)) with hfull | hfits
      · rcases copyStrings_full left ss strBuf h hfull with hend | ⟨strBuf', hend⟩
        · omega
        · rw [hend, ih ss strBuf' _ (Nat.le_refl _)]
          omega
      · rw [copyStrings_fits ss strBuf hfits]
        rw [ih ss _ _ hfits, Nat.add_assoc]

/-- All strings of a list stand behind what was copied before. -/
structure CopiedAll (c : Copied) (strBuf : Nat → BitVec 8) (strOffset : Nat)
    (ss : List (List (BitVec 8))) : Prop where
  strOffset_eq : c.strOffset = strOffset + stringsSize ss
  placed : List.Forall₂ (Placed c.strBuf c.strOffset) c.offsets ss
  kept : ∀ k, k < strOffset → c.strBuf k = strBuf k

theorem copiedAll_nil (strBuf : Nat → BitVec 8) (strOffset : Nat) :
    CopiedAll ⟨[], strBuf, strOffset⟩ strBuf strOffset [] :=
  ⟨rfl, .nil, fun _ _ => rfl⟩

theorem copyStrings_all
    (left : Nat) (ss : List UserString) (strBuf : Nat → BitVec 8) (strOffset : Nat)
    (h : strOffset + stringsSize ((ss.take left).map UserString.bytes) ≤ maxExecStrings) :
    CopiedAll (copyStrings left ss strBuf strOffset) strBuf strOffset
      ((ss.take left).map UserString.bytes) := by
  induction left generalizing ss strBuf strOffset with
  | zero => exact copiedAll_nil strBuf strOffset
  | succ left ih =>
    cases ss with
    | nil => exact copiedAll_nil strBuf strOffset
    | cons s ss =>
      rw [List.take_succ_cons, List.map_cons, stringsSize_cons, ← Nat.add_assoc] at h
      rw [copyStrings_fits ss strBuf (by omega), List.take_succ_cons]
      have hcopy : Placed (copy strBuf strOffset (fun i => s.bytes.getD i 0#8)
          (s.bytes.length + 1)) (strOffset + (s.bytes.length + 1)) strOffset s.bytes := by
        have hsrc : HoldsString (fun i => s.bytes.getD i 0#8) 0 s.bytes := by
          intro i _
          rw [Nat.zero_add]
        have hplaced := placed_copy strBuf strOffset hsrc
        simpa only [Nat.zero_add] using hplaced
      have hrest := ih ss (copy strBuf strOffset (fun i => s.bytes.getD i 0#8)
        (s.bytes.length + 1)) _ h
      refine ⟨?_, .cons (hcopy.mono ?_ hrest.kept) hrest.placed, ?_⟩
      · exact hrest.strOffset_eq.trans (Nat.add_assoc _ _ _)
      · rw [hrest.strOffset_eq]
        exact Nat.le_add_right _ _
      · intro k hk
        exact (hrest.kept k (by omega)).trans (copy_outside (Or.inl hk))

theorem copyList_strOffset
    (left : Nat) (list : Option (List UserString)) (strBuf : Nat → BitVec 8) (strOffset : Nat)
    (h : strOffset ≤ maxExecStrings) :
    (copyList left list strBuf strOffset).strOffset =
      min (strOffset + stringsSize ((texts list).take left)) maxExecStrings := by
  cases list with
  | none => simp [copyList, texts, stringsSize, h]
  | some ss =>
    unfold copyList texts
    rw [← List.map_take]
    exact copyStrings_strOffset left ss strBuf strOffset h

theorem copyList_all
    (left : Nat) (list : Option (List UserString)) (strBuf : Nat → BitVec 8) (strOffset : Nat)
    (h : strOffset + stringsSize ((texts list).take left) ≤ maxExecStrings) :
    CopiedAll (copyList left list strBuf strOffset) strBuf strOffset
      ((texts list).take left) := by
  cases list with
  | none =>
    unfold copyList texts
    rw [Option.getD_none, List.map_nil, List.take_nil]
    exact copiedAll_nil strBuf strOffset
  | some ss =>
    unfold copyList texts at *
    rw [← List.map_take] at *
    exact copyStrings_all left ss strBuf strOffset h

end Copy

section Image

/-- The arguments that `sys_exec` looks at. -/
def argTexts (argv : Option (List UserString)) : List (List (BitVec 8)) :=
  (texts argv).take maxExecArgs

/-- The environment strings that `sys_exec` looks at. -/
def envTexts (envp : Option (List UserString)) : List (List (BitVec 8)) :=
  (texts envp).take maxExecEnvs

/-- Both lists of strings stand in the buffer. -/
structure HasStrings (x : ExecStrings) (args envs : List (List (BitVec 8))) : Prop where
  strOffset_eq : x.strOffset = stringsSize args + stringsSize envs
  args : List.Forall₂ (Placed x.strBuf x.strOffset) x.argvOffsets args
  envs : List.Forall₂ (Placed x.strBuf x.strOffset) x.envpOffsets envs

theorem copyArgs_strOffset (strBuf : Nat → BitVec 8) (argv envp : Option (List UserString)) :
    (copyArgs strBuf argv envp).strOffset =
      min (stringsSize (argTexts argv) + stringsSize (envTexts envp)) maxExecStrings := by
  have hargs := copyList_strOffset maxExecArgs argv strBuf 0 (Nat.zero_le _)
  have henvs := copyList_strOffset maxExecEnvs envp (copyList maxExecArgs argv strBuf 0).strBuf
    (copyList maxExecArgs argv strBuf 0).strOffset (by omega)
  unfold copyArgs argTexts envTexts
  simp only
  omega

theorem copyArgs_hasStrings (strBuf : Nat → BitVec 8) (argv envp : Option (List UserString))
    (h : stringsSize (argTexts argv) + stringsSize (envTexts envp) ≤ maxExecStrings) :
    HasStrings (copyArgs strBuf argv envp) (argTexts argv) (envTexts envp) := by
  have hargs := copyList_all maxExecArgs argv strBuf 0
    (by unfold argTexts at h; omega)
  have hoffset := hargs.strOffset_eq
  rw [Nat.zero_add] at hoffset
  have henvs := copyList_all maxExecEnvs envp (copyList maxExecArgs argv strBuf 0).strBuf
    (copyList maxExecArgs argv strBuf 0).strOffset (by rw [hoffset]; exact h)
  have hend := henvs.strOffset_eq
  have hle := Nat.le_add_right (copyList maxExecArgs argv strBuf 0).strOffset
    (stringsSize (envTexts envp))
  refine ⟨?_, placed_mono hargs.placed (hle.trans_eq hend.symm) henvs.kept, henvs.placed⟩
  exact hend.trans (congrArg (fun o => o + stringsSize (envTexts envp)) hoffset)

theorem HasStrings.totalSize_eq
    {x : ExecStrings} {args envs : List (List (BitVec 8))} (h : HasStrings x args envs) :
    x.totalSize = imageSize args envs := by
  have hargc := h.args.length_eq
  have henvc := h.envs.length_eq
  have hoffset := h.strOffset_eq
  unfold ExecStrings.totalSize ExecStrings.argc ExecStrings.envc imageSize
  omega

end Image

section Build

variable (x : ExecStrings) (mem : Nat → BitVec 8)

theorem exists_placed
    {buf : Nat → BitVec 8} {used : Nat} {os : List Nat} {ss : List (List (BitVec 8))}
    (h : List.Forall₂ (Placed buf used) os ss) {o : Nat} (ho : o ∈ os) :
    ∃ s, Placed buf used o s := by
  induction h with
  | nil => cases ho
  | cons hp _ ih =>
    rcases List.mem_cons.mp ho with rfl | ho
    · exact ⟨_, hp⟩
    · exact ih ho

theorem pointers_lt
    {os : List Nat} {ss : List (List (BitVec 8))} (hsize : x.totalSize ≤ userStackTop)
    (h : List.Forall₂ (Placed x.strBuf x.strOffset) os ss) :
    ∀ p ∈ os.map (fun o => x.strings + o) ++ [0], p < 2 ^ 32 := by
  intro p hp
  rcases List.mem_append.mp hp with hp | hp
  · obtain ⟨o, ho, rfl⟩ := List.mem_map.mp hp
    obtain ⟨s, hplaced⟩ := exists_placed h ho
    have hbefore := hplaced.before
    unfold ExecStrings.strings ExecStrings.userEsp
    unfold ExecStrings.totalSize userStackTop at *
    omega
  · rw [List.mem_singleton.mp hp]
    decide

theorem buildStack_argc (h : x.argc < 2 ^ 32) :
    u32 (x.buildStack mem) x.userEsp = x.argc := by
  unfold ExecStrings.buildStack
  rw [u32_putU32_self, Nat.mod_eq_of_lt h]

theorem length_argv :
    (x.argvOffsets.map (fun o => x.strings + o) ++ [0]).length = x.argc + 1 := by
  simp [ExecStrings.argc]

theorem length_envp :
    (x.envpOffsets.map (fun o => x.strings + o) ++ [0]).length = x.envc + 1 := by
  simp [ExecStrings.envc]

/-- The arguments are an array behind `argc`. -/
theorem buildStack_argv (h : ∀ p ∈ x.argvOffsets.map (fun o => x.strings + o) ++ [0], p < 2 ^ 32) :
    HoldsWords (x.buildStack mem) (x.userEsp + 4)
      (x.argvOffsets.map (fun o => x.strings + o) ++ [0]) := by
  refine (holdsWords_putWords (x.putStrings mem) _ h).congr ?_
  intro k hlo hhi
  rw [length_argv] at hhi
  unfold ExecStrings.buildStack ExecStrings.putEnvp
  rw [putU32_of_apart (by omega), putWords_of_apart (by omega)]
  rfl

theorem buildStack_envp (h : ∀ p ∈ x.envpOffsets.map (fun o => x.strings + o) ++ [0], p < 2 ^ 32) :
    HoldsWords (x.buildStack mem) (x.userEsp + 4 + (x.argc + 1) * 4)
      (x.envpOffsets.map (fun o => x.strings + o) ++ [0]) := by
  refine (holdsWords_putWords (x.putArgv (x.putStrings mem)) _ h).congr ?_
  intro k hlo _
  exact putU32_of_apart (by omega)

theorem buildStack_byte {k : Nat} (hk : k < x.strOffset) :
    x.buildStack mem (x.strings + k) = x.strBuf k := by
  have hargc := length_argv x
  have henvc := length_envp x
  have hstrings : x.strings = x.userEsp + 4 + (x.argc + 1) * 4 + (x.envc + 1) * 4 := rfl
  unfold ExecStrings.buildStack ExecStrings.putEnvp ExecStrings.putArgv ExecStrings.putStrings
  rw [putU32_of_apart (by omega), putWords_of_apart (by omega), putWords_of_apart (by omega),
    copy_inside (by omega) (by omega), Nat.add_sub_cancel_left]

theorem buildStack_strings {os : List Nat} {ss : List (List (BitVec 8))}
    (h : List.Forall₂ (Placed x.strBuf x.strOffset) os ss) :
    List.Forall₂ (HoldsString (x.buildStack mem)) (os.map (fun o => x.strings + o)) ss := by
  rw [List.forall₂_map_left_iff]
  apply h.imp
  intro o s hp
  apply hp.holds.congr
  intro i hi
  rw [Nat.add_assoc]
  exact buildStack_byte x mem (by have := hp.before; omega)

end Build

section Decode

variable {mem : Nat → BitVec 8} {ps : List Nat} {ss : List (List (BitVec 8))}

/-- The bytes of a C string that memory can hold. -/
def IsText (s : List (BitVec 8)) : Prop :=
  0#8 ∉ s ∧ s.length < addressSpace

theorem texts_isText (list : Option (List UserString)) :
    ∀ s ∈ texts list, IsText s := by
  intro s hs
  obtain ⟨t, _, rfl⟩ := List.mem_map.mp hs
  have hfits := t.fits
  unfold userStackTop at hfits
  exact ⟨t.nonzero, by unfold addressSpace; omega⟩

theorem readStrings_eq (h : List.Forall₂ (HoldsString mem) ps ss) (htext : ∀ s ∈ ss, IsText s) :
    readStrings mem ps = some ss := by
  induction h with
  | nil => rfl
  | cons hp _ ih =>
    obtain ⟨hzero, hlen⟩ := htext _ List.mem_cons_self
    rw [readStrings, readString_eq hp hzero hlen,
      ih (fun s hs => htext s (List.mem_cons_of_mem _ hs))]
    rfl

/-- `__env_init` copies every string of an array that fits. -/
theorem envInitLoop_eq
    (envp : Nat) {left : Nat} (e : Env) (hps : List.Forall₂ (HoldsString mem) ps ss)
    (harray : HoldsWords mem (envp + 4 * e.envPtrs.length) (ps ++ [0])) (hne : ∀ p ∈ ps, p ≠ 0)
    (htext : ∀ s ∈ ss, IsText s) (hleft : ss.length ≤ left)
    (hroom : e.envUsed + stringsSize ss ≤ envBufSize) :
    ∃ e' os, envInitLoop mem envp left e = some e' ∧ e'.envPtrs = e.envPtrs ++ os ∧
      List.Forall₂ (Placed e'.envBuf e'.envUsed) os ss ∧ e.envUsed ≤ e'.envUsed ∧
      ∀ k, k < e.envUsed → e'.envBuf k = e.envBuf k := by
  induction hps generalizing left e with
  | nil =>
    have hnull : u32 mem (envp + 4 * e.envPtrs.length) = 0 := harray.head
    refine ⟨e, [], ?_, by simp, .nil, Nat.le_refl _, fun _ _ => rfl⟩
    cases left with
    | zero => rfl
    | succ left =>
      rw [envInitLoop]
      simp only [hnull, if_true]
  | @cons p s ps ss hp _ ih =>
    rw [List.length_cons] at hleft
    rw [stringsSize_cons] at hroom
    obtain ⟨left, rfl⟩ := Nat.exists_eq_succ_of_ne_zero
      (Nat.ne_of_gt (Nat.lt_of_lt_of_le (Nat.succ_pos _) hleft))
    obtain ⟨hzero, hlen⟩ := htext s List.mem_cons_self
    have hword : u32 mem (envp + 4 * e.envPtrs.length) = p := harray.head
    let next : Env :=
      { envPtrs := e.envPtrs ++ [e.envUsed]
        envBuf := copy e.envBuf e.envUsed (fun i => mem (p + i)) (s.length + 1)
        envUsed := e.envUsed + (s.length + 1) }
    have hstep : envInitLoop mem envp (left + 1) e = envInitLoop mem envp left next := by
      rw [envInitLoop]
      simp only [hword, if_neg (hne p List.mem_cons_self), stringLen_eq hp hzero hlen]
      rw [if_neg (by omega)]
    have htail : HoldsWords mem (envp + 4 * next.envPtrs.length) (ps ++ [0]) := by
      have haddr : envp + 4 * next.envPtrs.length = envp + 4 * e.envPtrs.length + 4 := by
        simp only [next, List.length_append, List.length_singleton]
        omega
      rw [haddr]
      exact harray.tail
    obtain ⟨e', os, hrun, hptrs, hplaced, hused, hkept⟩ :=
      @ih left next htail (fun q hq => hne q (List.mem_cons_of_mem _ hq))
        (fun t ht => htext t (List.mem_cons_of_mem _ ht)) (by omega)
        (by simp only [next]; omega)
    have hfirst : Placed next.envBuf next.envUsed e.envUsed s := placed_copy _ _ hp
    have hgrow : e.envUsed ≤ next.envUsed := Nat.le_add_right _ _
    refine ⟨e', e.envUsed :: os, hstep.trans hrun, ?_, .cons (hfirst.mono hused hkept) hplaced,
      hgrow.trans hused, ?_⟩
    · rw [hptrs]
      simp [next]
    · intro k hk
      rw [hkept k (by omega)]
      simp only [next]
      exact copy_outside (Or.inl hk)

end Decode

section RoundTrip

variable {x : ExecStrings} {args envs : List (List (BitVec 8))}

theorem HasStrings.mainArgv_eq
    (h : HasStrings x args envs) (hsize : x.totalSize ≤ userStackTop) (htext : ∀ s ∈ args, IsText s)
    (mem : Nat → BitVec 8) :
    mainArgv (x.buildStack mem) x.userEsp = some args := by
  have hargc : x.argc < 2 ^ 32 := by
    unfold ExecStrings.totalSize userStackTop at hsize
    omega
  have harray := buildStack_argv x mem (pointers_lt x hsize h.args)
  have hptrs := harray.map_range
  rw [List.length_map] at hptrs
  unfold mainArgv start
  rw [buildStack_argc x mem hargc]
  unfold ExecStrings.argc
  rw [hptrs]
  exact readStrings_eq (buildStack_strings x mem h.args) htext

theorem HasStrings.startEnviron_eq
    (h : HasStrings x args envs) (hsize : x.totalSize ≤ userStackTop) (htext : ∀ s ∈ envs, IsText s)
    (hcount : envs.length ≤ envMax) (hroom : stringsSize envs ≤ envBufSize)
    (mem envBuf : Nat → BitVec 8) :
    startEnviron (x.buildStack mem) envBuf x.userEsp = some envs := by
  have hargc : x.argc < 2 ^ 32 := by
    unfold ExecStrings.totalSize userStackTop at hsize
    omega
  have harray := buildStack_envp x mem (pointers_lt x hsize h.envs)
  have hstrings := buildStack_strings x mem h.envs
  have henvp : (start (x.buildStack mem) x.userEsp).envp =
      x.userEsp + 4 + (x.argc + 1) * 4 := by
    change x.userEsp + 4 + 4 * u32 (x.buildStack mem) x.userEsp + 4 = _
    rw [buildStack_argc x mem hargc]
    omega
  have hne : ∀ p ∈ x.envpOffsets.map (fun o => x.strings + o), p ≠ 0 := by
    intro p hp
    obtain ⟨o, _, rfl⟩ := List.mem_map.mp hp
    unfold ExecStrings.strings
    omega
  obtain ⟨e, os, hrun, hptrs, hplaced, -, -⟩ :=
    envInitLoop_eq (x.userEsp + 4 + (x.argc + 1) * 4) ⟨[], envBuf, 0⟩ hstrings
      harray hne htext hcount (by simpa using hroom)
  have hread : readStrings e.envBuf e.envPtrs = some envs := by
    rw [hptrs]
    exact readStrings_eq (hplaced.imp (fun _ _ hp => hp.holds)) htext
  unfold startEnviron envInit
  rw [henvp, hrun]
  exact hread

/-- The program is given the strings that were passed to `sys_exec`. -/
theorem exec_strings_round_trip
    (argv envp : Option (List UserString)) (hargc : (texts argv).length ≤ maxExecArgs)
    (henvc : (texts envp).length ≤ maxExecEnvs)
    (himage : imageSize (texts argv) (texts envp) ≤ 4096) (strBuf mem envBuf : Nat → BitVec 8) :
    let x := copyArgs strBuf argv envp
    mainArgv (x.buildStack mem) x.userEsp = some (texts argv) ∧
      startEnviron (x.buildStack mem) envBuf x.userEsp = some (texts envp) := by
  have hargs : argTexts argv = texts argv := List.take_of_length_le hargc
  have henvs : envTexts envp = texts envp := List.take_of_length_le henvc
  have hroom : stringsSize (texts argv) + stringsSize (texts envp) ≤ 4096 := by
    unfold imageSize at himage
    omega
  have hstrings := copyArgs_hasStrings strBuf argv envp
    (by rw [hargs, henvs]; exact hroom)
  rw [hargs, henvs] at hstrings
  have hsize : (copyArgs strBuf argv envp).totalSize ≤ userStackTop := by
    rw [hstrings.totalSize_eq]
    unfold userStackTop
    omega
  have hcount : (texts envp).length ≤ envMax := Nat.le_trans henvc (by decide)
  exact ⟨hstrings.mainArgv_eq hsize (texts_isText argv) mem,
    hstrings.startEnviron_eq hsize (texts_isText envp) hcount
      (by unfold envBufSize; omega) mem envBuf⟩

/-- `ls` and an empty argument, and no environment. -/
theorem exec_strings_round_trip_ls :
    let argv : Option (List UserString) :=
      some [⟨[0x6c#8, 0x73#8], by decide, by decide⟩, ⟨[], by decide, by decide⟩]
    let x := copyArgs (fun _ => 0#8) argv none
    mainArgv (x.buildStack (fun _ => 0#8)) x.userEsp = some [[0x6c#8, 0x73#8], []] ∧
      startEnviron (x.buildStack (fun _ => 0#8)) (fun _ => 0#8) x.userEsp = some [] :=
  exec_strings_round_trip
    (some [⟨[0x6c#8, 0x73#8], by decide, by decide⟩, ⟨[], by decide, by decide⟩]) none
    (by decide) (by decide) (by decide) (fun _ => 0#8) (fun _ => 0#8) (fun _ => 0#8)

end RoundTrip

end Exec
end Homunculos
