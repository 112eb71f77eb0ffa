import Homunculos.Exec.Elf
import Homunculos.Exec.FileBuffer
import Homunculos.Exec.StackImage

/-!
# The exec call

`sys_exec` from the file that its path names to the return: the file buffer,
the new page directory, the stack of the program and the label `fail`.  What
path resolution and the read operation of the file system give is part of the
call.  A run records, besides what it returns and leaves, which frames were
taken and released for the buffer and how many pages were mapped.
-/

namespace Homunculos
namespace Exec

open Bytes Mm

/-- The file that the path names, and what its read operation does. -/
structure ExecFile where
  isFile : Bool
  size : Nat
  readOk : Bool
  data : List (BitVec 8)
  size_lt : size < 2 ^ 32
  data_le : data.length ≤ size

def numPages (size : Nat) : Nat :=
  (size + 0xFFF) % 2 ^ 32 / 0x1000

/-- What a call of `sys_exec` is given: the directory of the kernel, the memory
of the task, the file, if there is one, and the two lists of strings. -/
structure ExecCall where
  kernelPdir : Nat
  user : Nat → BitVec 8
  file : Option ExecFile
  argv : Option (List UserString)
  envp : Option (List UserString)

/-- Bytes are stored in physical memory from address `a` on. -/
def storeBytes (s : State) (a : Nat) (data : List (BitVec 8)) : State :=
  { s with
    mem := fun f i =>
      if i < dirSize then
        word (fun j =>
          let x := f * 4096 + 4 * i + j
          if a ≤ x ∧ x < a + data.length then data.getD (x - a) 0#8 else byteAt (s.mem f i) j)
      else
        s.mem f i }

/-- What the kernel has written through the identity map, as bytes of physical memory. -/
def storeLow (s : State) (mem : Nat → BitVec 8) : State :=
  { s with
    mem := fun f i =>
      if f < identPages ∧ i < dirSize then
        word (fun j => mem (f * 4096 + 4 * i + j))
      else
        s.mem f i }

/-- The program that a successful call leaves. -/
structure Program where
  entry : Nat
  userEsp : Nat
  pdir : Nat
  brkStart : Nat
  strings : ExecStrings
  mem : Nat → BitVec 8

structure ExecRun where
  ret : Int
  sys : State
  taken : List Nat
  released : List Nat
  wasRead : Bool
  mapped : Nat
  program : Option Program

/-- The label `fail`, with what was taken for the buffer. -/
def failRun (s : State) (taken : List Nat) (n : Nat) (wasRead : Bool) (mapped : Nat) : ExecRun :=
  let released := if taken = [] then [] else bufferFrames (taken.headD 0) n
  { ret := -1
    sys := freeAll s released
    taken := taken
    released := released
    wasRead := wasRead
    mapped := mapped
    program := none }

/-- `sys_exec` from the allocation of `str_buf` on. -/
def finishExec (c : ExecCall) (n : Nat) (taken : List Nat) (pdir mapped : Nat)
    (s : State) : ExecRun :=
  let strBuf := mmFrameAlloc s
  if strBuf.1 = 0 then
    failRun strBuf.2 taken n true mapped
  else
    let ehdr := taken.headD 0 * 4096
    let x := copyArgs (fun k => byteOf strBuf.2 c.user (strBuf.1 * 4096 + k)) c.argv c.envp
    let s' := storeBytes strBuf.2 (strBuf.1 * 4096) ((List.range x.strOffset).map x.strBuf)
    let m := byteOf s' c.user
    -- what is below 16 MiB is written whatever the headers say; the pages of the program are
    -- kept by address in `Program.mem`
    let copied := elfCopySegments m ehdr (fun a => if a < 2 ^ 24 then m a else 0#8)
    let released := bufferFrames (taken.headD 0) n
    { ret := 0
      sys := mmFrameFree (freeAll (storeLow s' copied) released) strBuf.1
      taken := taken
      released := released
      wasRead := true
      mapped := mapped
      program := some
        { entry := eEntry m ehdr
          userEsp := x.userEsp
          pdir := pdir
          brkStart := elfBrkStart m ehdr
          strings := x
          mem := x.buildStack copied } }

/-- `sys_exec` from the allocation of `new_pdir` on. -/
def loadProgram (c : ExecCall) (n : Nat) (taken : List Nat) (s : State) : ExecRun :=
  let newPdir := mmFrameAlloc s
  if newPdir.1 = 0 then
    failRun newPdir.2 taken n true 0
  else
    let s' := copyKernelEntries (zeroFrame newPdir.2 newPdir.1) newPdir.1 c.kernelPdir
    match elfLoad s' c.user (taken.headD 0 * 4096) newPdir.1 with
    | .error (k, e) => failRun (mmFrameFree e newPdir.1) taken n true k
    | .ok (ps, s') =>
      match allocRange s' newPdir.1 (userStackTop - userStackSize) tableFlags
          (userStackSize / 4096) with
      | .error (k, e) => failRun (mmFrameFree e newPdir.1) taken n true
        ((segmentPages ps).length + k)
      | .ok s' =>
        finishExec c n taken newPdir.1 ((segmentPages ps).length + userStackSize / 4096) s'

/-- `sys_exec`; `none` for a file is a path that is not found. -/
def sysExec (s : State) (c : ExecCall) : ExecRun :=
  match c.file with
  | none => failRun s [] 0 false 0
  | some file =>
    if file.isFile = false then
      failRun s [] 0 false 0
    else
      let n := numPages file.size
      let buffer := allocBuffer n s
      if buffer.1.length < n then
        failRun buffer.2 buffer.1 n false 0
      else
        let ehdr := buffer.1.headD 0 * 4096
        let s' := storeBytes buffer.2 ehdr file.data
        if file.readOk = true ∧ elfValidate (byteOf s' c.user) ehdr = true then
          loadProgram c n buffer.1 s'
        else
          failRun s' buffer.1 n true 0

section Stack

variable {s : State} {c : ExecCall}

/-- The stack image lies in the mapped stack, and every string that was copied
ends with a zero byte on it. -/
structure StackRight (q : Program) : Prop where
  size : q.strings.totalSize ≤ userStackSize
  terminated : ∀ o ∈ q.strings.argvOffsets ++ q.strings.envpOffsets,
    ∃ k, o + k < q.strings.strOffset ∧ q.mem (q.strings.strings + o + k) = 0#8

/-- A program's stack is built from the strings of the call. -/
structure BuiltFrom (c : ExecCall) (q : Program) : Prop where
  strings : ∃ strBuf, q.strings = copyArgs strBuf c.argv c.envp
  mem : ∃ mem, q.mem = q.strings.buildStack mem

variable {q : Program}

theorem finishExec_builtFrom {n pdir mapped : Nat} {taken : List Nat}
    (h : (finishExec c n taken pdir mapped s).program = some q) :
    BuiltFrom c q := by
  unfold finishExec at h
  dsimp only at h
  split at h
  · cases h
  · cases h
    exact ⟨⟨_, rfl⟩, ⟨_, rfl⟩⟩

theorem loadProgram_builtFrom
    {n : Nat} {taken : List Nat} (h : (loadProgram c n taken s).program = some q) :
    BuiltFrom c q := by
  unfold loadProgram at h
  dsimp only at h
  split at h
  · cases h
  · split at h
    · cases h
    · split at h
      · cases h
      · exact finishExec_builtFrom h

theorem sysExec_builtFrom (h : (sysExec s c).program = some q) :
    BuiltFrom c q := by
  unfold sysExec at h
  split at h
  · cases h
  · split at h
    · cases h
    · dsimp only at h
      split at h
      · cases h
      · split at h
        · exact loadProgram_builtFrom h
        · cases h

theorem BuiltFrom.stackRight_iff (h : BuiltFrom c q) :
    StackRight q ↔ imageSize (argTexts c.argv) (envTexts c.envp) ≤ userStackSize := by
  obtain ⟨⟨strBuf, hstrings⟩, ⟨mem, hmem⟩⟩ := h
  have hoffset := copyArgs_strOffset strBuf c.argv c.envp
  rw [← hstrings] at hoffset
  have hsize : maxExecStrings = userStackSize := rfl
  constructor
  · intro hright
    have htotal := hright.size
    -- the pointers alone keep the strings from filling the page
    have hlt : q.strings.strOffset < maxExecStrings := by
      unfold ExecStrings.totalSize at htotal
      omega
    have hhas := copyArgs_hasStrings strBuf c.argv c.envp (by omega)
    rw [← hhas.totalSize_eq, ← hstrings]
    exact htotal
  · intro himage
    have hfits : stringsSize (argTexts c.argv) + stringsSize (envTexts c.envp) ≤
        maxExecStrings := by
      unfold imageSize at himage
      omega
    have hhas := copyArgs_hasStrings strBuf c.argv c.envp hfits
    rw [← hstrings] at hhas
    refine ⟨by rw [hhas.totalSize_eq]; exact himage, ?_⟩
    intro o ho
    have hends : ∃ s : List (BitVec 8), Placed q.strings.strBuf q.strings.strOffset o s := by
      rcases List.mem_append.mp ho with ho | ho
      · exact exists_placed hhas.args ho
      · exact exists_placed hhas.envs ho
    obtain ⟨t, hplaced⟩ := hends
    refine ⟨t.length, hplaced.before, ?_⟩
    rw [hmem, Nat.add_assoc, buildStack_byte q.strings mem hplaced.before,
      hplaced.holds t.length (Nat.le_refl _)]
    simp

/-- A call that returns a program has built its stack right exactly when the
image of the first 16 arguments and environment strings fits in a page. -/
theorem exec_stack_right_iff
    (s : State) (c : ExecCall) :
    (∀ q, (sysExec s c).program = some q → StackRight q) ↔
      ((sysExec s c).program = none ∨
        imageSize (argTexts c.argv) (envTexts c.envp) ≤ userStackSize) := by
  cases hrun : (sysExec s c).program with
  | none => simp
  | some q =>
    have hbuilt := sysExec_builtFrom hrun
    simp only [Option.some.injEq, forall_eq', reduceCtorEq, false_or]
    exact hbuilt.stackRight_iff

/-- An executable without segments. -/
def emptyElf : List (BitVec 8) :=
  [0x7F, 0x45, 0x4C, 0x46, 1, 1, 0, 0, 0, 0, 0, 0, 0, 0, 0, 0, 2, 0, 3, 0, 1, 0, 0, 0, 0, 0, 0, 0,
    52, 0, 0, 0, 0, 0, 0, 0, 0, 0, 0, 0, 52, 0, 32, 0, 0, 0, 0, 0, 0, 0, 0, 0]

/-- A call with this executable, padded to `size` bytes. -/
def emptyElfCall (size : Nat) (hsize : 52 ≤ size ∧ size < 2 ^ 32)
    (argv : Option (List UserString)) : ExecCall where
  kernelPdir := 5
  user := fun _ => 0#8
  file := some ⟨true, size, true, emptyElf, hsize.2, hsize.1⟩
  argv := argv
  envp := none

/-- A string of 4095 bytes. -/
def pageString : UserString where
  bytes := List.replicate 4095 0x61#8
  nonzero := fun h => absurd (List.eq_of_mem_replicate h) (by decide)
  fits := by
    rw [List.length_replicate]
    decide

theorem length_pageString :
    pageString.bytes.length = 4095 :=
  List.length_replicate

/-- One argument of 4095 bytes fills the page of strings, and the stack image
goes below the page that was mapped for it. -/
theorem exec_stack_overflows :
    ∃ q, (sysExec bootedSpace (emptyElfCall 52 (by decide) (some [pageString]))).program = some q ∧
      userStackSize < q.strings.totalSize ∧ ¬ StackRight q := by
  have hsome : (sysExec bootedSpace
      (emptyElfCall 52 (by decide) (some [pageString]))).program.isSome = true := by
    decide +kernel
  obtain ⟨q, hq⟩ := Option.isSome_iff_exists.mp hsome
  obtain ⟨strBuf, hstrings⟩ := (sysExec_builtFrom hq).strings
  have hoffset : q.strings.strOffset = 4096 := by
    have hargs : argTexts (some [pageString]) = [pageString.bytes] := rfl
    rw [hstrings, copyArgs_strOffset]
    simp only [emptyElfCall, hargs, stringsSize, List.map_cons, length_pageString]
    decide
  have hover : userStackSize < q.strings.totalSize := by
    unfold ExecStrings.totalSize userStackSize
    omega
  exact ⟨q, hq, hover, fun hright => absurd hright.size (Nat.not_le.mpr hover)⟩

end Stack

end Exec
end Homunculos
