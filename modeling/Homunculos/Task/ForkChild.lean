import Homunculos.Task.ForkFails

/-!
# What the child of a fork starts with

The fields that `task_fork` copies, those that `task_alloc` has reset and nobody copies,
and the registers: `eip`, `esp` and `eflags` come from the frame of the parent's system
call, the others from the new context, which has zeros, and from what `switch_context`
leaves behind.
-/

namespace Homunculos
namespace Tasks

open Bytes Mm Sched

/-- The child is as a fork should make it: like the parent, with nothing pending, and it
goes on in user mode where the parent was, with 0 in `eax`. -/
structure ChildRight (img : Image) (s s' : TaskSys) (parent child : Task)
    (r : UserRegs) : Prop where
  fdTable : (s'.info child).fdTable = (s.info parent).fdTable
  fdFlags : (s'.info child).fdFlags = (s.info parent).fdFlags
  cwd : (s'.info child).cwd = (s.info parent).cwd
  umask : (s'.info child).umask = (s.info parent).umask
  sid : (s'.info child).sid = (s.info parent).sid
  pgid : (s'.info child).pgid = (s.info parent).pgid
  brkStart : (s'.info child).brkStart = (s.info parent).brkStart
  programBreak : (s'.info child).programBreak = (s.info parent).programBreak
  vmas : (s'.info child).vmas = (s.info parent).vmas
  signalMask : s'.signalMask child = s.signalMask parent
  handlers : ∀ sig, sig < Signal.nsig →
    (s'.info child).signalHandlers sig = (s.info parent).signalHandlers sig ∧
      (s'.info child).signalHandlersMask sig = (s.info parent).signalHandlersMask sig ∧
      (s'.info child).signalHandlersFlags sig = (s.info parent).signalHandlersFlags sig
  pending : s'.pendingSignals child = 0#32
  resumes : ∃ ss, s'.startChild img child = some { r with eax := 0#32, ss := ss }

/-- The parent has set up nothing for signals. -/
def SignalsDefault (s : TaskSys) (t : Task) : Prop :=
  s.signalMask t = 0#32 ∧ ∀ sig, sig < Signal.nsig →
    (s.info t).signalHandlers sig = Signal.sigDfl ∧ (s.info t).signalHandlersMask sig = 0#32 ∧
      (s.info t).signalHandlersFlags sig = 0#32

/-- The directory that the child of this task gets: the first free frame, or that of the task. -/
def childDir (s : TaskSys) (parent : Task) : Nat :=
  if (s.info parent).isUser = true ∧ (s.info parent).pdir ≠ s.kernelPdir then
    (mmFrameAlloc s.mm).1
  else
    (s.info parent).pdir

/-- The registers of the parent are what the child finds in them anyway. -/
structure RegsLost (img : Image) (s : TaskSys) (parent child : Task) (r : UserRegs) : Prop where
  ebx : r.ebx = 0#32
  esi : r.esi = 0#32
  edi : r.edi = 0#32
  ecx : r.ecx = BitVec.ofNat 32 (img.context child)
  edx : r.edx = BitVec.ofNat 32 (childDir s parent * 4096)
  ebp : ¬ (img.stack parent ≤ r.ebp.toNat ∧ r.ebp.toNat < img.stack parent + taskStackSize)

section Entry

variable {img : Image} {m : Nat → BitVec 8} {parent child : Task} {r : UserRegs}

/-- The frame of `sys_fork`, from its saved `ebp` up to the end of the stack. -/
def forkFrame (img : Image) (r : UserRegs) : List Nat :=
  [r.ebp.toNat, img.afterCall, r.ebx.toNat, r.ecx.toNat, r.edx.toNat, r.esi.toNat, r.edi.toNat,
    r.ebp.toNat, r.eip.toNat, r.cs.toNat, r.eflags.toNat, r.esp.toNat, r.ss.toNat]

theorem entry_spec (img : Image) (m : Nat → BitVec 8) (t : Task) (r : UserRegs) :
    (pushWords (m, img.stack t + taskStackSize) (entryWords img r)).2 =
        img.stack t + (taskStackSize - 52) ∧
      HoldsWords (pushWords (m, img.stack t + taskStackSize) (entryWords img r)).1
        (img.stack t + (taskStackSize - 52)) (forkFrame img r) := by
  have hlt : ∀ v ∈ entryWords img r, v < 2 ^ 32 := by
    have hword : ∀ b : BitVec 32, b.toNat < 2 ^ 32 := fun b => b.isLt
    have hafter := img.afterCall_lt
    intro v hv
    simp only [entryWords, List.mem_cons, List.not_mem_nil, or_false] at hv
    rcases hv with rfl | rfl | rfl | rfl | rfl | rfl | rfl | rfl | rfl | rfl | rfl | rfl | rfl
    all_goals first | exact hafter | exact hword _
  have hlen : (entryWords img r).length = 13 := rfl
  have hsize : taskStackSize = 4096 := rfl
  obtain ⟨hsp, hholds, -⟩ := pushWords_spec m (img.stack t + taskStackSize) hlt (by omega)
  have hframe := hholds [] (fun i v hv => by cases hv)
  exact ⟨hsp, hframe⟩

theorem stack_apart (img : Image) (hne : parent ≠ child) :
    img.stack parent + taskStackSize ≤ img.stack child ∨
      img.stack child + taskStackSize ≤ img.stack parent := by
  have hval : parent.val ≠ child.val := fun h => hne (Fin.ext h)
  unfold Image.stack taskStackSize
  omega

theorem stack_end (img : Image) (t : Task) :
    img.stack t + taskStackSize < 2 ^ 32 := by
  have ht := t.isLt
  have hle := img.stacks_le
  unfold Image.stack taskStackSize at *
  unfold maxTasks at ht hle
  omega

theorem forkStack_spec
    {fp : Nat} (hne : parent ≠ child) (hfp : fp = img.stack parent + (taskStackSize - 52))
    (hframe : HoldsWords m fp (forkFrame img r)) (hcs : r.cs = Signal.gdtUserCode) :
    ∃ m' ebp, forkStack img m parent child r.eip r.cs r.eflags fp =
        (m', img.stack child + (taskStackSize - 24), ebp) ∧
      HoldsWords m' (img.stack child + (taskStackSize - 24))
        [img.forkReturn, r.eip.toNat, r.cs.toNat, r.eflags.toNat, r.esp.toNat,
          Signal.gdtUserData.toNat] ∧
      ebp = if img.stack parent ≤ r.ebp.toNat ∧ r.ebp.toNat < img.stack parent + taskStackSize then
          img.stack child + (r.ebp.toNat - img.stack parent)
        else r.ebp.toNat := by
  have hapart := stack_apart img hne
  have hsize : taskStackSize = 4096 := rfl
  have hendP := stack_end img parent
  have hendC := stack_end img child
  have hebp : u32 m fp = r.ebp.toNat := hframe 0 _ rfl
  have hesp : u32 m (fp + 44) = r.esp.toNat := hframe 11 _ rfl
  have hbelow : (img.stack parent + taskStackSize + (2 ^ 32 - (fp + 52))) % 2 ^ 32 = 0 := by
    rw [show img.stack parent + taskStackSize + (2 ^ 32 - (fp + 52)) = 2 ^ 32 by omega,
      Nat.mod_self]
  have hdest : (img.stack child + taskStackSize + (2 ^ 32 - 0)) % 2 ^ 32 =
      img.stack child + taskStackSize := by
    rw [Nat.sub_zero, Nat.add_mod_right, Nat.mod_eq_of_lt hendC]
  have hnone : ∀ (src : Nat → BitVec 8) (d : Nat), copy m d src 0 = m := by
    intro src d
    funext k
    exact copy_outside (by omega)
  unfold forkStack
  simp only [hcs, if_true, hbelow, hdest, hnone, Nat.add_zero, Nat.mod_eq_of_lt hendC, hebp, hesp,
    true_and]
  -- the copy of the user stack stays in the stack of the child
  obtain ⟨m1, hm1⟩ : ∃ m1, (if img.stack parent ≤ r.esp.toNat ∧
      r.esp.toNat < img.stack parent + taskStackSize / 2 then
        copy m (img.stack child + (r.esp.toNat - img.stack parent)) (fun k => m (r.esp.toNat + k))
          (img.stack parent + taskStackSize / 2 - r.esp.toNat)
      else m) = m1 := ⟨_, rfl⟩
  have hkept : ∀ k, fp ≤ k → k < fp + 52 → m1 k = m k := by
    intro k hlo hhi
    rw [← hm1]
    split
    · exact copy_outside (by omega)
    · rfl
  have hesp1 : u32 (pushWord (m1, img.stack child + taskStackSize) Signal.gdtUserData.toNat).1
      (fp + 44) = r.esp.toNat := by
    rw [← hesp]
    apply u32_congr
    intro j hj
    unfold pushWord
    dsimp only
    rw [putU32_of_apart (by omega), hkept _ (by omega) (by omega)]
  rw [hm1, hesp1]
  have hlt : ∀ v ∈ [Signal.gdtUserData.toNat, r.esp.toNat, r.eflags.toNat,
      Signal.gdtUserCode.toNat, r.eip.toNat, img.forkReturn], v < 2 ^ 32 := by
    have hreturn := img.forkReturn_lt
    have hword : ∀ b : BitVec 32, b.toNat < 2 ^ 32 := fun b => b.isLt
    intro v hv
    simp only [List.mem_cons, List.not_mem_nil, or_false] at hv
    rcases hv with rfl | rfl | rfl | rfl | rfl | rfl
    all_goals first | exact hreturn | exact hword _
  obtain ⟨hsp, hholds, -⟩ := pushWords_spec m1 (img.stack child + taskStackSize) hlt (by
    simp only [List.length_cons, List.length_nil]
    omega)
  refine ⟨_, _, Prod.ext rfl (Prod.ext hsp rfl), ?_, rfl⟩
  have hwords := hholds [] (fun i v hv => by cases hv)
  exact hwords

end Entry

section Child

variable {img : Image} {s s' : TaskSys} {parent child : Task} {eip cs eflags : BitVec 32} {fp : Nat}

/-- The fields of a new child with this directory and context. -/
def childInfo (p : TaskInfo) (pdir : Nat) (context : TaskContext) : TaskInfo :=
  { p with
    pdir := pdir
    signalSigframe := 0#32
    signalHandlers := fun _ => Signal.sigDfl
    signalHandlersMask := fun _ => 0#32
    signalHandlersFlags := fun _ => 0#32
    context := context }

/-- What a fork that succeeds has made of the slot of the child. -/
structure Forked (img : Image) (s s' : TaskSys) (parent child : Task) (eip cs eflags : BitVec 32)
    (fp : Nat) : Prop where
  slot : child.val = s.nextPid
  kmem : s'.kmem = (forkStack img s.kmem parent child eip cs eflags fp).1
  info : s'.info child = childInfo (s.info parent) (childDir s parent)
    ⟨(forkStack img s.kmem parent child eip cs eflags fp).2.1,
      (forkStack img s.kmem parent child eip cs eflags fp).2.2, 0, 0, 0, childDir s parent * 4096⟩
  pending : s'.pendingSignals child = 0#32
  mask : s'.signalMask child = 0#32

/-- The rest of `task_fork` on a slot that has been prepared. -/
theorem forked_of_finish
    {s1 s2 : TaskSys} (hparent : parent.val < s.nextPid) (halloc : s.taskAlloc = some (child, s1))
    (hstart : s1.forkStart parent child = s2) (mm : State) {pdir : Nat}
    (hpdir : s2.mm = s.mm → s2.kernelPdir = s.kernelPdir → s2.info parent = s.info parent →
      pdir = childDir s parent) :
    Forked img s ({ s2 with mm := mm }.finishFork img parent child pdir eip cs eflags fp)
      parent child eip cs eflags fp := by
  obtain ⟨-, hchild, -⟩ := taskAlloc_eq_some halloc
  have hne : parent ≠ child := by
    rintro rfl
    omega
  obtain ⟨hmm1, hkmem1, hdir1, hfresh, hother1⟩ := taskAlloc_rest halloc
  obtain ⟨hother2, hinfo2⟩ := forkStart_info hne s1
  obtain ⟨hmm2, hkmem2, hdir2⟩ := forkStart_rest s1 parent child
  have hkernel := forkStart_kernel s1 parent child
  rw [hstart] at hother2 hinfo2 hmm2 hkmem2 hdir2 hkernel
  have hp : s2.info parent = s.info parent := (hother2 parent hne).trans (hother1 parent hne)
  have hc : s2.info child = { s.freshInfo child with
      name := (s.info parent).name
      fdTable := (s.info parent).fdTable
      fdFlags := (s.info parent).fdFlags } := by
    rw [hinfo2, hfresh, hother1 parent hne]
  have hkmem : s2.kmem = s.kmem := hkmem2.trans hkmem1
  obtain rfl := hpdir (hmm2.trans hmm1) (hdir2.trans hdir1) hp
  refine ⟨hchild, ?_, ?_, ?_, ?_⟩
  · unfold TaskSys.finishFork
    rw [hkmem]
  · unfold TaskSys.finishFork
    rw [TaskSys.info_setInfo_self, hkmem, hp, hc, CharArray.strncpy_eq]
    rfl
  · rw [hkernel, taskAlloc_kernel halloc]
    exact Function.update_self _ _ _
  · rw [hkernel, taskAlloc_kernel halloc]
    exact Function.update_self _ _ _

theorem mmClonePdir_first {mm : State} {pdir : Nat} (h : (mmClonePdir mm pdir).1 ≠ 0) :
    (mmClonePdir mm pdir).1 = (mmFrameAlloc mm).1 := by
  unfold mmClonePdir at h ⊢
  dsimp only at h ⊢
  split at h
  · exact absurd rfl h
  · rename_i hframe
    rw [if_neg hframe]
    split at h
    · exact absurd rfl h
    · dsimp only

theorem taskFork_forked (hcurrent : s.current = some parent) (hparent : parent.val < s.nextPid)
    (hfork : s.taskFork img eip cs eflags fp = (some child, s')) :
    Forked img s s' parent child eip cs eflags fp := by
  have hends := taskFork_end img hcurrent eip cs eflags fp
  rw [hfork] at hends
  cases hends with
  | cloned _ s1 s2 halloc hstart huser hclone =>
    refine forked_of_finish hparent halloc hstart _ fun hmm hdir hinfo => ?_
    rw [hdir, hinfo] at huser
    rw [hmm, hinfo] at hclone ⊢
    rw [childDir, if_pos huser, mmClonePdir_first hclone]
  | shared _ s1 s2 halloc hstart hkernel =>
    refine forked_of_finish hparent halloc hstart s2.mm fun _ hdir hinfo => ?_
    rw [hdir, hinfo] at hkernel
    rw [childDir, if_neg hkernel, hinfo]

/-- `sys_fork` from user mode. -/
theorem callFork_forked
    {r : UserRegs} (hcurrent : s.current = some parent) (hparent : parent.val < s.nextPid)
    (hfork : s.callFork img parent r = ((child.val : Int), s')) :
    ∃ m fp, fp = img.stack parent + (taskStackSize - 52) ∧ HoldsWords m fp (forkFrame img r) ∧
      Forked img { s with kmem := m } s' parent child r.eip r.cs r.eflags fp := by
  obtain ⟨hfp, hframe⟩ := entry_spec img s.kmem parent r
  unfold TaskSys.callFork at hfork
  generalize pushWords (s.kmem, img.stack parent + taskStackSize) (entryWords img r) = x at *
  obtain ⟨m, fp⟩ := x
  subst hfp
  refine ⟨m, _, rfl, hframe, ?_⟩
  have hword : ∀ (i : Nat) (b : BitVec 32), (forkFrame img r)[i]? = some b.toNat →
      BitVec.ofNat 32 (u32 m (img.stack parent + (taskStackSize - 52) + 4 * i)) = b := by
    intro i b hb
    rw [hframe i _ hb, BitVec.ofNat_toNat, BitVec.setWidth_eq]
  have heip := hword 8 r.eip rfl
  have hcs := hword 9 r.cs rfl
  have heflags := hword 10 r.eflags rfl
  unfold TaskSys.sysFork at hfork
  dsimp only at hfork
  rw [heip, hcs, heflags] at hfork
  generalize hout : TaskSys.taskFork img { s with kmem := m } r.eip r.cs r.eflags
    (img.stack parent + (taskStackSize - 52)) = out at hfork
  obtain ⟨child', s''⟩ := out
  cases child' with
  | none =>
    have hneg := (Prod.mk.inj hfork).1
    omega
  | some child' =>
    obtain ⟨hval, rfl⟩ := Prod.mk.inj hfork
    have hsame : child' = child := Fin.ext (by omega)
    subst hsame
    exact taskFork_forked hcurrent hparent hout

/-- The `ebp` of the child: inside the task stack it is moved to the stack of the child. -/
def childEbp (img : Image) (parent child : Task) (ebp : BitVec 32) : Nat :=
  if img.stack parent ≤ ebp.toNat ∧ ebp.toNat < img.stack parent + taskStackSize then
    img.stack child + (ebp.toNat - img.stack parent)
  else
    ebp.toNat

theorem Forked.startChild {m : Nat → BitVec 8} {r : UserRegs}
    (h : Forked img { s with kmem := m } s' parent child r.eip r.cs r.eflags fp)
    (hparent : parent.val < s.nextPid) (hfp : fp = img.stack parent + (taskStackSize - 52))
    (hframe : HoldsWords m fp (forkFrame img r)) (hcs : r.cs = Signal.gdtUserCode) :
    s'.startChild img child = some
      { eax := 0#32
        ecx := BitVec.ofNat 32 (img.context child)
        edx := BitVec.ofNat 32 (childDir s parent * 4096)
        ebx := 0#32
        esp := r.esp
        ebp := BitVec.ofNat 32 (childEbp img parent child r.ebp)
        esi := 0#32
        edi := 0#32
        eip := r.eip
        eflags := r.eflags
        cs := r.cs
        ss := Signal.gdtUserData } := by
  have hne : parent ≠ child := by
    rintro rfl
    have hslot : parent.val = s.nextPid := h.slot
    omega
  obtain ⟨m', ebp, hstack, hwords, hebp⟩ := forkStack_spec hne hfp hframe hcs
  have hinfo := h.info
  have hkmem := h.kmem
  rw [hstack] at hkmem hinfo
  have hword : ∀ (i : Nat) (b : BitVec 32),
      [img.forkReturn, r.eip.toNat, r.cs.toNat, r.eflags.toNat, r.esp.toNat,
        Signal.gdtUserData.toNat][i]? = some b.toNat →
      BitVec.ofNat 32 (u32 m' (img.stack child + (taskStackSize - 24) + 4 * i)) = b := by
    intro i b hb
    rw [hwords i _ hb, BitVec.ofNat_toNat, BitVec.setWidth_eq]
  have hreturn : u32 m' (img.stack child + (taskStackSize - 24)) = img.forkReturn :=
    hwords 0 _ rfl
  unfold TaskSys.startChild
  rw [hinfo, hkmem]
  unfold childInfo
  dsimp only
  rw [if_pos ⟨hreturn, (hword 2 r.cs rfl).trans hcs⟩, hword 1 r.eip rfl, hword 2 r.cs rfl,
    hword 3 r.eflags rfl, hword 4 r.esp rfl, hword 5 Signal.gdtUserData rfl, hebp]
  rfl

/-- `ebp` is the one of the parent exactly if it does not point into the task stack. -/
theorem childEbp_eq_iff (hne : parent ≠ child) (ebp : BitVec 32) :
    BitVec.ofNat 32 (childEbp img parent child ebp) = ebp ↔
      ¬ (img.stack parent ≤ ebp.toNat ∧ ebp.toNat < img.stack parent + taskStackSize) := by
  have hapart := stack_apart img hne
  have hend := stack_end img child
  unfold childEbp
  split
  next hin =>
    refine iff_of_false ?_ (not_not.mpr hin)
    intro heq
    have hval := congrArg BitVec.toNat heq
    rw [BitVec.toNat_ofNat] at hval
    omega
  next hout =>
    refine iff_of_true ?_ hout
    rw [BitVec.ofNat_toNat, BitVec.setWidth_eq]

end Child

/--
The child of a fork from user mode is like its parent, and starts as it should, exactly if
the parent has left its signals as they are in a new task, and the registers that are lost
happen to have the right values.
-/
theorem fork_child_right_iff
    (img : Image) (s s' : TaskSys) (parent child : Task) (r : UserRegs)
    (hcurrent : s.current = some parent) (hparent : parent.val < s.nextPid)
    (hcs : r.cs = Signal.gdtUserCode) (hfork : s.callFork img parent r = ((child.val : Int), s')) :
    ChildRight img s s' parent child r ↔
      SignalsDefault s parent ∧ RegsLost img s parent child r := by
  obtain ⟨m, fp, hfp, hframe, hforked⟩ := callFork_forked hcurrent hparent hfork
  have hstart := hforked.startChild hparent hfp hframe hcs
  have hne : parent ≠ child := by
    rintro rfl
    have hslot : parent.val = s.nextPid := hforked.slot
    omega
  have hinfo := hforked.info
  constructor
  · intro h
    refine ⟨⟨?_, ?_⟩, ?_⟩
    · rw [← h.signalMask, hforked.mask]
    · intro sig hsig
      obtain ⟨hhandler, hmask, hflags⟩ := h.handlers sig hsig
      rw [← hhandler, ← hmask, ← hflags, hinfo]
      exact ⟨rfl, rfl, rfl⟩
    · obtain ⟨ss, hresumes⟩ := h.resumes
      rw [hstart, Option.some.injEq, UserRegs.mk.injEq] at hresumes
      obtain ⟨-, hecx, hedx, hebx, -, hebp, hesi, hedi, -⟩ := hresumes
      exact ⟨hebx.symm, hesi.symm, hedi.symm, hecx.symm, hedx.symm,
        (childEbp_eq_iff hne r.ebp).mp hebp⟩
  · rintro ⟨⟨hmask, hdefault⟩, hlost⟩
    refine ⟨?_, ?_, ?_, ?_, ?_, ?_, ?_, ?_, ?_, ?_, ?_, hforked.pending, ⟨Signal.gdtUserData, ?_⟩⟩
    any_goals rw [hinfo]; rfl
    · rw [hforked.mask, hmask]
    · intro sig hsig
      obtain ⟨hhandler, hsigmask, hflags⟩ := hdefault sig hsig
      rw [hhandler, hsigmask, hflags, hinfo]
      exact ⟨rfl, rfl, rfl⟩
    · rw [hstart, Option.some.injEq, UserRegs.mk.injEq]
      exact ⟨rfl, hlost.ecx.symm, hlost.edx.symm, hlost.ebx.symm, rfl,
        (childEbp_eq_iff hne r.ebp).mpr hlost.ebp, hlost.esi.symm, hlost.edi.symm, rfl, rfl, rfl,
        rfl⟩

/-- A task in user mode, in the directory of the kernel, that has blocked these signals. -/
def maskedSys (mask : BitVec 32) : TaskSys :=
  { initSys oneDirectory 2 with
    kernelPdir := 1
    signalMask := fun _ => mask }

/-- Its registers: what its child will find in `ecx` and `edx`, and zeros. -/
def zeroRegs (ebx : BitVec 32) : UserRegs where
  eax := 2#32
  ecx := 0x180030#32
  edx := 0x1000#32
  ebx := ebx
  esp := 0xBFFFFF00#32
  ebp := 0xBFFFFF40#32
  esi := 0#32
  edi := 0#32
  eip := 0x08048000#32
  eflags := 0x202#32
  cs := Signal.gdtUserCode
  ss := Signal.gdtUserData

/-- The first fork of a task that has set up nothing. -/
theorem fork_child_right_iff_plain :
    ∃ s', (maskedSys 0).callFork smallImage 0 (zeroRegs 0) = (2, s') ∧
      ChildRight smallImage (maskedSys 0) s' 0 2 (zeroRegs 0) := by
  have hchild : ((maskedSys 0).callFork smallImage 0 (zeroRegs 0)).1 = 2 := by decide +kernel
  generalize hout : (maskedSys 0).callFork smallImage 0 (zeroRegs 0) = out at hchild
  obtain ⟨pid, s'⟩ := out
  obtain rfl : pid = 2 := hchild
  have hlost : RegsLost smallImage (maskedSys 0) 0 2 (zeroRegs 0) :=
    ⟨rfl, rfl, rfl, by decide, by decide, by decide⟩
  exact ⟨s', rfl, (fork_child_right_iff smallImage (maskedSys 0) s' 0 2 (zeroRegs 0) rfl
    (by decide) rfl hout).mpr ⟨⟨rfl, fun _ _ => ⟨rfl, rfl, rfl⟩⟩, hlost⟩⟩

/-- `SIGINT` is blocked in the parent and not in the child, which also finds 0 in `ebx`
where the parent has 7. -/
theorem fork_loses_mask_and_ebx :
    ((maskedSys (Signal.sigBit 2)).callFork smallImage 0 (zeroRegs 7)).1 = 2 ∧
      ((maskedSys (Signal.sigBit 2)).callFork smallImage 0 (zeroRegs 7)).2.signalMask 2 = 0#32 ∧
      (((maskedSys (Signal.sigBit 2)).callFork smallImage 0 (zeroRegs 7)).2.startChild
        smallImage 2).map UserRegs.ebx = some 0#32 ∧
      ¬ ChildRight smallImage (maskedSys (Signal.sigBit 2))
        ((maskedSys (Signal.sigBit 2)).callFork smallImage 0 (zeroRegs 7)).2 0 2 (zeroRegs 7) := by
  refine ⟨by decide +kernel, by decide +kernel, by decide +kernel, ?_⟩
  intro h
  have hsame := h.signalMask
  exact absurd hsame (by decide)

end Tasks
end Homunculos
