import Homunculos.Ext2.AllocRuns

/-!
# The superblock on the device

`ext2_mount` reads the superblock from sector 2, whatever the block size.
`ext2_write_sb` writes it at the start of a block: block 1 when blocks have
1024 bytes, which is sector 2, and else block 0, which is sector 0.  So only
with blocks of 1024 bytes does the next mount see what was written; with larger
blocks sector 2 gets what `ext2_buf` held behind the superblock.
-/

namespace Homunculos
namespace Ext2

open Bytes Block Bitmap

/-- Sector 2, as `ext2_mount` reads it, holds the superblock in memory. -/
def SbOnDisk (fs : Ext2Fs) : Prop :=
  ∀ q, q < 136 → fs.dev.data 2 q = fs.sb.bytes q

/-- A new mount gives the same superblock and the same sizes. -/
def MountsAgain (fs : Ext2Fs) : Prop :=
  ∀ buf, ∃ fs', ext2MountSb fs.dev buf = some fs' ∧
    (∀ q, q < 136 → fs'.sb.bytes q = fs.sb.bytes q) ∧
    fs'.blockSize = fs.blockSize ∧ fs'.bgdescBlock = fs.bgdescBlock ∧
    fs'.bgdescCount = fs.bgdescCount

/-- The fields of `struct ext2_fs` are what `ext2_mount` computes. -/
structure Mounted (fs : Ext2Fs) : Prop where
  healthy : fs.dev.Healthy
  magic : fs.sb.magic = 0xEF53
  blockSize : fs.blockSize = 1024 * 2 ^ fs.sb.logBlockSize % 2 ^ 32
  bgdescBlock : fs.bgdescBlock = if fs.blockSize = 1024 then 2 else 1
  bgdescCount : fs.bgdescCount =
    (fs.sb.blocksCount + fs.sb.blocksPerGroup + (2 ^ 32 - 1)) % 2 ^ 32 /
      fs.sb.blocksPerGroup

section Mount

variable {fs : Ext2Fs} {dev : BlockDevice} {buf : Nat → BitVec 8}

theorem readSector2 (h : dev.Healthy) {q : Nat} (hq : q < 512) :
    (blockRead dev 2 1 buf).2 q = dev.data 2 q := by
  have hok : (blockReadLoop dev 2 0 1 buf).1 = true := blockReadLoop_healthy h 0 1
  have hread := blockReadLoop_done hok q
  rw [if_pos (by omega), show q / 512 = 0 by omega, show q % 512 = q by omega] at hread
  exact hread

theorem mount_spec (h : dev.Healthy) (hmount : ext2MountSb dev buf = some fs) :
    Mounted fs ∧ SbOnDisk fs ∧ fs.dev = dev := by
  unfold ext2MountSb at hmount
  dsimp only at hmount
  split at hmount
  next =>
    cases hmount
  next hok =>
    rw [not_or, not_not] at hok
    cases hmount
    refine ⟨⟨h, hok.2, rfl, rfl, rfl⟩, ?_, rfl⟩
    intro q hq
    change dev.data 2 q = slice _ 0 136 q
    rw [slice_of_lt hq, Nat.zero_add]
    exact (readSector2 h (by omega)).symm

theorem Mounted.again (h : Mounted fs) (hdisk : SbOnDisk fs) :
    MountsAgain fs := by
  intro buf
  have hbytes : ∀ q, q < 136 →
      slice (blockRead fs.dev 2 1 buf).2 0 136 q = fs.sb.bytes q := by
    intro q hq
    rw [slice_of_lt hq, Nat.zero_add, readSector2 h.healthy (by omega)]
    exact hdisk q hq
  have hfield : ∀ o, o + 4 ≤ 136 →
      u32 (slice (blockRead fs.dev 2 1 buf).2 0 136) o = u32 fs.sb.bytes o := by
    intro o ho
    exact u32_congr (fun j hj => hbytes (o + j) (by omega))
  have hmagic : u16 (slice (blockRead fs.dev 2 1 buf).2 0 136) 56 = 0xEF53 := by
    rw [← h.magic]
    exact u16_congr (fun j hj => hbytes (56 + j) (by omega))
  have hread : (blockRead fs.dev 2 1 buf).1 = true :=
    blockReadLoop_healthy h.healthy 0 1
  have hlog : Ext2Sb.logBlockSize ⟨slice (blockRead fs.dev 2 1 buf).2 0 136⟩ =
      fs.sb.logBlockSize := hfield 24 (by omega)
  have hcount : Ext2Sb.blocksCount ⟨slice (blockRead fs.dev 2 1 buf).2 0 136⟩ =
      fs.sb.blocksCount := hfield 4 (by omega)
  have hper : Ext2Sb.blocksPerGroup ⟨slice (blockRead fs.dev 2 1 buf).2 0 136⟩ =
      fs.sb.blocksPerGroup := hfield 32 (by omega)
  have hok : ¬ ((blockRead fs.dev 2 1 buf).1 = false ∨
      Ext2Sb.magic ⟨slice (blockRead fs.dev 2 1 buf).2 0 136⟩ ≠ 0xEF53) := by
    rw [hread]
    rintro (hfalse | hne)
    · cases hfalse
    · exact hne hmagic
  refine ⟨_, by rw [ext2MountSb, if_neg hok], hbytes, ?_, ?_, ?_⟩
  · rw [hlog, h.blockSize]
  · rw [hlog, h.bgdescBlock, h.blockSize]
  · rw [hcount, hper, h.bgdescCount]

end Mount

section Calls

variable {k : Kind} {fs fs' fs₁ : Ext2Fs}

/-- Only the free counts of the superblock change, and either nothing is written
or the superblock is written last. -/
structure SbStep (fs fs' : Ext2Fs) : Prop where
  blockSize : fs'.blockSize = fs.blockSize
  bgdescBlock : fs'.bgdescBlock = fs.bgdescBlock
  bgdescCount : fs'.bgdescCount = fs.bgdescCount
  healthy : fs'.dev.Healthy
  fields : ∀ q, q < 12 ∨ 20 ≤ q → fs'.sb.bytes q = fs.sb.bytes q
  written : (fs'.dev = fs.dev ∧ fs'.sb = fs.sb) ∨
    ∃ fs₁, fs₁.dev.Healthy ∧ fs₁.blockSize = fs.blockSize ∧ fs' = (ext2WriteSb fs₁).2

theorem SbStep.withBuf (h : fs.dev.Healthy) (buf : Nat → BitVec 8) :
    SbStep fs (fs.withBuf buf) :=
  ⟨rfl, rfl, rfl, h, fun _ _ => rfl, Or.inl ⟨rfl, rfl⟩⟩

/-- Reading a block into `ext2_buf` does not count. -/
theorem SbStep.of_readBuf
    (fs : Ext2Fs) (nr : Nat) {fs' : Ext2Fs} (h : SbStep (fs.readBuf nr).2 fs') :
    SbStep fs fs' :=
  ⟨h.blockSize, h.bgdescBlock, h.bgdescCount, h.healthy, h.fields, h.written⟩

theorem setSbFree_fields (k : Kind) (sb : Ext2Sb) (v : Nat) {q : Nat} (hq : q < 12 ∨ 20 ≤ q) :
    (k.setSbFree sb v).bytes q = sb.bytes q := by
  cases k with
  | block => exact putU32_of_apart (by omega)
  | inode => exact putU32_of_apart (by omega)

theorem writeSb_healthy (h : fs.dev.Healthy) :
    (ext2WriteSb fs).2.dev.Healthy :=
  (writeBuf_healthy (fs.withBuf (copy fs.buf 0 fs.sb.bytes 136)) h fs.sbBlock).2

theorem readBgdesc_healthy (h : fs.dev.Healthy) {bg : Nat} :
    ext2ReadBgdesc fs bg =
      (some ⟨slice (fs.readBuf (fs.descBlock bg)).2.buf (fs.descPos bg) 32⟩,
        (fs.readBuf (fs.descBlock bg)).2) := by
  unfold ext2ReadBgdesc
  rw [if_pos (readBuf_healthy fs h _)]

theorem threeWrites
    (k : Kind) (v : Bool) (h : fs.dev.Healthy) (bg : Nat) (bgd : Ext2Bgdesc) (i : Nat) :
    (writeBitmap k v fs bgd i).1 = true ∧
      (writeGroupFree k v (writeBitmap k v fs bgd i).2 bg bgd).1 = true ∧
      SbStep fs (writeSbFree k v
        (writeGroupFree k v (writeBitmap k v fs bgd i).2 bg bgd).2).2 := by
  obtain ⟨hbitmap, hhealthy1⟩ := writeBuf_healthy
    (fs.withBuf (if v then Bitmap.set fs.buf i else Bitmap.clear fs.buf i)) h (k.bitmap bgd)
  obtain ⟨hdesc, hhealthy2⟩ := writeBgdesc_healthy (writeBitmap k v fs bgd i).2 hhealthy1 bg
    (k.setGroupFree bgd (bump v (2 ^ 16) (k.groupFree bgd)))
  obtain ⟨hsb, hsize, hblock, hcount⟩ := writeBgdesc_static (writeBitmap k v fs bgd i).2 bg
    (k.setGroupFree bgd (bump v (2 ^ 16) (k.groupFree bgd)))
  obtain ⟨fs₁, hfs1⟩ : ∃ fs₁, (writeGroupFree k v (writeBitmap k v fs bgd i).2 bg bgd).2 = fs₁ :=
    ⟨_, rfl⟩
  have hlast : (writeSbFree k v fs₁).2 = (ext2WriteSb
      { fs₁ with sb := k.setSbFree fs₁.sb (bump v (2 ^ 32) (k.sbFree fs₁.sb)) }).2 := rfl
  have hfs1healthy : fs₁.dev.Healthy := hfs1 ▸ hhealthy2
  have hfs1size : fs₁.blockSize = fs.blockSize := hfs1 ▸ hsize
  refine ⟨hbitmap, hdesc, ?_⟩
  rw [hfs1]
  refine ⟨hfs1size, hfs1 ▸ hblock, hfs1 ▸ hcount, writeSb_healthy hfs1healthy, ?_,
    Or.inr ⟨{ fs₁ with sb := k.setSbFree fs₁.sb (bump v (2 ^ 32) (k.sbFree fs₁.sb)) },
      hfs1healthy, hfs1size, hlast⟩⟩
  intro q hq
  have hfs1sb : fs₁.sb = fs.sb := hfs1 ▸ hsb
  rw [← hfs1sb]
  exact setSbFree_fields k _ _ hq

theorem allocLoop_sbStep (k : Kind) (h : fs.dev.Healthy) (n bg : Nat) :
    SbStep fs (allocLoop k n bg fs).2 := by
  induction n generalizing bg fs with
  | zero => exact SbStep.withBuf h fs.buf
  | succ n ih =>
    rw [allocLoop, readBgdesc_healthy h]
    apply SbStep.of_readBuf fs (fs.descBlock bg)
    dsimp only
    have hread : (fs.readBuf (fs.descBlock bg)).2.dev.Healthy := h
    generalize (fs.readBuf (fs.descBlock bg)).2 = fs₁ at hread ⊢
    obtain ⟨bgd, hbgd⟩ : ∃ bgd : Ext2Bgdesc, ⟨slice fs₁.buf (fs.descPos bg) 32⟩ = bgd :=
      ⟨_, rfl⟩
    rw [hbgd]
    split
    · exact ih hread (bg + 1)
    rw [readBuf_healthy fs₁ hread, if_neg (by decide)]
    apply SbStep.of_readBuf _ (k.bitmap bgd)
    have hbitmap : (fs₁.readBuf (k.bitmap bgd)).2.dev.Healthy := hread
    split
    · exact ih hbitmap (bg + 1)
    next i _ =>
      obtain ⟨hw, hd, hstep⟩ := threeWrites k true hbitmap bg bgd i
      unfold takeBit
      dsimp only
      rw [hw, hd, if_neg (by decide), if_neg (by simp)]
      exact hstep

theorem freeBit_sbStep (k : Kind) (h : fs.dev.Healthy) (bg i : Nat) :
    SbStep fs (freeBit k fs bg i) := by
  unfold freeBit
  rw [readBgdesc_healthy h]
  apply SbStep.of_readBuf fs (fs.descBlock bg)
  dsimp only
  have hread : (fs.readBuf (fs.descBlock bg)).2.dev.Healthy := h
  generalize (fs.readBuf (fs.descBlock bg)).2 = fs₁ at hread ⊢
  generalize (⟨slice fs₁.buf (fs.descPos bg) 32⟩ : Ext2Bgdesc) = bgd
  rw [readBuf_healthy fs₁ hread]
  apply SbStep.of_readBuf _ (k.bitmap bgd)
  have hbitmap : (fs₁.readBuf (k.bitmap bgd)).2.dev.Healthy := hread
  exact (threeWrites k false hbitmap bg bgd i).2.2

theorem Op.sbStep (h : fs.dev.Healthy) (op : Op) :
    SbStep fs (op.run fs).2 := by
  cases op with
  | alloc k =>
    rw [run_alloc]
    exact allocLoop_sbStep k h _ 0
  | free k n =>
    cases k with
    | block => exact freeBit_sbStep .block h _ _
    | inode =>
      change SbStep fs (ext2FreeInode fs n)
      unfold ext2FreeInode
      split
      · exact SbStep.withBuf h fs.buf
      · exact freeBit_sbStep .inode h _ _

theorem SbStep.mounted (h : SbStep fs fs') (hmounted : Mounted fs) :
    Mounted fs' := by
  have hfield : ∀ o, o + 4 ≤ 12 ∨ 20 ≤ o → u32 fs'.sb.bytes o = u32 fs.sb.bytes o := by
    intro o ho
    exact u32_congr (fun j hj => h.fields (o + j) (by omega))
  have hlog : fs'.sb.logBlockSize = fs.sb.logBlockSize := hfield 24 (by omega)
  have hcount : fs'.sb.blocksCount = fs.sb.blocksCount := hfield 4 (by omega)
  have hper : fs'.sb.blocksPerGroup = fs.sb.blocksPerGroup := hfield 32 (by omega)
  have hmagic : fs'.sb.magic = fs.sb.magic :=
    u16_congr (fun j hj => h.fields (56 + j) (by omega))
  refine ⟨h.healthy, hmagic.trans hmounted.magic, ?_, ?_, ?_⟩
  · rw [h.blockSize, hlog, hmounted.blockSize]
  · rw [h.bgdescBlock, h.blockSize, hmounted.bgdescBlock]
  · rw [h.bgdescCount, hcount, hper, hmounted.bgdescCount]

theorem SbStep.onDisk (h : SbStep fs fs') (hsize : fs.blockSize = 1024) (hdisk : SbOnDisk fs) :
    SbOnDisk fs' := by
  rcases h.written with ⟨hdev, hsb⟩ | ⟨fs₁, hhealthy, hsize1, rfl⟩
  · intro q hq
    rw [hdev, hsb]
    exact hdisk q hq
  · have hsize1 : fs₁.blockSize = 1024 := hsize1.trans hsize
    intro q hq
    have hok := (writeBuf_healthy (fs₁.withBuf (copy fs₁.buf 0 fs₁.sb.bytes 136)) hhealthy
      fs₁.sbBlock).1
    have hdone := writeBuf_done (fs₁.withBuf (copy fs₁.buf 0 fs₁.sb.bytes 136))
      (Or.inl hsize1) hok (show q < fs₁.blockSize by omega)
    have hblock : fs₁.sbBlock = 1 := if_pos hsize1
    have hsector : sectorNo (fs₁.blockLba 1) (q / 512) = 2 := by
      unfold Ext2Fs.blockLba sectorNo
      omega
    have hcopied : copy fs₁.buf 0 fs₁.sb.bytes 136 q = fs₁.sb.bytes q :=
      copy_inside (Nat.zero_le q) (by omega)
    unfold Ext2Fs.diskByte at hdone
    rw [hblock] at hdone
    have hplace : sectorNo
        (((fs₁.withBuf (copy fs₁.buf 0 fs₁.sb.bytes 136)).writeBuf 1).2.blockLba 1)
        (q / 512) = 2 := hsector
    rw [hplace, show q % 512 = q by omega] at hdone
    unfold ext2WriteSb
    rw [hblock]
    exact hdone.trans hcopied

/-- With larger blocks sector 2 gets what `ext2_buf` holds behind the superblock. -/
theorem SbStep.sector_two (h : SbStep fs fs') (hsize : fs.blockSize = 2048 ∨ fs.blockSize = 4096) :
    (fs'.dev = fs.dev ∧ fs'.sb = fs.sb) ∨
      ∀ q, q < 512 → fs'.dev.data 2 q = fs'.buf (1024 + q) := by
  refine h.written.imp_right ?_
  rintro ⟨fs₁, hhealthy, hsize1, rfl⟩ q hq
  rw [← hsize1] at hsize
  obtain ⟨fs₂, hfs₂⟩ : ∃ fs₂, fs₂ = fs₁.withBuf (copy fs₁.buf 0 fs₁.sb.bytes 136) := ⟨_, rfl⟩
  have hsize2 : fs₂.blockSize = fs₁.blockSize := by rw [hfs₂]; rfl
  have hhealthy2 : fs₂.dev.Healthy := by rw [hfs₂]; exact hhealthy
  have hdone := writeBuf_done fs₂ (Or.inr (hsize2 ▸ hsize)) (writeBuf_healthy fs₂ hhealthy2 0).1
    (show 1024 + q < fs₂.blockSize by omega)
  have hblock : fs₁.sbBlock = 0 := if_neg (by omega)
  have hsector : sectorNo ((fs₂.writeBuf 0).2.blockLba 0) ((1024 + q) / 512) = 2 := by
    unfold Ext2Fs.blockLba sectorNo
    omega
  unfold Ext2Fs.diskByte at hdone
  rw [hsector, show (1024 + q) % 512 = q by omega] at hdone
  unfold ext2WriteSb
  rw [hblock, ← hfs₂]
  exact hdone

end Calls

section Runs

variable {fs : Ext2Fs}

theorem runOps_onDisk
    (h : Mounted fs) (hsize : fs.blockSize = 1024) (hdisk : SbOnDisk fs) (ops : List Op) :
    Mounted (runOps fs ops) ∧ SbOnDisk (runOps fs ops) := by
  induction ops generalizing fs with
  | nil => exact ⟨h, hdisk⟩
  | cons op ops ih =>
    have hstep := op.sbStep h.healthy
    exact ih (hstep.mounted h) (hstep.blockSize.trans hsize) (hstep.onDisk hsize hdisk)

end Runs

section Larger

/-- An image with `2 ^ log` times 1024 bytes in a block and 16 blocks. -/
def largerImage (log : Nat) : BlockDevice where
  data := fun s j =>
    if s = 2 then putU32 smallSb 24 log j
    else if s = 2 ^ (log + 1) then smallDesc j
    else if s = 3 * 2 ^ (log + 1) then if j = 0 then 0xFF#8 else 0#8
    else 0#8
  readOk := fun _ => true
  writeOk := fun _ => true

theorem larger_alloc_breaks_sb :
    ∀ log ∈ [1, 2], (ext2MountSb (largerImage log) (fun _ => 0#8)).map (fun fs =>
      (fs.blockSize, (ext2AllocBlock fs).1, (ext2AllocBlock fs).2.sb.bytes 56,
        (ext2AllocBlock fs).2.dev.data 2 56)) = some (2 ^ (log + 10), 8, 0x53#8, 0#8) := by
  decide +kernel

theorem largerImage_healthy (log : Nat) :
    (largerImage log).Healthy :=
  ⟨fun _ => rfl, fun _ => rfl⟩

end Larger

/-- A mounted file system keeps its superblock on the device. -/
def SbKept (b : Nat) : Prop :=
  ∀ dev buf fs ops, dev.Healthy → ext2MountSb dev buf = some fs → fs.blockSize = b →
    SbOnDisk (runOps fs ops) ∧ MountsAgain (runOps fs ops)

/-- Every call writes nothing, or it puts the bytes of `ext2_buf` behind the superblock into
sector 2. -/
def SbOverwritten (b : Nat) : Prop :=
  ∀ (fs : Ext2Fs) (op : Op), fs.dev.Healthy → fs.blockSize = b →
    ((op.run fs).2.dev = fs.dev ∧ (op.run fs).2.sb = fs.sb) ∨
      ∀ q, q < 512 → (op.run fs).2.dev.data 2 q = (op.run fs).2.buf (1024 + q)

/-- Allocations and releases keep the superblock on the device, where the next
mount finds it, exactly when blocks have 1024 bytes; else every call that succeeds overwrites it. -/
theorem superblock_kept_iff
    (b : Nat) (hb : b = 1024 ∨ b = 2048 ∨ b = 4096) :
    (SbKept b ↔ b = 1024) ∧ (b ≠ 1024 → SbOverwritten b) := by
  refine ⟨?_, fun hlarge fs op hhealthy hsize =>
    (op.sbStep hhealthy).sector_two (hsize ▸ hb.resolve_left hlarge)⟩
  constructor
  · intro hkept
    have hlarger : ∀ log ∈ [1, 2], b ≠ 2 ^ (log + 10) := by
      intro log hlog heq
      have hbroken := larger_alloc_breaks_sb log hlog
      rw [Option.map_eq_some_iff] at hbroken
      obtain ⟨fs, hmount, hview⟩ := hbroken
      simp only [Prod.mk.injEq] at hview
      obtain ⟨hsize, -, hsb, hdisk⟩ := hview
      have hlast := (hkept _ _ fs [.alloc .block] (largerImage_healthy log) hmount
        (hsize.trans heq.symm)).1 56 (by omega)
      change (ext2AllocBlock fs).2.dev.data 2 56 = (ext2AllocBlock fs).2.sb.bytes 56 at hlast
      rw [hdisk, hsb] at hlast
      exact absurd hlast (by decide)
    have h2048 := hlarger 1 (by simp)
    have h4096 := hlarger 2 (by simp)
    omega
  · intro hsmall dev buf fs ops hhealthy hmount hsize
    obtain ⟨hmounted, hdisk, -⟩ := mount_spec hhealthy hmount
    obtain ⟨hmounted', hdisk'⟩ := runOps_onDisk hmounted (hsize.trans hsmall) hdisk ops
    exact ⟨hdisk', hmounted'.again hdisk'⟩

/-- An image with blocks of 2048 bytes cannot be mounted again after an allocation. -/
theorem larger_image_lost :
    (ext2MountSb (largerImage 1) (fun _ => 0#8)).map (fun fs =>
      (fs.blockSize, (ext2AllocBlock fs).1,
        (ext2MountSb (ext2AllocBlock fs).2.dev (fun _ => 0#8)).isSome)) =
      some (2048, 8, false) := by
  decide +kernel

/-- The superblock is kept with blocks of 1024 bytes and overwritten with 4096. -/
theorem superblock_kept_iff_sizes :
    SbKept 1024 ∧ ¬ SbKept 4096 ∧ SbOverwritten 4096 := by
  refine ⟨(superblock_kept_iff 1024 (by decide)).1.mpr rfl, ?_, ?_⟩
  · intro hkept
    exact absurd ((superblock_kept_iff 4096 (by decide)).1.mp hkept) (by decide)
  · exact (superblock_kept_iff 4096 (by decide)).2 (by decide)

end Ext2
end Homunculos
