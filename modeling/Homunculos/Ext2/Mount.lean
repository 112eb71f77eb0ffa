import Homunculos.Ext2.Superblock
import Homunculos.Ext2.Directory

/-!
# Mounting

`ext2_mount` takes the superblock from sector 2 and looks at its magic number only.
The block size, the sizes of the groups and the size of an inode are used as they
are: as divisors, as lengths of transfers into the 4096 bytes of `ext2_buf` and in
offsets into it.
-/

namespace Homunculos
namespace Ext2

open Bytes Block

/-- `fs_pool_next`, the free slots of `vfs_inodes`, `vfs_next_ino` and `ext2_data_pool_next`. -/
structure MountPools where
  fsPoolNext : Nat
  vfsFree : Nat
  nextIno : Nat
  dataNext : Nat

/-- What a mount comes to; a fault is a division by zero or a shift by 32 or more. -/
inductive MountOutcome where
  | fault
  | failed
  | mounted (st : Ext2State) (root : VfsInode)

/-- `ext2_read_inode` divides by zero. -/
def readInodeFaults (fs : Ext2Fs) (inodeNo : Nat) : Bool :=
  decide (¬ (inodeNo = 0 ∨ fs.sb.inodesCount < inodeNo) ∧
    (fs.sb.inodesPerGroup = 0 ∨ fs.blockSize = 0))

/-- The inode in memory of the root. -/
def rootInode (ino : Nat) (raw : Ext2Inode) : VfsInode where
  iNo := ino
  iSize := raw.size
  iType := .dir
  iMode := raw.mode
  ops := some .dir
  privateData := some 2
  iRdev := 0

def ext2Mount (dev : BlockDevice) (pools : MountPools) (buf : Nat → BitVec 8) : MountOutcome :=
  if 1 ≤ pools.fsPoolNext then
    .failed
  else
    match ext2MountSb dev buf with
    | none => .failed
    | some fs =>
      if 32 ≤ fs.sb.logBlockSize ∨ fs.sb.blocksPerGroup = 0 then
        .fault
      else if pools.vfsFree = 0 ∨ 64 ≤ pools.dataNext then
        .failed
      else if readInodeFaults fs 2 then
        .fault
      else
        match ext2ReadInode fs 2 with
        | (none, _) => .failed
        | (some raw, fs) =>
          .mounted ⟨fs, pools.dataNext + 1, pools.vfsFree - 1⟩ (rootInode pools.nextIno raw)

/-- The sizes that a file system in memory should have. -/
structure SizesOk (fs : Ext2Fs) : Prop where
  blockSize : BlockSizeOk fs
  perGroup : ∀ k : Kind, 1 ≤ k.perGroup fs.sb ∧ k.perGroup fs.sb ≤ 8 * fs.blockSize
  inodeSize : fs.sb.inodeSize = 0 ∨ fs.sb.inodeSize ∣ fs.blockSize ∧ 128 ≤ fs.sb.inodeSize

/-- No divisor is zero, and what is addressed in `ext2_buf` is inside of it. -/
structure BufSafe (fs : Ext2Fs) : Prop where
  divisors : fs.blockSize ≠ 0 ∧ fs.blockSize / 4 ≠ 0 ∧ ∀ k : Kind, k.perGroup fs.sb ≠ 0
  -- `ext2_read_block`, `ext2_write_block`
  transfer : 512 * (fs.blockSize / 512) ≤ 4096
  -- `ext2_read_bgdesc`, `ext2_write_bgdesc`
  desc : ∀ bg, fs.descPos bg + 32 ≤ 4096
  -- `ext2_alloc_block`, `ext2_alloc_inode`
  scan : ∀ (k : Kind) bg, bg < fs.bgdescCount → ∀ i, i < maxBits k fs bg → i / 8 < 4096
  -- `ext2_free_block`, `ext2_free_inode`
  release : ∀ (k : Kind) n, n % k.perGroup fs.sb / 8 < 4096
  -- `ext2_read_inode`, `ext2_write_inode`
  inode : ∀ n, 0 < n → n ≤ fs.sb.inodesCount → fs.inodeOffset n % fs.blockSize + 128 ≤ 4096
  -- `ext2_inode_bmap`, `ext2_set_bmap`
  pointer : ∀ i, i < fs.blockSize / 4 → 4 * i + 4 ≤ 4096

/-- A mount fails, or it gives a file system that can be used. -/
def MountOutcome.Ok : MountOutcome → Prop
  | .fault => False
  | .failed => True
  | .mounted st _ => SizesOk st.fs ∧ BufSafe st.fs

/-- The block size of what was mounted. -/
def MountOutcome.blockSize : MountOutcome → Option Nat
  | .mounted st _ => some st.fs.blockSize
  | _ => none

def MountOutcome.faults : MountOutcome → Bool
  | .fault => true
  | _ => false

/-- The superblock in a sector. -/
def sbOf (sector : Nat → BitVec 8) : Ext2Sb :=
  ⟨slice sector 0 136⟩

/-- The number of groups, in 32 bits. -/
def Ext2Sb.groupCount (sb : Ext2Sb) : Nat :=
  (sb.blocksCount + sb.blocksPerGroup + (2 ^ 32 - 1)) % 2 ^ 32 / sb.blocksPerGroup

/-- The bits of the last group, in 32 bits. -/
def lastBits (k : Kind) (sb : Ext2Sb) : Nat :=
  (k.count sb + (2 ^ 32 - (sb.groupCount - 1) * k.perGroup sb % 2 ^ 32)) % 2 ^ 32

/-- The values of a superblock that can be used. -/
structure SbSane (sb : Ext2Sb) : Prop where
  log : sb.logBlockSize ≤ 2
  perGroup : ∀ k : Kind, 1 ≤ k.perGroup sb ∧ k.perGroup sb ≤ 8 * (1024 * 2 ^ sb.logBlockSize)
  inodeSize : sb.inodeSize = 0 ∨ sb.inodeSize ∣ 1024 * 2 ^ sb.logBlockSize ∧ 128 ≤ sb.inodeSize
  lastBits : sb.groupCount = 0 ∨ ∀ k : Kind, lastBits k sb ≤ 8 * 4096

/--
A sector that may be mounted: no superblock, a superblock with which the mount fails
in any case, or one with sane values.
-/
def SectorOk (sector : Nat → BitVec 8) : Prop :=
  let sb := sbOf sector
  sb.magic ≠ 0xEF53 ∨
    (sb.logBlockSize < 32 ∧ sb.blocksPerGroup ≠ 0 ∧ sb.inodesCount < 2) ∨ SbSane sb

section Safety

variable {fs : Ext2Fs}

theorem SizesOk.desc (h : SizesOk fs) (bg : Nat) :
    fs.descPos bg + 32 ≤ 4096 := by
  unfold Ext2Fs.descPos
  rcases h.blockSize with hbs | hbs | hbs
  · rw [hbs]
    omega
  · rw [hbs]
    omega
  · rw [hbs]
    omega

theorem SizesOk.inode (h : SizesOk fs) (n : Nat) :
    fs.inodeOffset n % fs.blockSize + 128 ≤ 4096 := by
  have hle : fs.blockSize ≤ 4096 := by
    rcases h.blockSize with hbs | hbs | hbs
    · omega
    · omega
    · omega
  have hbs : fs.blockSize ∣ 2 ^ 32 := by
    rcases h.blockSize with hbs | hbs | hbs
    · rw [hbs]
      decide
    · rw [hbs]
      decide
    · rw [hbs]
      decide
  obtain ⟨hdvd, hge⟩ : fs.inodeSize ∣ fs.blockSize ∧ 128 ≤ fs.inodeSize := by
    unfold Ext2Fs.inodeSize
    rcases h.inodeSize with hzero | hsize
    · rw [if_pos hzero]
      refine ⟨?_, le_refl _⟩
      rcases h.blockSize with hbs | hbs | hbs
      · rw [hbs]
        decide
      · rw [hbs]
        decide
      · rw [hbs]
        decide
    · rw [if_neg (by omega)]
      exact hsize
  have hpos : 0 < fs.blockSize := by
    rcases h.blockSize with hbs | hbs | hbs
    · omega
    · omega
    · omega
  -- the offset is a multiple of the inode size below the block size
  have hmul : fs.inodeSize ∣ fs.inodeOffset n % fs.blockSize := by
    unfold Ext2Fs.inodeOffset
    rw [Nat.mod_mod_of_dvd _ hbs]
    exact (Nat.dvd_mod_iff hdvd).mpr (Nat.dvd_mul_left _ _)
  have hlt : fs.inodeOffset n % fs.blockSize < fs.blockSize := Nat.mod_lt _ hpos
  have hroom : fs.inodeOffset n % fs.blockSize + fs.inodeSize ≤ fs.blockSize := by
    obtain ⟨a, ha⟩ := hmul
    obtain ⟨b, hb⟩ := hdvd
    rw [ha, hb] at hlt ⊢
    have hab : a < b := lt_of_mul_lt_mul_left hlt (Nat.zero_le _)
    calc fs.inodeSize * a + fs.inodeSize = fs.inodeSize * (a + 1) := by ring
      _ ≤ fs.inodeSize * b := Nat.mul_le_mul_left _ hab
  omega

theorem SizesOk.bufSafe (h : SizesOk fs)
    (hlast : fs.bgdescCount = 0 ∨ ∀ k : Kind, maxBits k fs (fs.bgdescCount - 1) ≤ 8 * 4096) :
    BufSafe fs := by
  have hbs : fs.blockSize = 1024 ∨ fs.blockSize = 2048 ∨ fs.blockSize = 4096 := h.blockSize
  refine ⟨⟨by omega, by omega, ?_⟩, by omega, h.desc, ?_, ?_, fun n _ _ => h.inode n, ?_⟩
  · intro k
    have hper := (h.perGroup k).1
    omega
  · intro k bg hbg i hi
    have hper := (h.perGroup k).2
    by_cases hgroup : bg = fs.bgdescCount - 1
    · rw [hgroup] at hi
      have hbits := hlast.resolve_left (by omega) k
      omega
    · unfold maxBits at hi
      rw [if_neg hgroup] at hi
      omega
  · intro k n
    have hper := h.perGroup k
    have hlt := Nat.mod_lt n (show 0 < k.perGroup fs.sb by omega)
    omega
  · intro i hi
    omega

end Safety

section Sector

variable {dev : BlockDevice} {fs : Ext2Fs} {buf sector : Nat → BitVec 8}

theorem mountSb_fields
    (hsector : ∀ q, q < 512 → dev.data 2 q = sector q) (h : ext2MountSb dev buf = some fs) :
    fs.dev = dev ∧ fs.sb = sbOf sector ∧ (sbOf sector).magic = 0xEF53 ∧
      fs.blockSize = 1024 * 2 ^ (sbOf sector).logBlockSize % 2 ^ 32 ∧
      fs.bgdescCount = (sbOf sector).groupCount := by
  unfold ext2MountSb at h
  dsimp only at h
  split at h
  next =>
    cases h
  next hok =>
    rw [not_or, not_not] at hok
    have hread : (blockRead dev 2 1 buf).1 = true := by simpa using hok.1
    have hsb : (⟨slice (blockRead dev 2 1 buf).2 0 136⟩ : Ext2Sb) = sbOf sector := by
      refine congrArg Ext2Sb.mk (slice_congr ?_)
      intro q hq
      have hdone : (blockRead dev 2 1 buf).2 q = _ := blockReadLoop_done hread q
      rw [if_pos (by omega), show q / 512 = 0 by omega, show q % 512 = q by omega] at hdone
      rw [Nat.zero_add, hdone]
      exact hsector q (by omega)
    rw [hsb] at h hok
    cases h
    exact ⟨rfl, rfl, hok.2, rfl, rfl⟩

theorem mountSb_some (h : dev.Healthy) (hsector : ∀ q, q < 512 → dev.data 2 q = sector q)
    (hmagic : (sbOf sector).magic = 0xEF53) :
    ∃ fs, ext2MountSb dev buf = some fs := by
  have hsb : (⟨slice (blockRead dev 2 1 buf).2 0 136⟩ : Ext2Sb) = sbOf sector := by
    refine congrArg Ext2Sb.mk (slice_congr ?_)
    intro q hq
    rw [Nat.zero_add, readSector2 h (by omega)]
    exact hsector q (by omega)
  have hread : (blockRead dev 2 1 buf).1 = true := blockReadLoop_healthy h 0 1
  unfold ext2MountSb
  dsimp only
  rw [hsb, hread, if_neg (by simp [hmagic])]
  exact ⟨_, rfl⟩

/-- Reading an inode changes `ext2_buf` only. -/
theorem readInode_static (fs : Ext2Fs) (n : Nat) :
    ∃ buf, (ext2ReadInode fs n).2 = fs.withBuf buf := by
  unfold ext2ReadInode ext2ReadBgdesc
  split
  · exact ⟨fs.buf, rfl⟩
  · dsimp only
    split
    next fs1 heq =>
      split at heq
      · cases heq
      · cases heq
        exact ⟨_, rfl⟩
    next bgd fs1 heq =>
      split at heq
      · cases heq
        split
        · exact ⟨_, rfl⟩
        · exact ⟨_, rfl⟩
      · cases heq

theorem readInode_healthy (h : fs.dev.Healthy) {n : Nat} (hn : ¬ (n = 0 ∨ fs.sb.inodesCount < n)) :
    ∃ raw fs', ext2ReadInode fs n = (some raw, fs') := by
  unfold ext2ReadInode
  rw [if_neg hn, readBgdesc_healthy h]
  dsimp only
  rw [if_pos (readBuf_healthy (fs.readBuf (fs.descBlock (fs.inodeGroup n))).2 h _)]
  exact ⟨_, _, rfl⟩

theorem blockSize_log :
    ∀ log, log < 32 → (1024 * 2 ^ log % 2 ^ 32 = 1024 ∨ 1024 * 2 ^ log % 2 ^ 32 = 2048 ∨
      1024 * 2 ^ log % 2 ^ 32 = 4096) → log ≤ 2 := by
  decide +kernel

theorem blockSize_of_log :
    ∀ log, log < 3 → 1024 * 2 ^ log % 2 ^ 32 = 1024 * 2 ^ log := by
  decide

variable {sb : Ext2Sb} (hsb : fs.sb = sb) (hcount : fs.bgdescCount = sb.groupCount)
variable (hsize : fs.blockSize = 1024 * 2 ^ sb.logBlockSize % 2 ^ 32)
include hsb hsize hcount

theorem SbSane.ok (h : SbSane sb) :
    SizesOk fs ∧ BufSafe fs := by
  have hlog := h.log
  rw [blockSize_of_log _ (by omega)] at hsize
  have hsizes : SizesOk fs := by
    refine ⟨?_, ?_, ?_⟩
    · unfold BlockSizeOk
      rw [hsize]
      obtain hlog | hlog | hlog : sb.logBlockSize = 0 ∨ sb.logBlockSize = 1 ∨
          sb.logBlockSize = 2 := by omega
      · rw [hlog]
        decide
      · rw [hlog]
        decide
      · rw [hlog]
        decide
    · intro k
      rw [hsb, hsize]
      exact h.perGroup k
    · rw [hsb, hsize]
      exact h.inodeSize
  refine ⟨hsizes, hsizes.bufSafe ?_⟩
  rcases h.lastBits with hzero | hlast
  · exact Or.inl (hcount.trans hzero)
  · refine Or.inr (fun k => ?_)
    unfold maxBits
    rw [if_pos rfl, hsb, hcount]
    exact hlast k

theorem SbSane.of_ok (hlog : sb.logBlockSize < 32) (hsizes : SizesOk fs) (hsafe : BufSafe fs) :
    SbSane sb := by
  have hle : sb.logBlockSize ≤ 2 := by
    apply blockSize_log _ hlog
    rw [← hsize]
    exact hsizes.blockSize
  rw [blockSize_of_log _ (by omega)] at hsize
  refine ⟨hle, ?_, ?_, ?_⟩
  · intro k
    rw [← hsize, ← hsb]
    exact hsizes.perGroup k
  · rw [← hsize, ← hsb]
    exact hsizes.inodeSize
  · by_cases hzero : sb.groupCount = 0
    · exact Or.inl hzero
    · refine Or.inr (fun k => ?_)
      by_contra hlarge
      have hbits : maxBits k fs (fs.bgdescCount - 1) = Ext2.lastBits k sb := by
        unfold maxBits
        rw [if_pos rfl, hsb, hcount]
        rfl
      have hindex := hsafe.scan k (fs.bgdescCount - 1) (by omega) (8 * 4096) (by omega)
      omega

end Sector

section Outcome

variable {dev : BlockDevice} {pools : MountPools} {buf sector : Nat → BitVec 8}

theorem SectorOk.mount_ok (h : SectorOk sector) (hsector : ∀ q, q < 512 → dev.data 2 q = sector q) :
    (ext2Mount dev pools buf).Ok := by
  unfold ext2Mount
  split
  · trivial
  · cases hmount : ext2MountSb dev buf with
    | none => trivial
    | some fs =>
      obtain ⟨-, hsb, hmagic, hsize, hcount⟩ := mountSb_fields hsector hmount
      have hvalues := h.resolve_left (not_not.mpr hmagic)
      dsimp only
      rw [hsb]
      rw [if_neg (by
        rcases hvalues with ⟨hlog, hper, -⟩ | hsane
        · omega
        · have hlog := hsane.log
          have hper := (hsane.perGroup .block).1
          change 1 ≤ (sbOf sector).blocksPerGroup at hper
          omega)]
      split
      · trivial
      · rcases hvalues with ⟨-, -, hfew⟩ | hsane
        · -- inode 2 is not one of the file system
          have hnone : 2 = 0 ∨ fs.sb.inodesCount < 2 := by
            rw [hsb]
            exact Or.inr hfew
          have hfaults : readInodeFaults fs 2 = false :=
            decide_eq_false (fun hin => hin.1 hnone)
          rw [hfaults]
          unfold ext2ReadInode
          rw [if_pos hnone]
          trivial
        · obtain ⟨hsizes, hsafe⟩ := hsane.ok hsb hcount hsize
          have hfaults : readInodeFaults fs 2 = false := by
            have hipg : fs.sb.inodesPerGroup ≠ 0 := hsafe.divisors.2.2 .inode
            have hbs := hsafe.divisors.1
            simp [readInodeFaults, hipg, hbs]
          rw [hfaults]
          obtain ⟨buf', hstatic⟩ := readInode_static fs 2
          generalize ext2ReadInode fs 2 = r at hstatic
          obtain ⟨raw, fs'⟩ := r
          cases raw with
          | none => trivial
          | some raw =>
            subst hstatic
            exact hsane.ok (show (fs.withBuf buf').sb = _ from hsb) hcount hsize

end Outcome

/-- A disk with this sector 2, zeros else. -/
def diskOf (sector : Nat → BitVec 8) : BlockDevice where
  data := fun s q => if s = 2 then sector q else 0#8
  readOk := fun _ => true
  writeOk := fun _ => true

/--
Every mount of a device with this sector 2 fails or gives a file system that can be
used, exactly when the sector has no superblock, one that never mounts, or one with
sane values.
-/
theorem ext2_mount_ok_iff
    (sector : Nat → BitVec 8) :
    (∀ dev pools buf, (∀ q, q < 512 → dev.data 2 q = sector q) → (ext2Mount dev pools buf).Ok) ↔
      SectorOk sector := by
  constructor
  · intro h
    have hhealthy : (diskOf sector).Healthy := ⟨fun _ => rfl, fun _ => rfl⟩
    have hsector : ∀ q, q < 512 → (diskOf sector).data 2 q = sector q := fun _ _ => rfl
    have hok := h (diskOf sector) ⟨0, 1, 1, 0⟩ (fun _ => 0#8) hsector
    by_cases hmagic : (sbOf sector).magic = 0xEF53
    · right
      obtain ⟨fs, hmount⟩ : ∃ fs, ext2MountSb (diskOf sector) (fun _ => 0#8) = some fs :=
        mountSb_some hhealthy hsector hmagic
      obtain ⟨hdev, hsb, -, hsize, hcount⟩ := mountSb_fields hsector hmount
      unfold ext2Mount at hok
      rw [hmount] at hok
      dsimp only at hok
      rw [hsb] at hok
      by_cases hfault : 32 ≤ (sbOf sector).logBlockSize ∨ (sbOf sector).blocksPerGroup = 0
      · rw [if_pos hfault] at hok
        exact hok.elim
      · rw [if_neg hfault] at hok
        obtain ⟨hlog, hper⟩ := not_or.mp hfault
        by_cases hfew : (sbOf sector).inodesCount < 2
        · exact Or.inl ⟨by omega, hper, hfew⟩
        · right
          by_cases hroot : readInodeFaults fs 2 = true
          · rw [if_pos hroot] at hok
            exact hok.elim
          · rw [if_neg hroot] at hok
            obtain ⟨buf', hstatic⟩ := readInode_static fs 2
            obtain ⟨raw, fs', hread⟩ : ∃ raw fs', ext2ReadInode fs 2 = (some raw, fs') :=
              readInode_healthy (by rw [hdev]; exact hhealthy) (by rw [hsb]; omega)
            rw [hread] at hok hstatic
            subst hstatic
            exact SbSane.of_ok (show (fs.withBuf buf').sb = _ from hsb) hcount hsize (by omega)
              hok.1 hok.2
    · exact Or.inl hmagic
  · intro h dev pools buf hsector
    exact h.mount_ok hsector

/-- Blocks of 8192 bytes are mounted, and a group without blocks is a division by zero. -/
theorem ext2_mount_unchecked :
    (ext2Mount (largerImage 3) ⟨0, 1, 1, 0⟩ (fun _ => 0#8)).blockSize = some 8192 ∧
      (ext2Mount (diskOf (putU32 smallSb 32 0)) ⟨0, 1, 1, 0⟩ (fun _ => 0#8)).faults = true := by
  decide +kernel

end Ext2
end Homunculos
