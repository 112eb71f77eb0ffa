import Homunculos.Block.Device

/-!
# Partitions

`parse_mbr` and `part_init` of `kernel/part.c` register a block device for every
entry of the partition tables; `part_read_sector` and `part_write_sector` add the
start of the partition, in 32 bits, and hand the sector to the disk.  Neither of
them looks at the number of sectors.
-/

namespace Homunculos
namespace Block

open Bytes

/-- Who serves the sectors of a device: a drive, or a partition with its `part_privs` slot. -/
inductive Driver where
  | ata (drive : Nat)
  | part (slot : Nat)
deriving DecidableEq

/-- `struct block_device`. -/
structure BlockDev where
  name : List (BitVec 8)
  blockSize : Nat
  numBlocks : Nat
  driver : Driver
deriving DecidableEq

/-- `struct part_priv`; the parent is a drive, since only disks are parsed. -/
structure PartPriv where
  parent : Nat
  startLba : Nat

/-- `block_devices`, `part_privs` and `part_count`. -/
structure Registry where
  devices : List BlockDev
  privs : Nat → PartPriv
  partCount : Nat

def blockRegisterDevice (reg : Registry) (dev : BlockDev) : Option Registry :=
  if 20 ≤ reg.devices.length then none
  else some { reg with devices := reg.devices ++ [dev] }

/-- `block_find_device`; at most 15 bytes of a name are compared. -/
def blockFindDevice (reg : Registry) (name : List (BitVec 8)) : Option BlockDev :=
  reg.devices.find? (fun dev => dev.name.take 15 = name.take 15)

/-- `struct mbr_entry`, the fields that are read. -/
structure MbrEntry where
  type : Nat
  lbaStart : Nat
  sectorCount : Nat

/-- Entry `i` of the partition table. -/
def mbrEntry (mbr : Nat → BitVec 8) (i : Nat) : MbrEntry where
  type := (mbr (446 + 16 * i + 4)).toNat
  lbaStart := u32 mbr (446 + 16 * i + 8)
  sectorCount := u32 mbr (446 + 16 * i + 12)

/-- The name of a partition: that of the disk, at most 13 bytes of it, and a digit. -/
def partName (parent : List (BitVec 8)) (i : Nat) : List (BitVec 8) :=
  parent.take 13 ++ [BitVec.ofNat 8 (0x30 + (i + 1))]

/-- One round of the loop of `parse_mbr`. With a full table the source leaves the loop; the rounds
after that would change nothing either. -/
def parseEntry (drive : Nat) (parent : BlockDev) (mbr : Nat → BitVec 8) (reg : Registry)
    (i : Nat) : Registry :=
  let e := mbrEntry mbr i
  if e.type = 0 ∨ e.sectorCount = 0 then
    reg
  else if 16 ≤ reg.partCount then
    reg
  else
    let reg := { reg with privs := Function.update reg.privs reg.partCount ⟨drive, e.lbaStart⟩ }
    match blockRegisterDevice reg ⟨partName parent.name i, 512, e.sectorCount,
        .part reg.partCount⟩ with
    | none => reg
    | some reg => { reg with partCount := reg.partCount + 1 }

def parseMbr (disk : BlockDevice) (drive : Nat) (parent : BlockDev) (reg : Registry) : Registry :=
  if parent.blockSize < 512 then
    reg
  else
    let r := blockRead disk 0 1 (fun _ => 0#8)
    if r.1 then
      if u16 r.2 510 = 0xAA55 then
        [0, 1, 2, 3].foldl (parseEntry drive parent r.2) reg
      else
        reg
    else
      reg

/-- The names `hda` to `hdd`. -/
def diskNames : List (List (BitVec 8)) :=
  [0x61#8, 0x62#8, 0x63#8, 0x64#8].map (fun c => [0x68#8, 0x64#8, c])

/-- `part_init`, as far as it registers partitions; the VFS nodes come after that. -/
def partInit (disks : Nat → BlockDevice) (reg : Registry) : Registry :=
  diskNames.foldl (fun reg name =>
    match blockFindDevice reg name with
    | some parent =>
      match parent.driver with
      | .ata drive => parseMbr (disks drive) drive parent reg
      | .part _ => reg
    | none => reg) reg

/-- A disk with the sectors that it has been asked for. -/
structure Bus where
  dev : BlockDevice
  log : List Nat

/-- The drive reads a sector. -/
def Bus.readSector (bus : Bus) (s : Nat) : Option (Nat → BitVec 8) × Bus :=
  (if bus.dev.readOk s then some (bus.dev.data s) else none, { bus with log := bus.log ++ [s] })

/-- The drive writes a sector. -/
def Bus.writeSector (bus : Bus) (s : Nat) (bytes : Nat → BitVec 8) : Bool × Bus :=
  if bus.dev.writeOk s then
    (true, ⟨bus.dev.setSector s bytes, bus.log ++ [s]⟩)
  else
    (false, { bus with log := bus.log ++ [s] })

/-- The sector of the disk for a sector of a partition. -/
def partSector (start lba : Nat) : Nat :=
  (start + lba) % 2 ^ 32

def partReadSector (priv : PartPriv) (bus : Bus) (lba : Nat) : Option (Nat → BitVec 8) × Bus :=
  bus.readSector (partSector priv.startLba lba)

def partWriteSector (priv : PartPriv) (bus : Bus) (lba : Nat)
    (bytes : Nat → BitVec 8) : Bool × Bus :=
  bus.writeSector (partSector priv.startLba lba) bytes

/-- The loop of `block_read` over a partition from sector `i` on. -/
def partReadLoop (priv : PartPriv)
    (lba : Nat) : Nat → Nat → (Nat → BitVec 8) → Bus → Bool × (Nat → BitVec 8) × Bus
  | _, 0, buf, bus => (true, buf, bus)
  | i, n + 1, buf, bus =>
    match partReadSector priv bus (sectorNo lba i) with
    | (some bytes, bus) => partReadLoop priv lba (i + 1) n (copy buf (512 * i) bytes 512) bus
    | (none, bus) => (false, buf, bus)

/-- `block_read` through a partition. -/
def partRead (priv : PartPriv) (lba n : Nat) (buf : Nat → BitVec 8)
    (bus : Bus) : Bool × (Nat → BitVec 8) × Bus :=
  partReadLoop priv lba 0 n buf bus

/-- The loop of `block_write` over a partition from sector `i` on. -/
def partWriteLoop (priv : PartPriv) (lba : Nat)
    (buf : Nat → BitVec 8) : Nat → Nat → Bus → Bool × Bus
  | _, 0, bus => (true, bus)
  | i, n + 1, bus =>
    match partWriteSector priv bus (sectorNo lba i) (fun q => buf (512 * i + q)) with
    | (true, bus) => partWriteLoop priv lba buf (i + 1) n bus
    | (false, bus) => (false, bus)

/-- `block_write` through a partition. -/
def partWrite (priv : PartPriv) (lba n : Nat) (buf : Nat → BitVec 8) (bus : Bus) : Bool × Bus :=
  partWriteLoop priv lba buf 0 n bus

section Issued

variable {priv : PartPriv} {lba : Nat} {s : Nat}

/-- The sectors that a request for sectors `i` to `i + n` of a partition stands for. -/
def issued (priv : PartPriv) (lba i n : Nat) : List Nat :=
  (List.range' i n).map (fun j => partSector priv.startLba (sectorNo lba j))

theorem issued_succ (i n : Nat) :
    issued priv lba i (n + 1) =
      partSector priv.startLba (sectorNo lba i) :: issued priv lba (i + 1) n := by
  simp [issued, List.range'_succ]

theorem mem_issued {n : Nat} :
    s ∈ issued priv lba 0 n ↔ ∃ j, j < n ∧ s = partSector priv.startLba (sectorNo lba j) := by
  simp only [issued, List.mem_map, List.mem_range'_1, Nat.zero_le, true_and, Nat.zero_add]
  constructor
  · rintro ⟨j, hj, rfl⟩
    exact ⟨j, hj, rfl⟩
  · rintro ⟨j, hj, rfl⟩
    exact ⟨j, hj, rfl⟩

theorem partReadLoop_log (i n : Nat) (buf : Nat → BitVec 8) (bus : Bus) :
    ∃ k, k ≤ n ∧ (partReadLoop priv lba i n buf bus).2.2.log =
      bus.log ++ (issued priv lba i n).take k := by
  induction n generalizing i buf bus with
  | zero => exact ⟨0, le_refl _, by simp [partReadLoop]⟩
  | succ n ih =>
    unfold partReadLoop partReadSector Bus.readSector
    split
    next bytes bus' heq =>
      have hlog : bus'.log = bus.log ++ [partSector priv.startLba (sectorNo lba i)] := by
        rw [← (Prod.mk.inj heq).2]
      obtain ⟨k, hk, hrest⟩ := ih (i + 1) (copy buf (512 * i) bytes 512) bus'
      refine ⟨k + 1, by omega, ?_⟩
      rw [hrest, hlog, issued_succ, List.take_succ_cons, List.append_assoc, List.singleton_append]
    next bus' heq =>
      refine ⟨1, by omega, ?_⟩
      rw [← (Prod.mk.inj heq).2, issued_succ]
      simp

theorem partWriteLoop_log (buf : Nat → BitVec 8) (i n : Nat) (bus : Bus) :
    ∃ k, k ≤ n ∧ (partWriteLoop priv lba buf i n bus).2.log =
      bus.log ++ (issued priv lba i n).take k := by
  induction n generalizing i bus with
  | zero => exact ⟨0, le_refl _, by simp [partWriteLoop]⟩
  | succ n ih =>
    unfold partWriteLoop partWriteSector Bus.writeSector
    by_cases hok : bus.dev.writeOk (partSector priv.startLba (sectorNo lba i)) = true
    · rw [if_pos hok]
      obtain ⟨k, hk, hrest⟩ := ih (i + 1) (⟨bus.dev.setSector
        (partSector priv.startLba (sectorNo lba i)) (fun q => buf (512 * i + q)),
        bus.log ++ [partSector priv.startLba (sectorNo lba i)]⟩)
      refine ⟨k + 1, by omega, ?_⟩
      simp only [hrest, issued_succ, List.take_succ_cons, List.append_assoc, List.singleton_append]
    · rw [if_neg hok]
      refine ⟨1, by omega, ?_⟩
      simp [issued_succ]

theorem partReadLoop_healthy (i n : Nat) (buf : Nat → BitVec 8) {bus : Bus} (h : bus.dev.Healthy) :
    (partReadLoop priv lba i n buf bus).1 = true ∧
      (partReadLoop priv lba i n buf bus).2.2.log = bus.log ++ issued priv lba i n := by
  induction n generalizing i buf bus with
  | zero => exact ⟨rfl, by simp [partReadLoop, issued]⟩
  | succ n ih =>
    unfold partReadLoop partReadSector Bus.readSector
    rw [if_pos (h.read _)]
    obtain ⟨hok, hlog⟩ := ih (i + 1) (copy buf (512 * i)
      (bus.dev.data (partSector priv.startLba (sectorNo lba i))) 512)
      (show (⟨bus.dev, bus.log ++ [partSector priv.startLba (sectorNo lba i)]⟩ : Bus).dev.Healthy
        from h)
    refine ⟨hok, ?_⟩
    simp only [hlog, issued_succ, List.append_assoc, List.singleton_append]

end Issued

/-- The sectors of a partition. -/
structure Extent where
  start : Nat
  count : Nat
deriving DecidableEq

def Extent.Has (x : Extent) (s : Nat) : Prop :=
  x.start ≤ s ∧ s < x.start + x.count

/-- The extent and the drive of a registered partition. -/
def Registry.extent (reg : Registry) (dev : BlockDev) : Option (Nat × Extent) :=
  match dev.driver with
  | .ata _ => none
  | .part slot => some ((reg.privs slot).parent, ⟨(reg.privs slot).startLba, dev.numBlocks⟩)

/-- A sector of the disk that the partition `x` may be asked for. -/
structure Registry.MayIssue (reg : Registry) (drive slot : Nat) (x : Extent) (s : Nat) : Prop where
  own : x.Has s
  mbr : s ≠ 0
  others : ∀ dev ∈ reg.devices, dev.driver ≠ .part slot → ∀ y, reg.extent dev = some (drive, y) →
    ¬ y.Has s

/--
Requests for `n` sectors from `lba` on keep to the partition: reads and writes ask the
disk for sectors of the partition only, which are not the MBR and not in another
partition, and a request for a sector behind the end is rejected.
-/
structure Registry.KeepsTo (reg : Registry) (slot : Nat) (x : Extent) (lba n : Nat) : Prop where
  read : ∀ (dev : BlockDevice) buf, ∀ s ∈ (partRead (reg.privs slot) lba n buf ⟨dev, []⟩).2.2.log,
    reg.MayIssue (reg.privs slot).parent slot x s
  write : ∀ (dev : BlockDevice) buf, ∀ s ∈ (partWrite (reg.privs slot) lba n buf ⟨dev, []⟩).2.log,
    reg.MayIssue (reg.privs slot).parent slot x s
  reject : (∃ i, i < n ∧ x.count ≤ sectorNo lba i) → ∀ (dev : BlockDevice) buf,
    (partRead (reg.privs slot) lba n buf ⟨dev, []⟩).1 = false ∧
      (partWrite (reg.privs slot) lba n buf ⟨dev, []⟩).1 = false

/-- A request inside of the partition, where it meets neither the MBR nor another partition. -/
def Registry.Inside (reg : Registry) (slot : Nat) (x : Extent) (lba n : Nat) : Prop :=
  ∀ i, i < n → sectorNo lba i < x.count ∧ x.start + sectorNo lba i < 2 ^ 32 ∧
    reg.MayIssue (reg.privs slot).parent slot x (x.start + sectorNo lba i)

section Guard

variable {reg : Registry} {slot : Nat} {x : Extent} {lba n : Nat}

theorem Registry.Inside.issued
    (h : reg.Inside slot x lba n) (hstart : (reg.privs slot).startLba = x.start) {s : Nat}
    (hs : s ∈ Block.issued (reg.privs slot) lba 0 n) :
    reg.MayIssue (reg.privs slot).parent slot x s := by
  obtain ⟨j, hj, rfl⟩ := mem_issued.mp hs
  obtain ⟨-, hwrap, hmay⟩ := h j hj
  unfold partSector
  rwa [hstart, Nat.mod_eq_of_lt hwrap]

theorem Registry.Inside.keepsTo
    (h : reg.Inside slot x lba n) (hstart : (reg.privs slot).startLba = x.start) :
    reg.KeepsTo slot x lba n := by
  refine ⟨?_, ?_, ?_⟩
  · intro dev buf s hs
    obtain ⟨k, -, hlog⟩ : ∃ k, k ≤ n ∧
        (partReadLoop (reg.privs slot) lba 0 n buf ⟨dev, []⟩).2.2.log = [] ++ _ :=
      partReadLoop_log 0 n buf ⟨dev, []⟩
    rw [partRead, hlog] at hs
    exact h.issued hstart (List.mem_of_mem_take hs)
  · intro dev buf s hs
    obtain ⟨k, -, hlog⟩ : ∃ k, k ≤ n ∧
        (partWriteLoop (reg.privs slot) lba buf 0 n ⟨dev, []⟩).2.log = [] ++ _ :=
      partWriteLoop_log buf 0 n ⟨dev, []⟩
    rw [partWrite, hlog] at hs
    exact h.issued hstart (List.mem_of_mem_take hs)
  · rintro ⟨i, hi, hout⟩
    have hin := (h i hi).1
    omega

/-- A disk without failures. -/
def blankDevice : BlockDevice :=
  ⟨fun _ _ => 0#8, fun _ => true, fun _ => true⟩

theorem Registry.KeepsTo.inside
    (h : reg.KeepsTo slot x lba n) (hstart : (reg.privs slot).startLba = x.start)
    (hlt : x.start < 2 ^ 32) :
    reg.Inside slot x lba n := by
  intro i hi
  have hhealthy : (⟨blankDevice, []⟩ : Bus).dev.Healthy := ⟨fun _ => rfl, fun _ => rfl⟩
  obtain ⟨-, hlog⟩ : _ ∧ (partReadLoop (reg.privs slot) lba 0 n (fun _ => 0#8)
      ⟨blankDevice, []⟩).2.2.log = [] ++ _ := partReadLoop_healthy 0 n (fun _ => 0#8) hhealthy
  have hmay := h.read blankDevice (fun _ => 0#8)
    (partSector (reg.privs slot).startLba (sectorNo lba i))
    (by
      rw [partRead, hlog]
      exact mem_issued.mpr ⟨i, hi, rfl⟩)
  rw [hstart] at hmay
  obtain ⟨hge, hin⟩ := hmay.own
  have hsector : sectorNo lba i < 2 ^ 32 := Nat.mod_lt _ (by decide)
  have hwrap : x.start + sectorNo lba i < 2 ^ 32 := by
    unfold partSector at hge
    omega
  have hsame : partSector x.start (sectorNo lba i) = x.start + sectorNo lba i :=
    Nat.mod_eq_of_lt hwrap
  rw [hsame] at hmay hin
  exact ⟨by omega, hwrap, hmay⟩

end Guard

section Parsing

variable {disks : Nat → BlockDevice} {reg : Registry}

/-- Every partition in the table comes from an entry of the table of its disk. -/
def Registry.Listed (disks : Nat → BlockDevice) (reg : Registry) : Prop :=
  ∀ dev ∈ reg.devices, ∀ slot, dev.driver = .part slot → slot < reg.partCount ∧
    ∃ i, i < 4 ∧
      (reg.privs slot).startLba = (mbrEntry ((disks (reg.privs slot).parent).data 0) i).lbaStart ∧
      dev.numBlocks = (mbrEntry ((disks (reg.privs slot).parent).data 0) i).sectorCount

theorem Registry.Listed.withPriv (h : reg.Listed disks) (priv : PartPriv) :
    Registry.Listed disks { reg with privs := Function.update reg.privs reg.partCount priv } := by
  intro dev hdev slot hslot
  obtain ⟨hlt, hentry⟩ := h dev hdev slot hslot
  refine ⟨hlt, ?_⟩
  dsimp only
  rw [Function.update_of_ne (by omega)]
  exact hentry

theorem Registry.Listed.parseEntry
    {drive i : Nat} {parent : BlockDev} {mbr : Nat → BitVec 8} (h : reg.Listed disks) (hi : i < 4)
    (hmbr : mbrEntry mbr i = mbrEntry ((disks drive).data 0) i) :
    (Block.parseEntry drive parent mbr reg i).Listed disks := by
  unfold Block.parseEntry
  rw [hmbr]
  dsimp only
  split
  · exact h
  · split
    · exact h
    · unfold blockRegisterDevice
      split
      next heq =>
        exact h.withPriv _
      next reg' heq =>
        split at heq
        · cases heq
        · cases heq
          intro dev hdev slot hslot
          rcases List.mem_append.mp hdev with hold | hnew
          · obtain ⟨hlt, hentry⟩ := h.withPriv ⟨drive, (mbrEntry ((disks drive).data 0) i).lbaStart⟩
              dev hold slot hslot
            exact ⟨Nat.lt_succ_of_lt hlt, hentry⟩
          · rw [List.mem_singleton] at hnew
            subst hnew
            cases hslot
            refine ⟨Nat.lt_succ_self _, i, hi, ?_, ?_⟩
            · simp
            · simp

theorem mbrEntry_congr
    {m m' : Nat → BitVec 8} {i : Nat} (hi : i < 4) (h : ∀ q, q < 512 → m q = m' q) :
    mbrEntry m i = mbrEntry m' i := by
  have hstart : u32 m (446 + 16 * i + 8) = u32 m' (446 + 16 * i + 8) :=
    u32_congr (fun j hj => h _ (by omega))
  have hcount : u32 m (446 + 16 * i + 12) = u32 m' (446 + 16 * i + 12) :=
    u32_congr (fun j hj => h _ (by omega))
  unfold mbrEntry
  rw [h (446 + 16 * i + 4) (by omega), hstart, hcount]

theorem Registry.Listed.parseMbr {drive : Nat} {parent : BlockDev} (h : reg.Listed disks) :
    (Block.parseMbr (disks drive) drive parent reg).Listed disks := by
  unfold Block.parseMbr
  split
  · exact h
  · dsimp only
    split
    next hok =>
      split
      · have hdata : ∀ q, q < 512 →
            (blockRead (disks drive) 0 1 (fun _ => 0#8)).2 q = (disks drive).data 0 q := by
          intro q hq
          have hdone : (blockRead (disks drive) 0 1 (fun _ => 0#8)).2 q = _ :=
            blockReadLoop_done hok q
          have hdiv : q / 512 = 0 := by omega
          have hmod : q % 512 = q := by omega
          rwa [if_pos (by omega), hdiv, hmod] at hdone
        refine List.foldlRecOn [0, 1, 2, 3] (motive := Registry.Listed disks) _ h ?_
        intro r hr i hmem
        have hi : i < 4 := by
          simp only [List.mem_cons, List.not_mem_nil, or_false] at hmem
          omega
        exact hr.parseEntry hi (mbrEntry_congr hi hdata)
      · exact h
    next =>
      exact h

/-- Only drives are registered. -/
def Registry.Boot (reg : Registry) : Prop :=
  ∀ dev ∈ reg.devices, ∃ drive, dev.driver = .ata drive

theorem Registry.Boot.listed (h : reg.Boot) :
    reg.Listed disks := by
  intro dev hdev slot hslot
  obtain ⟨drive, hdrive⟩ := h dev hdev
  rw [hdrive] at hslot
  cases hslot

theorem Registry.Boot.partInit (disks : Nat → BlockDevice) (h : reg.Boot) :
    (Block.partInit disks reg).Listed disks := by
  refine List.foldlRecOn diskNames (motive := Registry.Listed disks) _ h.listed ?_
  intro r hr name _
  split
  · split
    · exact hr.parseMbr
    · exact hr
  · exact hr

end Parsing

/--
For every content of the disks and every partition that `part_init` registers, requests
for `n` sectors from `lba` on keep to the entry of the partition table exactly when
all of them are inside.
-/
theorem partition_keepsTo_iff
    (disks : Nat → BlockDevice) (reg : Registry) (dev : BlockDev) (slot lba n : Nat)
    (hboot : reg.Boot) (hdev : dev ∈ (partInit disks reg).devices)
    (hpart : dev.driver = .part slot) :
    ∃ i, i < 4 ∧
      let drive := ((partInit disks reg).privs slot).parent
      let e := mbrEntry ((disks drive).data 0) i
      (partInit disks reg).extent dev = some (drive, ⟨e.lbaStart, e.sectorCount⟩) ∧
        ((partInit disks reg).KeepsTo slot ⟨e.lbaStart, e.sectorCount⟩ lba n ↔
          (partInit disks reg).Inside slot ⟨e.lbaStart, e.sectorCount⟩ lba n) := by
  obtain ⟨-, i, hi, hstart, hcount⟩ := hboot.partInit disks dev hdev slot hpart
  refine ⟨i, hi, ?_, ?_⟩
  · simp only [Registry.extent, hpart, hstart, hcount]
  · constructor
    · intro h
      exact h.inside hstart (u32_lt _ _)
    · intro h
      exact h.keepsTo hstart

/-- A disk of two partitions of one sector each, at sectors 1 and 2. -/
def twoPartDisk : BlockDevice where
  data := fun s q =>
    if s = 0 then
      match q with
      | 450 => 0x83#8
      | 454 => 1#8
      | 458 => 1#8
      | 466 => 0x83#8
      | 470 => 2#8
      | 474 => 1#8
      | 510 => 0x55#8
      | 511 => 0xAA#8
      | _ => 0#8
    else 0#8
  readOk := fun _ => true
  writeOk := fun _ => true

/-- The disk `hda` alone. -/
def oneDisk : Registry :=
  ⟨[⟨[0x68#8, 0x64#8, 0x61#8], 512, 3, .ata 0⟩], fun _ => ⟨0, 0⟩, 0⟩

/-- The partition `hda1`. -/
def firstPart : BlockDev :=
  ⟨[0x68#8, 0x64#8, 0x61#8, 0x31#8], 512, 1, .part 0⟩

theorem oneDisk_boot : oneDisk.Boot := by
  intro dev hdev
  rw [oneDisk, List.mem_singleton] at hdev
  exact ⟨0, by rw [hdev]⟩

theorem partition_keepsTo_iff_first :
    ∃ i, i < 4 ∧
      let reg := partInit (fun _ => twoPartDisk) oneDisk
      let e := mbrEntry (twoPartDisk.data 0) i
      reg.extent firstPart = some ((reg.privs 0).parent, ⟨e.lbaStart, e.sectorCount⟩) ∧
        (reg.KeepsTo 0 ⟨e.lbaStart, e.sectorCount⟩ 0 1 ↔
          reg.Inside 0 ⟨e.lbaStart, e.sectorCount⟩ 0 1) :=
  partition_keepsTo_iff (fun _ => twoPartDisk) oneDisk firstPart 0 0 1 oneDisk_boot
    (by decide +kernel) rfl

/-- Sector 1 of `hda1`, which has one sector, is sector 2 of the disk: the partition `hda2`. -/
theorem partition_reaches_next :
    let reg := partInit (fun _ => twoPartDisk) oneDisk
    firstPart ∈ reg.devices ∧ reg.extent firstPart = some (0, ⟨1, 1⟩) ∧
      (∃ dev ∈ reg.devices, reg.extent dev = some (0, ⟨2, 1⟩)) ∧
      (partRead (reg.privs 0) 1 1 (fun _ => 0#8) ⟨twoPartDisk, []⟩).1 = true ∧
      (partRead (reg.privs 0) 1 1 (fun _ => 0#8) ⟨twoPartDisk, []⟩).2.2.log = [2] ∧
      (partWrite (reg.privs 0) 1 1 (fun _ => 0#8) ⟨twoPartDisk, []⟩).1 = true ∧
      (partWrite (reg.privs 0) 1 1 (fun _ => 0#8) ⟨twoPartDisk, []⟩).2.log = [2] := by
  decide +kernel

end Block
end Homunculos
