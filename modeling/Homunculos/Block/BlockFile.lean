import Homunculos.Block.Device

/-!
# Block devices as files

`block_file_read` and `block_file_write` of `kernel/part.c`: the part of a first
sector, whole sectors, the part of a last sector.  Each phase computes its sector
from the start and from what has been transferred, in whole sectors; behind a part
of a first sector that number is one too small.
-/

namespace Homunculos
namespace Block

open Bytes

/-- A device with its number of sectors. -/
structure Disk extends BlockDevice where
  numBlocks : Nat

/-- A 32-bit number as an `int`. -/
def toInt32 (n : Nat) : Int :=
  (BitVec.ofNat 32 n).toInt

/-- The sector for what comes behind `total` bytes. -/
def nextSector (offset total : Nat) : Nat :=
  offset / 512 + total / 512

/-- How much is to be transferred, from a start inside of the device. -/
def clampCount (devBytes offset nbyte : Nat) : Nat :=
  if devBytes < (offset + nbyte) % 2 ^ 32 then devBytes - offset else nbyte

/-- How much of the first sector is transferred. -/
def firstChunk (offset todo : Nat) : Nat :=
  if offset % 512 = 0 then 0 else min (512 - offset % 512) todo

/-- The whole sectors of `block_file_read`: whether all went well, how far it got, the buffer. -/
def readWhole (dev : BlockDevice)
    (offset : Nat) : Nat → Nat → (Nat → BitVec 8) → Bool × Nat × (Nat → BitVec 8)
  | 0, total, buf => (true, total, buf)
  | k + 1, total, buf =>
    let r := blockRead dev (nextSector offset total) 1 (fun q => buf (total + q))
    if r.1 then
      readWhole dev offset k (total + 512) (copy buf total r.2 512)
    else
      (false, total, buf)

/-- The last two phases of `block_file_read`. -/
def readRest (dev : BlockDevice) (offset todo total : Nat)
    (buf : Nat → BitVec 8) : Int × (Nat → BitVec 8) :=
  let w := readWhole dev offset ((todo - total) / 512) total buf
  if w.1 then
    if todo - w.2.1 = 0 then
      (toInt32 w.2.1, w.2.2)
    else
      let r := blockRead dev (nextSector offset w.2.1) 1 (fun _ => 0#8)
      if r.1 then
        (toInt32 todo, copy w.2.2 w.2.1 r.2 (todo - w.2.1))
      else
        (toInt32 w.2.1, w.2.2)
  else
    (toInt32 w.2.1, w.2.2)

/-- `block_file_read` at position `offset`: the result and the buffer. -/
def blockFileRead (dev : Disk) (offset nbyte : Nat)
    (buf : Nat → BitVec 8) : Int × (Nat → BitVec 8) :=
  let devBytes := dev.numBlocks * 512 % 2 ^ 32
  if devBytes ≤ offset then
    (0, buf)
  else
    let todo := clampCount devBytes offset nbyte
    if offset % 512 = 0 then
      readRest dev.toBlockDevice offset todo 0 buf
    else
      let r := blockRead dev.toBlockDevice (offset / 512) 1 (fun _ => 0#8)
      if r.1 then
        let chunk := firstChunk offset todo
        readRest dev.toBlockDevice offset todo chunk
          (copy buf 0 (fun q => r.2 (offset % 512 + q)) chunk)
      else
        (-1, buf)

/-- The whole sectors of `block_file_write`. -/
def writeWhole (offset : Nat)
    (buf : Nat → BitVec 8) : Nat → Nat → BlockDevice → Bool × Nat × BlockDevice
  | 0, total, dev => (true, total, dev)
  | k + 1, total, dev =>
    let w := blockWrite dev (nextSector offset total) 1 (fun q => buf (total + q))
    if w.1 then
      writeWhole offset buf k (total + 512) w.2
    else
      (false, total, w.2)

/-- A part of a sector is read, changed and written. -/
def rewrite (dev : BlockDevice) (lba skip len : Nat) (src : Nat → BitVec 8) : Bool × BlockDevice :=
  let r := blockRead dev lba 1 (fun _ => 0#8)
  if r.1 then blockWrite dev lba 1 (copy r.2 skip src len) else (false, dev)

/-- The last two phases of `block_file_write`. -/
def writeRest (dev : BlockDevice) (offset todo total : Nat)
    (buf : Nat → BitVec 8) : Int × BlockDevice :=
  let w := writeWhole offset buf ((todo - total) / 512) total dev
  if w.1 then
    if todo - w.2.1 = 0 then
      (toInt32 w.2.1, w.2.2)
    else
      let r := rewrite w.2.2 (nextSector offset w.2.1) 0 (todo - w.2.1) (fun q => buf (w.2.1 + q))
      if r.1 then
        (toInt32 todo, r.2)
      else
        (toInt32 w.2.1, r.2)
  else
    (toInt32 w.2.1, w.2.2)

/-- `block_file_write` at position `offset`: the result and the device. -/
def blockFileWrite (dev : Disk) (offset nbyte : Nat) (buf : Nat → BitVec 8) : Int × BlockDevice :=
  let devBytes := dev.numBlocks * 512 % 2 ^ 32
  if devBytes ≤ offset then
    (0, dev.toBlockDevice)
  else
    let todo := clampCount devBytes offset nbyte
    if offset % 512 = 0 then
      writeRest dev.toBlockDevice offset todo 0 buf
    else
      let chunk := firstChunk offset todo
      let r := rewrite dev.toBlockDevice (offset / 512) (offset % 512) chunk buf
      if r.1 then
        writeRest r.2 offset todo chunk buf
      else
        (-1, r.2)

/-- The device as an array of bytes. -/
def BlockDevice.byte (dev : BlockDevice) (b : Nat) : BitVec 8 :=
  dev.data (b / 512) (b % 512)

/-- How many bytes there are from the position on, `n` at most. -/
def available (numBlocks pos n : Nat) : Nat :=
  min (pos + n) (numBlocks * 512) - pos

/-- `block_file_read` gives these bytes, whatever is on the device. -/
def ReadsRight (numBlocks pos n : Nat) : Prop :=
  ∀ (dev : Disk) (buf : Nat → BitVec 8), dev.numBlocks = numBlocks → dev.toBlockDevice.Healthy →
    (blockFileRead dev pos n buf).1 = available numBlocks pos n ∧
      ∀ q, (blockFileRead dev pos n buf).2 q =
        if q < available numBlocks pos n then dev.toBlockDevice.byte (pos + q) else buf q

/-- `block_file_write` replaces these bytes and no others. -/
def WritesRight (numBlocks pos n : Nat) : Prop :=
  ∀ (dev : Disk) (buf : Nat → BitVec 8), dev.numBlocks = numBlocks → dev.toBlockDevice.Healthy →
    (blockFileWrite dev pos n buf).1 = available numBlocks pos n ∧
      ∀ b, (blockFileWrite dev pos n buf).2.byte b =
        if pos ≤ b ∧ b < pos + available numBlocks pos n then buf (b - pos)
        else dev.toBlockDevice.byte b

section Sectors

variable {dev : BlockDevice} {lba : Nat}

theorem blockRead_one (h : dev.Healthy) (hlba : lba < 2 ^ 32) (buf : Nat → BitVec 8) :
    (blockRead dev lba 1 buf).1 = true ∧
      ∀ q, q < 512 → (blockRead dev lba 1 buf).2 q = dev.data lba q := by
  have hok : (blockRead dev lba 1 buf).1 = true := blockReadLoop_healthy h 0 1
  refine ⟨hok, ?_⟩
  intro q hq
  have hdone : (blockRead dev lba 1 buf).2 q = _ := blockReadLoop_done hok q
  have hdiv : q / 512 = 0 := by omega
  have hmod : q % 512 = q := by omega
  have hno : sectorNo lba 0 = lba := by
    unfold sectorNo
    omega
  rwa [if_pos (by omega), hdiv, hmod, hno] at hdone

theorem blockWrite_one (h : dev.Healthy) (hlba : lba < 2 ^ 32) (buf : Nat → BitVec 8) :
    blockWrite dev lba 1 buf = (true, dev.setSector lba buf) := by
  have hno : sectorNo lba 0 = lba := by
    unfold sectorNo
    omega
  unfold blockWrite blockWriteLoop blockWriteLoop
  rw [if_pos (h.write _), hno]
  simp

theorem data_setSector (s q : Nat) (bytes : Nat → BitVec 8) :
    (dev.setSector lba bytes).data s q = if s = lba then bytes q else dev.data s q := by
  unfold BlockDevice.setSector
  by_cases hs : s = lba
  · subst hs
    simp
  · simp [hs]

theorem rewrite_spec
    (skip len : Nat) (src : Nat → BitVec 8) (h : dev.Healthy) (hlba : lba < 2 ^ 32) :
    (rewrite dev lba skip len src).1 = true ∧ (rewrite dev lba skip len src).2.Healthy ∧
      ∀ s q, q < 512 → (rewrite dev lba skip len src).2.data s q =
        if s = lba ∧ skip ≤ q ∧ q < skip + len then src (q - skip) else dev.data s q := by
  obtain ⟨hok, hdata⟩ := blockRead_one h hlba (fun _ => 0#8)
  unfold rewrite
  simp only [hok, if_true, blockWrite_one h hlba]
  refine ⟨trivial, h.setSector _ _, ?_⟩
  intro s q hq
  rw [data_setSector]
  by_cases hs : s = lba
  · subst hs
    rw [if_pos rfl]
    by_cases hin : skip ≤ q ∧ q < skip + len
    · rw [copy_inside hin.1 hin.2, if_pos ⟨rfl, hin⟩]
    · rw [copy_outside (by omega), if_neg (by tauto), hdata q hq]
  · rw [if_neg hs, if_neg (by tauto)]

end Sectors

section Transfer

variable {dev : BlockDevice} {offset todo total k : Nat}

variable (buf : Nat → BitVec 8) (h : dev.Healthy) (hoffset : offset < 2 ^ 32)
include h hoffset

/-- The loop over the whole sectors: what it has put behind `total`. -/
theorem readWhole_spec (htotal : total + 512 * k < 2 ^ 32) :
    (readWhole dev offset k total buf).1 = true ∧
      (readWhole dev offset k total buf).2.1 = total + 512 * k ∧
      ∀ q, (readWhole dev offset k total buf).2.2 q =
        if total ≤ q ∧ q < total + 512 * k then
          dev.data (nextSector offset (total + 512 * ((q - total) / 512))) ((q - total) % 512)
        else buf q := by
  induction k generalizing total buf with
  | zero =>
    refine ⟨rfl, rfl, ?_⟩
    intro q
    rw [if_neg (by omega)]
    rfl
  | succ k ih =>
    have hlba : nextSector offset total < 2 ^ 32 := by
      unfold nextSector
      omega
    obtain ⟨hok, hdata⟩ := blockRead_one h hlba (fun q => buf (total + q))
    unfold readWhole
    simp only [hok, if_true]
    obtain ⟨hall, hend, hbuf⟩ := ih (copy buf total
      (blockRead dev (nextSector offset total) 1 (fun q => buf (total + q))).2 512)
      (show total + 512 + 512 * k < 2 ^ 32 by omega)
    refine ⟨hall, by omega, ?_⟩
    intro q
    rw [hbuf q]
    have hrest : total + 512 * (k + 1) = total + 512 + 512 * k := by omega
    rw [hrest]
    by_cases hlater : total + 512 ≤ q ∧ q < total + 512 + 512 * k
    · have hdiv : total + 512 + 512 * ((q - (total + 512)) / 512) =
          total + 512 * ((q - total) / 512) := by omega
      have hmod : (q - (total + 512)) % 512 = (q - total) % 512 := by omega
      rw [if_pos hlater, if_pos (by omega), hdiv, hmod]
    · rw [if_neg hlater]
      by_cases hnow : total ≤ q ∧ q < total + 512
      · have hdiv : total + 512 * ((q - total) / 512) = total := by omega
        have hmod : (q - total) % 512 = q - total := by omega
        have hin : total ≤ q ∧ q < total + 512 + 512 * k := by omega
        have hlt : q - total < 512 := by omega
        rw [if_pos hin, copy_inside hnow.1 hnow.2, hdata _ hlt, hdiv, hmod]
      · have hin : ¬ (total ≤ q ∧ q < total + 512 + 512 * k) := by omega
        have hout : q < total ∨ total + 512 ≤ q := by omega
        rw [if_neg hin, copy_outside hout]

theorem readRest_spec (htodo : todo < 2 ^ 32) (htotal : total ≤ todo) :
    (readRest dev offset todo total buf).1 = toInt32 todo ∧
      ∀ q, (readRest dev offset todo total buf).2 q =
        if total ≤ q ∧ q < todo then
          dev.data (nextSector offset (total + 512 * ((q - total) / 512))) ((q - total) % 512)
        else buf q := by
  have hfits : total + 512 * ((todo - total) / 512) < 2 ^ 32 := by omega
  obtain ⟨hall, hend, hbuf⟩ := readWhole_spec buf h hoffset hfits
  unfold readRest
  simp only [hall, if_true]
  by_cases hdone : todo - (readWhole dev offset ((todo - total) / 512) total buf).2.1 = 0
  · rw [if_pos hdone]
    refine ⟨congrArg toInt32 (by omega), ?_⟩
    intro q
    rw [hbuf q]
    have hsame : total + 512 * ((todo - total) / 512) = todo := by omega
    rw [hsame]
  · rw [if_neg hdone]
    have hlba : nextSector offset (readWhole dev offset ((todo - total) / 512) total buf).2.1 <
        2 ^ 32 := by
      unfold nextSector
      omega
    obtain ⟨hok, hdata⟩ := blockRead_one h hlba (fun _ => 0#8)
    simp only [hok, if_true]
    refine ⟨trivial, ?_⟩
    intro q
    by_cases hlast : total + 512 * ((todo - total) / 512) ≤ q ∧ q < todo
    · have hdiv : (q - total) / 512 = (todo - total) / 512 := by omega
      have hmod : (q - total) % 512 = q - (total + 512 * ((todo - total) / 512)) := by omega
      rw [if_pos (by omega), copy_inside (by omega) (by omega), hdata _ (by omega), hdiv, hmod,
        hend]
    · rw [copy_outside (by omega), hbuf q]
      exact if_congr (by omega) rfl rfl

theorem writeWhole_spec (htotal : total + 512 * k < 2 ^ 32) :
    (writeWhole offset buf k total dev).1 = true ∧
      (writeWhole offset buf k total dev).2.1 = total + 512 * k ∧
      (writeWhole offset buf k total dev).2.2.Healthy ∧
      ∀ s q, q < 512 → (writeWhole offset buf k total dev).2.2.data s q =
        if nextSector offset total ≤ s ∧ s < nextSector offset total + k then
          buf (total + 512 * (s - nextSector offset total) + q)
        else dev.data s q := by
  induction k generalizing total dev with
  | zero =>
    refine ⟨rfl, rfl, h, ?_⟩
    intro s q _
    rw [if_neg (by omega)]
    rfl
  | succ k ih =>
    have hlba : nextSector offset total < 2 ^ 32 := by
      unfold nextSector
      omega
    have hnext : nextSector offset (total + 512) = nextSector offset total + 1 := by
      unfold nextSector
      omega
    unfold writeWhole
    simp only [blockWrite_one h hlba, if_true]
    obtain ⟨hall, hend, hhealthy, hdata⟩ := ih
      (h.setSector (nextSector offset total) (fun q => buf (total + q)))
      (show total + 512 + 512 * k < 2 ^ 32 by omega)
    refine ⟨hall, by omega, hhealthy, ?_⟩
    intro s q hq
    rw [hdata s q hq, hnext, data_setSector]
    by_cases hlater : nextSector offset total + 1 ≤ s ∧ s < nextSector offset total + 1 + k
    · have hat : total + 512 + 512 * (s - (nextSector offset total + 1)) =
          total + 512 * (s - nextSector offset total) := by omega
      rw [if_pos hlater, if_pos (by omega), hat]
    · rw [if_neg hlater]
      by_cases hs : s = nextSector offset total
      · have hat : total + 512 * (s - nextSector offset total) = total := by omega
        rw [if_pos hs, if_pos (by omega), hat]
      · rw [if_neg hs, if_neg (by omega)]

theorem writeRest_spec (htodo : todo < 2 ^ 32) (htotal : total ≤ todo) :
    (writeRest dev offset todo total buf).1 = toInt32 todo ∧
      ∀ s q, q < 512 → (writeRest dev offset todo total buf).2.data s q =
        if nextSector offset total ≤ s ∧ total + 512 * (s - nextSector offset total) + q < todo then
          buf (total + 512 * (s - nextSector offset total) + q)
        else dev.data s q := by
  have hfits : total + 512 * ((todo - total) / 512) < 2 ^ 32 := by omega
  obtain ⟨hall, hend, hhealthy, hdata⟩ := writeWhole_spec buf h hoffset hfits
  unfold writeRest
  simp only [hall, if_true]
  by_cases hdone : todo - (writeWhole offset buf ((todo - total) / 512) total dev).2.1 = 0
  · rw [if_pos hdone]
    refine ⟨congrArg toInt32 (by omega), ?_⟩
    intro s q hq
    rw [hdata s q hq]
    exact if_congr (by omega) rfl rfl
  · rw [if_neg hdone]
    have hlba : nextSector offset (writeWhole offset buf ((todo - total) / 512) total dev).2.1 =
        nextSector offset total + (todo - total) / 512 := by
      unfold nextSector
      omega
    have hlt : nextSector offset total + (todo - total) / 512 < 2 ^ 32 := by
      unfold nextSector
      omega
    rw [hlba]
    obtain ⟨hok, -, hlast⟩ := rewrite_spec 0
      (todo - (writeWhole offset buf ((todo - total) / 512) total dev).2.1)
      (fun q => buf ((writeWhole offset buf ((todo - total) / 512) total dev).2.1 + q))
      hhealthy hlt
    simp only [hok, if_true]
    refine ⟨trivial, ?_⟩
    intro s q hq
    rw [hlast s q hq, hdata s q hq, hend]
    generalize nextSector offset total = n
    by_cases hs : s = n + (todo - total) / 512
    · have hat : total + 512 * (s - n) = total + 512 * ((todo - total) / 512) := by omega
      have hno : ¬ (n ≤ s ∧ s < n + (todo - total) / 512) := by omega
      rw [if_neg hno, hat]
      by_cases hin : q < todo - (total + 512 * ((todo - total) / 512))
      · rw [if_pos (by omega), if_pos (by omega), Nat.sub_zero]
      · rw [if_neg (by omega), if_neg (by omega)]
    · rw [if_neg (by omega)]
      exact if_congr (by omega) rfl rfl

end Transfer

section Files

variable {dev : Disk} {numBlocks pos n : Nat}

theorem toInt32_eq_iff {k : Nat} (h : k < 2 ^ 32) :
    toInt32 k = k ↔ k < 2 ^ 31 := by
  unfold toInt32
  rw [BitVec.toInt_eq_toNat_cond, BitVec.toNat_ofNat, Nat.mod_eq_of_lt h]
  split
  · constructor
    · intro _
      omega
    · intro _
      rfl
  · constructor
    · intro heq
      omega
    · intro hlt
      omega

theorem clampCount_eq (hpos : pos + n < 2 ^ 32) :
    clampCount (numBlocks * 512) pos n = available numBlocks pos n := by
  unfold clampCount available
  rw [Nat.mod_eq_of_lt hpos]
  by_cases hover : numBlocks * 512 < pos + n
  · rw [if_pos hover, min_eq_right hover.le]
  · rw [if_neg hover]
    omega

theorem available_of_le (h : numBlocks * 512 ≤ pos) :
    available numBlocks pos n = 0 := by
  unfold available
  omega

theorem available_lt (hdev : numBlocks * 512 < 2 ^ 32) :
    available numBlocks pos n < 2 ^ 32 := by
  unfold available
  omega

theorem firstChunk_le (offset todo : Nat) :
    firstChunk offset todo ≤ todo ∧ firstChunk offset todo < 512 := by
  unfold firstChunk
  split
  · omega
  · omega

/-- Behind the first sector the number starts with the sector of the position again. -/
theorem nextSector_firstChunk (offset todo j : Nat) :
    nextSector offset (firstChunk offset todo + 512 * j) = offset / 512 + j := by
  have hlt := (firstChunk_le offset todo).2
  unfold nextSector
  omega

section Specs

variable (buf : Nat → BitVec 8) (h : dev.toBlockDevice.Healthy)
variable (hdev : dev.numBlocks * 512 < 2 ^ 32) (hpos : pos + n < 2 ^ 32)
include h hdev hpos

/-- What `block_file_read` returns and puts into the buffer. -/
theorem blockFileRead_spec :
    let cnt := available dev.numBlocks pos n
    let fc := firstChunk pos cnt
    (blockFileRead dev pos n buf).1 = toInt32 cnt ∧
      ∀ q, (blockFileRead dev pos n buf).2 q =
        if q < fc then dev.toBlockDevice.byte (pos + q)
        else if q < cnt then dev.data (pos / 512 + (q - fc) / 512) ((q - fc) % 512)
        else buf q := by
  intro cnt fc
  unfold blockFileRead
  simp only [Nat.mod_eq_of_lt hdev]
  by_cases hin : dev.numBlocks * 512 ≤ pos
  · have hcnt : cnt = 0 := available_of_le hin
    have hfc : fc ≤ cnt := (firstChunk_le pos cnt).1
    rw [if_pos hin, hcnt]
    refine ⟨rfl, ?_⟩
    intro q
    rw [if_neg (by omega), if_neg (by omega)]
  · rw [if_neg hin, clampCount_eq hpos]
    have hcnt : cnt < 2 ^ 32 := available_lt hdev
    have hfc : fc ≤ cnt := (firstChunk_le pos cnt).1
    have hnext : ∀ j, nextSector pos (fc + 512 * j) = pos / 512 + j :=
      nextSector_firstChunk pos cnt
    have hrest : ∀ m, (readRest dev.toBlockDevice pos cnt fc m).1 = toInt32 cnt ∧
        ∀ q, (readRest dev.toBlockDevice pos cnt fc m).2 q =
          if fc ≤ q ∧ q < cnt then dev.data (pos / 512 + (q - fc) / 512) ((q - fc) % 512)
          else m q := by
      intro m
      obtain ⟨hret, hbuf⟩ := readRest_spec m h (show pos < 2 ^ 32 by omega) hcnt hfc
      refine ⟨hret, ?_⟩
      intro q
      rw [hbuf q, hnext]
    by_cases halign : pos % 512 = 0
    · have hzero : fc = 0 := if_pos halign
      rw [if_pos halign]
      obtain ⟨hret, hbuf⟩ := hrest buf
      rw [hzero] at hret hbuf ⊢
      refine ⟨hret, ?_⟩
      intro q
      rw [hbuf q, if_neg (Nat.not_lt_zero q)]
      by_cases hq : q < cnt
      · rw [if_pos ⟨Nat.zero_le _, hq⟩, if_pos hq]
      · have hout : ¬ (0 ≤ q ∧ q < cnt) := fun hin => hq hin.2
        rw [if_neg hout, if_neg hq]
    · rw [if_neg halign]
      obtain ⟨hok, hdata⟩ := blockRead_one h (show pos / 512 < 2 ^ 32 by omega) (fun _ => 0#8)
      have hchunk : fc ≤ 512 - pos % 512 := by
        change firstChunk pos cnt ≤ _
        unfold firstChunk
        rw [if_neg halign]
        exact min_le_left _ _
      simp only [hok, if_true]
      obtain ⟨hret, hbuf⟩ := hrest (copy buf 0 (fun q =>
        (blockRead dev.toBlockDevice (pos / 512) 1 (fun _ => 0#8)).2 (pos % 512 + q)) fc)
      refine ⟨hret, ?_⟩
      intro q
      rw [hbuf q]
      by_cases hq : q < fc
      · have hdiv : (pos + q) / 512 = pos / 512 := by omega
        have hmod : (pos + q) % 512 = pos % 512 + q := by omega
        have hlt : pos % 512 + (q - 0) < 512 := by omega
        rw [if_neg (by omega), copy_inside (Nat.zero_le _) (by omega), hdata _ hlt, if_pos hq]
        unfold BlockDevice.byte
        rw [hdiv, hmod, Nat.sub_zero]
      · rw [if_neg hq]
        by_cases hq' : q < cnt
        · rw [if_pos (by omega), if_pos hq']
        · rw [if_neg (by omega), if_neg hq', copy_outside (by omega)]

/-- What `block_file_write` returns and puts onto the device. -/
theorem blockFileWrite_spec :
    let cnt := available dev.numBlocks pos n
    let fc := firstChunk pos cnt
    (blockFileWrite dev pos n buf).1 = toInt32 cnt ∧
      ∀ s q, q < 512 → (blockFileWrite dev pos n buf).2.data s q =
        if pos / 512 ≤ s ∧ fc + 512 * (s - pos / 512) + q < cnt then
          buf (fc + 512 * (s - pos / 512) + q)
        else if s = pos / 512 ∧ pos % 512 ≤ q ∧ q < pos % 512 + fc then buf (q - pos % 512)
        else dev.data s q := by
  intro cnt fc
  unfold blockFileWrite
  simp only [Nat.mod_eq_of_lt hdev]
  by_cases hin : dev.numBlocks * 512 ≤ pos
  · have hcnt : cnt = 0 := available_of_le hin
    have hfc : fc ≤ cnt := (firstChunk_le pos cnt).1
    rw [if_pos hin, hcnt]
    refine ⟨rfl, ?_⟩
    intro s q _
    rw [if_neg (by omega), if_neg (by omega)]
  · rw [if_neg hin, clampCount_eq hpos]
    have hcnt : cnt < 2 ^ 32 := available_lt hdev
    have hfc : fc ≤ cnt := (firstChunk_le pos cnt).1
    have hnext : nextSector pos fc = pos / 512 := nextSector_firstChunk pos cnt 0
    by_cases halign : pos % 512 = 0
    · have hzero : fc = 0 := if_pos halign
      rw [if_pos halign]
      obtain ⟨hret, hdata⟩ := writeRest_spec buf h (show pos < 2 ^ 32 by omega) hcnt hfc
      rw [hzero] at hret hdata ⊢
      refine ⟨hret, ?_⟩
      intro s q hq
      rw [hdata s q hq]
      congr 1
      rw [if_neg (by omega)]
    · rw [if_neg halign]
      obtain ⟨hok, hhealthy, hfirst⟩ := rewrite_spec (pos % 512) fc buf h
        (show pos / 512 < 2 ^ 32 by omega)
      rw [if_pos hok]
      obtain ⟨hret, hdata⟩ := writeRest_spec buf hhealthy (show pos < 2 ^ 32 by omega) hcnt hfc
      rw [hnext] at hdata
      refine ⟨hret, ?_⟩
      intro s q hq
      rw [hdata s q hq, hfirst s q hq]

end Specs

/-- A transfer that fits into an `int` and starts or stays in one sector. -/
def Straight (numBlocks pos n : Nat) : Prop :=
  available numBlocks pos n < 2 ^ 31 ∧
    (pos % 512 = 0 ∨ pos % 512 + available numBlocks pos n ≤ 512)

instance : Decidable (Straight numBlocks pos n) :=
  inferInstanceAs (Decidable (_ ∧ _))

theorem Straight.firstChunk_eq (h : Straight numBlocks pos n) :
    pos % 512 = 0 ∧ firstChunk pos (available numBlocks pos n) = 0 ∨
      pos % 512 + available numBlocks pos n ≤ 512 ∧
        firstChunk pos (available numBlocks pos n) = available numBlocks pos n := by
  by_cases halign : pos % 512 = 0
  · exact Or.inl ⟨halign, if_pos halign⟩
  · right
    have hfits := h.2.resolve_left halign
    refine ⟨hfits, ?_⟩
    unfold firstChunk
    rw [if_neg halign]
    omega

theorem firstChunk_of_crossing
    (halign : pos % 512 ≠ 0) (hcross : 512 < pos % 512 + available numBlocks pos n) :
    firstChunk pos (available numBlocks pos n) = 512 - pos % 512 := by
  unfold firstChunk
  rw [if_neg halign]
  omega

/-- Every sector is filled with its number. -/
def stripedDisk (numBlocks : Nat) : Disk where
  data := fun s _ => BitVec.ofNat 8 s
  readOk := fun _ => true
  writeOk := fun _ => true
  numBlocks := numBlocks

@[simp]
theorem numBlocks_stripedDisk :
    (stripedDisk numBlocks).numBlocks = numBlocks := rfl

/-- Every byte is zero. -/
def blankDisk (numBlocks : Nat) : Disk where
  data := fun _ _ => 0#8
  readOk := fun _ => true
  writeOk := fun _ => true
  numBlocks := numBlocks

variable (hdev : numBlocks * 512 < 2 ^ 32) (hpos : pos + n < 2 ^ 32)
include hdev hpos

theorem ReadsRight.straight (h : ReadsRight numBlocks pos n) :
    Straight numBlocks pos n := by
  have hhealthy : (stripedDisk numBlocks).toBlockDevice.Healthy := ⟨fun _ => rfl, fun _ => rfl⟩
  obtain ⟨hret, hbytes⟩ := h (stripedDisk numBlocks) (fun _ => 0#8) rfl hhealthy
  obtain ⟨hret', hbytes'⟩ := blockFileRead_spec (fun _ => 0#8) hhealthy hdev hpos
  rw [hret] at hret'
  refine ⟨(toInt32_eq_iff (available_lt hdev)).mp hret'.symm, ?_⟩
  by_contra hcross
  obtain ⟨halign, hcross⟩ := not_or.mp hcross
  -- the first byte of the second sector comes from the first one
  have hchunk := firstChunk_of_crossing halign (by omega : 512 < _ + available numBlocks pos n)
  have hright := hbytes (512 - pos % 512)
  have hwrong := hbytes' (512 - pos % 512)
  rw [if_pos (by omega)] at hright
  simp only [numBlocks_stripedDisk, hchunk] at hwrong
  rw [if_neg (by omega), if_pos (by omega), hright] at hwrong
  unfold BlockDevice.byte at hwrong
  simp only [stripedDisk] at hwrong
  have hnat := congrArg BitVec.toNat hwrong
  simp only [BitVec.toNat_ofNat] at hnat
  omega

theorem Straight.reads (h : Straight numBlocks pos n) :
    ReadsRight numBlocks pos n := by
  intro dev buf hblocks hhealthy
  subst hblocks
  obtain ⟨hret, hbytes⟩ := blockFileRead_spec buf hhealthy hdev hpos
  refine ⟨hret.trans ((toInt32_eq_iff (available_lt hdev)).mpr h.1), ?_⟩
  intro q
  rw [hbytes q]
  rcases h.firstChunk_eq with ⟨halign, hzero⟩ | ⟨-, hall⟩
  · rw [hzero, if_neg (Nat.not_lt_zero q)]
    by_cases hq : q < available dev.numBlocks pos n
    · have hdiv : pos / 512 + (q - 0) / 512 = (pos + q) / 512 := by omega
      have hmod : (q - 0) % 512 = (pos + q) % 512 := by omega
      rw [if_pos hq, if_pos hq, hdiv, hmod]
      rfl
    · rw [if_neg hq, if_neg hq]
  · rw [hall]
    by_cases hq : q < available dev.numBlocks pos n
    · rw [if_pos hq, if_pos hq]
    · rw [if_neg hq, if_neg hq, if_neg hq]

theorem Straight.writes (h : Straight numBlocks pos n) :
    WritesRight numBlocks pos n := by
  intro dev buf hblocks hhealthy
  subst hblocks
  obtain ⟨hret, hbytes⟩ := blockFileWrite_spec buf hhealthy hdev hpos
  refine ⟨hret.trans ((toInt32_eq_iff (available_lt hdev)).mpr h.1), ?_⟩
  intro b
  have hb := hbytes (b / 512) (b % 512) (Nat.mod_lt _ (by decide))
  change (blockFileWrite dev pos n buf).2.byte b = _ at hb
  have hbyte : dev.data (b / 512) (b % 512) = dev.toBlockDevice.byte b := rfl
  rw [hb, hbyte]
  rcases h.firstChunk_eq with ⟨halign, hzero⟩ | ⟨hfits, hall⟩
  · rw [hzero]
    by_cases hin : pos ≤ b ∧ b < pos + available dev.numBlocks pos n
    · have hat : 0 + 512 * (b / 512 - pos / 512) + b % 512 = b - pos := by omega
      rw [if_pos hin, hat, if_pos (by omega)]
    · rw [if_neg hin, if_neg (by omega), if_neg (by omega)]
  · rw [if_neg (by omega)]
    by_cases hin : pos ≤ b ∧ b < pos + available dev.numBlocks pos n
    · have hat : b % 512 - pos % 512 = b - pos := by omega
      rw [if_pos hin, if_pos (by omega), hat]
    · rw [if_neg hin, if_neg (by omega)]

omit hdev hpos

/--
`block_file_read` and `block_file_write` transfer the right bytes exactly when the
transfer is at most `INT_MAX` bytes and starts at a sector or ends in the sector
where it starts.
-/
theorem blockFile_exact_iff
    (numBlocks pos n : Nat) (hdev : numBlocks * 512 < 2 ^ 32) (hpos : pos + n < 2 ^ 32) :
    ReadsRight numBlocks pos n ∧ WritesRight numBlocks pos n ↔ Straight numBlocks pos n := by
  constructor
  · intro h
    exact h.1.straight hdev hpos
  · intro h
    exact ⟨h.reads hdev hpos, h.writes hdev hpos⟩

theorem blockFile_exact_iff_aligned :
    Straight 4 512 600 ∧ (ReadsRight 4 512 600 ∧ WritesRight 4 512 600 ↔ Straight 4 512 600) :=
  ⟨by decide, blockFile_exact_iff 4 512 600 (by decide) (by decide)⟩

/--
512 bytes from position 1: the byte at 512 comes from sector 0 instead of sector 1,
and the byte at 0, in front of the position, is overwritten.
-/
theorem blockFile_crossing_wrong :
    (blockFileRead (stripedDisk 4) 1 512 (fun _ => 0#8)).2 511 = 0#8 ∧
      (stripedDisk 4).toBlockDevice.byte (1 + 511) = 1#8 ∧
      (blockFileWrite (blankDisk 4) 1 512 (fun _ => 1#8)).2.byte 0 = 1#8 ∧
      (blankDisk 4).toBlockDevice.byte 0 = 0#8 := by
  decide +kernel

end Files

end Block
end Homunculos
