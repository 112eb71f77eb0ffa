import Homunculos.Ext2.FileData
import Homunculos.Lib.Paged

/-!
# Writing a file

What `ext2_inode_write` does to a volume, for a range inside the twelve direct
blocks.  One round finds or allocates a block and copies a part of the source
into it; `Written` says where the volume is after some bytes, and the loop keeps
it.  A block that is allocated for a hole keeps its old bytes around the part
that is written, and these become bytes of the file.
-/

namespace Homunculos
namespace Ext2

open Bytes Block Paged Function

/-- The blocks in use, the blocks of the file and what blocks hold. -/
def View.store (v : View) (raw : Ext2Inode) : Store (BitVec 8) :=
  ⟨v.used .block, raw.block, v.data⟩

/-- The direct blocks of an inode are different data blocks in use. -/
structure OwnsDirect (v : View) (raw : Ext2Inode) : Prop where
  used : ∀ i, i < 12 → raw.block i ≠ 0 → raw.block i ∈ v.used .block
  data : ∀ i, i < 12 → raw.block i ≠ 0 → raw.block i ∈ v.dataBlocks
  distinct : ∀ i j, i < 12 → j < 12 → raw.block i ≠ 0 → raw.block i = raw.block j → i = j

/-- A direct block of the inode is there, new if it was a hole. -/
structure Placed (v : View) (raw : Ext2Inode) (idx phys : Nat) (v' : View)
    (raw' : Ext2Inode) : Prop where
  ne_zero : phys ≠ 0
  block : raw'.block idx = phys
  others : ∀ i, i ≠ idx → raw'.block i = raw.block i
  head : ∀ q, q < 40 → raw'.bytes q = raw.bytes q
  old : raw.block idx ≠ 0 → phys = raw.block idx ∧ v' = v
  new : raw.block idx = 0 → phys ∉ v.used .block ∧ phys ∈ v.dataBlocks ∧
    v' = v.withUsed .block (insert phys (v.used .block))

/--
The volume after the first `k` bytes of `src` have been written to the file from
offset `off` on, with the inode in memory.
-/
structure Written
    (v₀ : View) (raw₀ : Ext2Inode) (off : Nat) (src : Nat → BitVec 8) (k : Nat) (v : View)
    (raw : Ext2Inode) : Prop where
  blockSize : v.blockSize = v₀.blockSize
  inodes : v.inodes = v₀.inodes
  dataBlocks : v.dataBlocks = v₀.dataBlocks
  inode : v.inode = v₀.inode
  usedInodes : v.used .inode = v₀.used .inode
  head : ∀ q, q < 40 → raw.bytes q = raw₀.bytes q
  kept : ∀ i, raw₀.block i ≠ 0 ∨ 12 ≤ i → raw.block i = raw₀.block i
  owns : OwnsDirect v raw
  fresh : ∀ i, i < 12 → raw₀.block i = 0 → raw.block i ≠ 0 →
    raw.block i ∉ v₀.used .block ∧ ∃ p, off ≤ p ∧ p < off + k ∧ p / v₀.blockSize = i
  used : ∀ b, b ∈ v.used .block ↔ b ∈ v₀.used .block ∨
    ∃ i, i < 12 ∧ raw₀.block i = 0 ∧ raw.block i ≠ 0 ∧ raw.block i = b
  covered : ∀ p, off ≤ p → p < off + k → raw.block (p / v₀.blockSize) ≠ 0
  data : ∀ p, p / v₀.blockSize < 12 → raw.block (p / v₀.blockSize) ≠ 0 →
    v.data (raw.block (p / v₀.blockSize)) (p % v₀.blockSize) =
      if off ≤ p ∧ p < off + k then src (p - off)
      else v₀.data (raw.block (p / v₀.blockSize)) (p % v₀.blockSize)
  frame : ∀ b, (∀ i, i < 12 → raw.block i ≠ 0 → raw.block i ≠ b) → v.data b = v₀.data b

section Round

variable {fs : Ext2Fs} {v v' v₀ : View} {raw raw' raw₀ : Ext2Inode} {idx phys off k : Nat}
variable {src : Nat → BitVec 8}

theorem OwnsDirect.congr (h : OwnsDirect v raw) (hused : v'.used .block = v.used .block)
    (hdata : v'.dataBlocks = v.dataBlocks) (hblock : ∀ i, raw'.block i = raw.block i) :
    OwnsDirect v' raw' := by
  refine ⟨?_, ?_, ?_⟩
  · intro i hi
    rw [hblock, hused]
    exact h.used i hi
  · intro i hi
    rw [hblock, hdata]
    exact h.data i hi
  · intro i j hi hj
    rw [hblock, hblock]
    exact h.distinct i j hi hj

theorem Written.start (h : OwnsDirect v raw) (off : Nat) (src : Nat → BitVec 8) :
    Written v raw off src 0 v raw where
  blockSize := rfl
  inodes := rfl
  dataBlocks := rfl
  inode := rfl
  usedInodes := rfl
  head := fun _ _ => rfl
  kept := fun _ _ => rfl
  owns := h
  fresh := fun _ _ hzero hne => absurd hzero hne
  used := by
    intro b
    constructor
    · exact Or.inl
    · rintro (hb | ⟨i, -, hzero, hne, -⟩)
      · exact hb
      · exact absurd hzero hne
  covered := fun p hp hp' => by omega
  data := by
    intro p _ _
    rw [if_neg (by omega)]
  frame := fun _ _ => rfl

theorem Shows.block_lt (h : Shows fs v) {b : Nat} (hb : b ∈ v.dataBlocks) :
    b < 2 ^ 32 :=
  ((h.dataBlocks b).mp hb).1.trans (u32_lt _ _)

theorem Shows.placed_new
    (h : Shows fs v) (raw : Ext2Inode) (hidx : idx < 12) (hzero : raw.block idx = 0)
    (hne : phys ≠ 0) (hnew : phys ∉ v.used .block) (hdata : phys ∈ v.dataBlocks) :
    Placed v raw idx phys (v.withUsed .block (insert phys (v.used .block)))
      (raw.setBlock ⟨idx, by omega⟩ phys) where
  ne_zero := hne
  block := by
    rw [Ext2Inode.block_setBlock, if_pos rfl, Nat.mod_eq_of_lt (h.block_lt hdata)]
  others := by
    intro i hi
    rw [Ext2Inode.block_setBlock, if_neg hi]
  head := fun q hq => putU32_of_apart (by omega)
  old := fun hne' => absurd hzero hne'
  new := fun _ => ⟨hnew, hdata, rfl⟩

theorem Placed.present (v : View) {raw : Ext2Inode} (hne : raw.block idx ≠ 0) :
    Placed v raw idx (raw.block idx) v raw where
  ne_zero := hne
  block := rfl
  others := fun _ _ => rfl
  head := fun _ _ => rfl
  old := fun _ => ⟨rfl, rfl⟩
  new := fun hzero => absurd hzero hne

theorem Placed.store_new (h : Placed v raw idx phys v' raw') (hzero : raw.block idx = 0) :
    ⟨insert phys (v.used .block), update raw.block idx phys, v.data⟩ = v'.store raw' := by
  obtain ⟨-, -, rfl⟩ := h.new hzero
  congr 1
  funext i
  by_cases hi : i = idx
  · rw [hi, update_self, h.block]
  · rw [update_of_ne hi, h.others i hi]

theorem placeBlock_spec (h : Shows fs v) (raw : Ext2Inode) (hidx : idx < 12) :
    (∃ fs', placeBlock fs raw idx = (none, raw, fs') ∧ Shows fs' v ∧
      (∀ b ∈ v.dataBlocks, b ∈ v.used .block) ∧ (v.store raw).place v.dataBlocks idx = none) ∨
    ∃ phys v' raw' fs', placeBlock fs raw idx = (some phys, raw', fs') ∧
      Placed v raw idx phys v' raw' ∧ Shows fs' v' ∧
      (v.store raw).place v.dataBlocks idx = some (v'.store raw') := by
  have hi := h.volume.inOrder
  obtain ⟨buf, hbmap⟩ := bmap_spec hi.layout.blockSize hi.healthy raw idx
  rw [bmapOf_direct hidx] at hbmap
  have hbuf := h.withBuf buf
  unfold placeBlock
  rw [hbmap]
  by_cases hzero : raw.block idx = 0
  · rw [if_pos hzero]
    rcases hbuf.allocBlock with ⟨hnone, hshows, hfull⟩ | ⟨hne, hnew, hdata, hshows⟩
    · rw [if_pos hnone]
      exact Or.inl ⟨_, rfl, hshows, hfull, (if_neg (not_not.mpr hzero)).trans (if_pos hfull)⟩
    · right
      rw [if_neg hne, setBmap_direct _ raw hidx _]
      have hplaced := hbuf.placed_new raw hidx hzero hne hnew hdata
      refine ⟨_, _, _, _, rfl, hplaced, hshows, ?_⟩
      rw [Store.place_new (s := v.store raw) hzero hnew hdata
        (fun n hlt => show n ∈ v.used .block from
          hbuf.used .block ▸ alloc_least hbuf.volume.inOrder (Nat.zero_le n) hlt)]
      exact congrArg some (hplaced.store_new hzero)
  · rw [if_neg hzero]
    exact Or.inr ⟨_, v, _, _, rfl, Placed.present v hzero, hbuf, Store.place_of_page hzero⟩

theorem toCopy_eq (bs blockOffset size : Nat) :
    toCopy bs blockOffset size = min (bs - blockOffset) size := by
  unfold toCopy
  split
  · omega
  · rfl

theorem storeBlock_spec
    (h : Shows fs v) (hphys : phys ∈ v.dataBlocks) (src : Nat → BitVec 8) (blockOffset size : Nat) :
    ∃ fs', storeBlock fs phys src blockOffset size = (true, fs') ∧
      Shows fs' (v.withData phys (copy (v.data phys) blockOffset src
        (toCopy v.blockSize blockOffset size))) := by
  have hi := h.volume.inOrder
  have hdata := (h.dataBlocks phys).mp hphys
  rw [h.blockSize]
  unfold storeBlock
  by_cases hfull : blockOffset = 0 ∧ fs.blockSize ≤ size
  · rw [if_pos hfull]
    obtain ⟨hok, hput⟩ := writeBlock_put fs hi.layout.blockSize hi.healthy phys src
    have hput' : PutBlock phys (copy (v.data phys) blockOffset src
        (toCopy fs.blockSize blockOffset size)) fs (ext2WriteBlock fs phys src).2 := by
      refine ⟨hput.sb, hput.blockSize, hput.bgdescBlock, hput.bgdescCount, hput.healthy, ?_,
        hput.frame⟩
      intro q hq
      rw [hput.done q hq, toCopy_eq, copy_inside (by omega) (by omega), hfull.1, Nat.sub_zero]
    exact ⟨_, Prod.ext hok rfl, h.putData hput' hphys⟩
  · rw [if_neg hfull]
    obtain ⟨hread, hok, hput⟩ := rewrite_put fs hi.layout.blockSize hi.healthy phys
      (fun m => copy m blockOffset src (toCopy fs.blockSize blockOffset size))
      (fun _ _ _ hq => copy_congr hq)
    rw [if_pos hread]
    refine ⟨_, Prod.ext hok rfl, h.putData ?_ hphys⟩
    refine ⟨hput.sb, hput.blockSize, hput.bgdescBlock, hput.bgdescCount, hput.healthy, ?_,
      hput.frame⟩
    intro q hq
    rw [hput.done q hq]
    exact copy_congr (h.data phys q hdata hq).symm

theorem in_block_iff {bs pos c p : Nat} (hc : c ≤ bs - pos % bs) :
    (pos ≤ p ∧ p < pos + c) ↔
      (p / bs = pos / bs ∧ pos % bs ≤ p % bs ∧ p % bs < pos % bs + c) := by
  constructor
  · rintro ⟨hle, hlt⟩
    obtain ⟨hdiv, hmod⟩ := same_block (show p - pos < bs - pos % bs by omega)
    rw [Nat.add_sub_cancel' hle] at hdiv hmod
    omega
  · rintro ⟨hdiv, hle, hlt⟩
    have hp := Nat.div_add_mod p bs
    have hpos := Nat.div_add_mod pos bs
    rw [hdiv] at hp
    omega

variable (h : Placed v raw idx phys v' raw')
include h

theorem Placed.view :
    v'.blockSize = v.blockSize ∧ v'.inodes = v.inodes ∧ v'.dataBlocks = v.dataBlocks ∧
      v'.inode = v.inode ∧ v'.used .inode = v.used .inode ∧ v'.data = v.data := by
  by_cases hzero : raw.block idx = 0
  · obtain ⟨-, -, rfl⟩ := h.new hzero
    refine ⟨rfl, rfl, rfl, rfl, ?_, rfl⟩
    exact v.used_withUsed_of_ne (show Kind.inode ≠ Kind.block by decide) _
  · obtain ⟨-, rfl⟩ := h.old hzero
    exact ⟨rfl, rfl, rfl, rfl, rfl, rfl⟩

variable (howns : OwnsDirect v raw)
include howns

theorem Placed.data_mem (hidx : idx < 12) :
    phys ∈ v.dataBlocks := by
  by_cases hzero : raw.block idx = 0
  · exact (h.new hzero).2.1
  · rw [(h.old hzero).1]
    exact howns.data idx hidx hzero

theorem Placed.mem_used (hidx : idx < 12) (b : Nat) :
    b ∈ v'.used .block ↔ b ∈ v.used .block ∨ b = phys := by
  by_cases hzero : raw.block idx = 0
  · obtain ⟨-, -, rfl⟩ := h.new hzero
    exact or_comm
  · obtain ⟨hphys, rfl⟩ := h.old hzero
    constructor
    · exact Or.inl
    · rintro (hb | rfl)
      · exact hb
      · rw [hphys]
        exact howns.used idx hidx hzero

theorem Placed.other_ne (hidx : idx < 12) {i : Nat} (hi : i < 12) (hne : i ≠ idx) :
    raw.block i ≠ phys := by
  intro heq
  have hi0 : raw.block i ≠ 0 := heq ▸ h.ne_zero
  by_cases hzero : raw.block idx = 0
  · exact (h.new hzero).1 (heq ▸ howns.used i hi hi0)
  · rw [(h.old hzero).1] at heq
    exact hne (howns.distinct i idx hi hidx hi0 heq)

theorem Placed.owns (hidx : idx < 12) :
    OwnsDirect v' raw' := by
  refine ⟨?_, ?_, ?_⟩
  · intro i hi hne
    rw [h.mem_used howns hidx]
    by_cases hii : i = idx
    · subst hii
      exact Or.inr h.block
    · rw [h.others i hii] at hne ⊢
      exact Or.inl (howns.used i hi hne)
  · intro i hi hne
    rw [h.view.2.2.1]
    by_cases hii : i = idx
    · subst hii
      rw [h.block]
      exact h.data_mem howns hidx
    · rw [h.others i hii] at hne ⊢
      exact howns.data i hi hne
  · intro i j hi hj hne heq
    by_cases hii : i = idx
    · by_cases hjj : j = idx
      · rw [hii, hjj]
      · rw [hii, h.block, h.others j hjj] at heq
        exact absurd heq.symm (h.other_ne howns hidx hj hjj)
    · by_cases hjj : j = idx
      · rw [hjj, h.block, h.others i hii] at heq
        exact absurd heq (h.other_ne howns hidx hi hii)
      · rw [h.others i hii] at hne heq
        rw [h.others j hjj] at heq
        exact howns.distinct i j hi hj hne heq

omit howns h

theorem Written.hole (h : Written v₀ raw₀ off src k v raw) (hzero : raw.block idx = 0) :
    raw₀.block idx = 0 := by
  by_contra hne
  exact hne ((h.kept idx (Or.inl hne)).symm.trans hzero)

theorem Written.placed_data
    (h : Written v₀ raw₀ off src k v raw) (hplaced : Placed v raw idx phys v' raw')
    (hidx : idx < 12) {p : Nat} (hp : p / v₀.blockSize = idx) :
    v.data phys (p % v₀.blockSize) =
      if off ≤ p ∧ p < off + k then src (p - off) else v₀.data phys (p % v₀.blockSize) := by
  by_cases hzero : raw.block idx = 0
  · -- a new block has not been written before
    obtain ⟨hnew, -, -⟩ := hplaced.new hzero
    have hout : ¬ (off ≤ p ∧ p < off + k) := by
      rintro ⟨hle, hlt⟩
      have hcov := h.covered p hle hlt
      rw [hp] at hcov
      exact hcov hzero
    rw [if_neg hout, h.frame phys]
    intro i hi hne heq
    exact hnew (heq ▸ h.owns.used i hi hne)
  · obtain ⟨hphys, -⟩ := hplaced.old hzero
    have hdata := h.data p (by omega) (by rw [hp]; exact hzero)
    rw [hp] at hdata
    rw [hphys]
    exact hdata

theorem Written.step (h : Written v₀ raw₀ off src k v raw) (hplaced : Placed v raw idx phys v' raw')
    (hidx : idx < 12) (hpos : (off + k) / v₀.blockSize = idx) {c : Nat} (hc0 : 0 < c)
    (hc : c ≤ v₀.blockSize - (off + k) % v₀.blockSize) :
    Written v₀ raw₀ off src (k + c)
      (v'.withData phys (copy (v.data phys) ((off + k) % v₀.blockSize)
        (fun j => src (k + j)) c)) raw' := by
  obtain ⟨hbs, hinodes, hdataBlocks, hinode, husedInodes, hdata⟩ := hplaced.view
  have hother : ∀ i, i < 12 → i ≠ idx → raw.block i ≠ phys :=
    fun i hi hne => hplaced.other_ne h.owns hidx hi hne
  have hrange : ∀ p, off + k ≤ p → p < off + (k + c) → p / v₀.blockSize = idx := by
    intro p hle hlt
    rw [← hpos]
    exact ((in_block_iff hc).mp ⟨hle, by omega⟩).1
  refine ⟨hbs.trans h.blockSize, hinodes.trans h.inodes, hdataBlocks.trans h.dataBlocks,
    hinode.trans h.inode, husedInodes.trans h.usedInodes, ?_, ?_,
    ⟨(hplaced.owns h.owns hidx).used, (hplaced.owns h.owns hidx).data,
      (hplaced.owns h.owns hidx).distinct⟩, ?_, ?_, ?_, ?_, ?_⟩
  · intro q hq
    exact (hplaced.head q hq).trans (h.head q hq)
  · intro i hi
    have hkept := h.kept i hi
    by_cases hii : i = idx
    · rw [hii] at hi hkept ⊢
      have hne : raw.block idx ≠ 0 := by
        rw [hkept]
        exact hi.resolve_right (by omega)
      rw [hplaced.block, (hplaced.old hne).1, hkept]
    · rw [hplaced.others i hii, hkept]
  · intro i hi hzero hne
    by_cases hii : i = idx
    · subst hii
      rw [hplaced.block]
      by_cases hhole : raw.block i = 0
      · refine ⟨?_, off + k, by omega, by omega, hpos⟩
        intro hmem
        exact (hplaced.new hhole).1 ((h.used phys).mpr (Or.inl hmem))
      · obtain ⟨hnew, p, hp, hp', hpi⟩ := h.fresh i hi hzero hhole
        rw [(hplaced.old hhole).1]
        exact ⟨hnew, p, hp, by omega, hpi⟩
    · rw [hplaced.others i hii] at hne ⊢
      obtain ⟨hnew, p, hp, hp', hpi⟩ := h.fresh i hi hzero hne
      exact ⟨hnew, p, hp, by omega, hpi⟩
  · intro b
    change b ∈ v'.used .block ↔ _
    rw [hplaced.mem_used h.owns hidx, h.used b]
    constructor
    · rintro ((hb | ⟨i, hi, hzero, hne, hib⟩) | rfl)
      · exact Or.inl hb
      · refine Or.inr ⟨i, hi, hzero, ?_⟩
        by_cases hii : i = idx
        · subst hii
          rw [hplaced.block, (hplaced.old hne).1]
          exact ⟨hne, hib⟩
        · rw [hplaced.others i hii]
          exact ⟨hne, hib⟩
      · by_cases hhole : raw.block idx = 0
        · exact Or.inr ⟨idx, hidx, h.hole hhole, hplaced.block ▸ hplaced.ne_zero, hplaced.block⟩
        · have hmem := h.owns.used idx hidx hhole
          rw [← (hplaced.old hhole).1, h.used] at hmem
          rcases hmem with hmem | ⟨i, hi, hzero, hne, hib⟩
          · exact Or.inl hmem
          · have hii : i = idx := by
              by_contra hii
              exact hother i hi hii hib
            rw [hii] at hzero
            exact Or.inr ⟨idx, hidx, hzero, hplaced.block ▸ hplaced.ne_zero, hplaced.block⟩
    · rintro (hb | ⟨i, hi, hzero, hne, hib⟩)
      · exact Or.inl (Or.inl hb)
      · by_cases hii : i = idx
        · rw [hii, hplaced.block] at hib
          exact Or.inr hib.symm
        · rw [hplaced.others i hii] at hne hib
          exact Or.inl (Or.inr ⟨i, hi, hzero, hne, hib⟩)
  · intro p hp hp'
    by_cases hpi : p / v₀.blockSize = idx
    · rw [hpi, hplaced.block]
      exact hplaced.ne_zero
    · rw [hplaced.others _ hpi]
      apply h.covered p hp
      by_contra hlt
      exact hpi (hrange p (by omega) hp')
  · intro p hp12 hne
    by_cases hpi : p / v₀.blockSize = idx
    · rw [hpi, hplaced.block]
      rw [View.data_withData]
      by_cases hin : off + k ≤ p ∧ p < off + k + c
      · obtain ⟨-, hle, hlt⟩ := (in_block_iff hc).mp hin
        have hmod : k + (p % v₀.blockSize - (off + k) % v₀.blockSize) = p - off := by
          have hp := Nat.div_add_mod p v₀.blockSize
          have hq := Nat.div_add_mod (off + k) v₀.blockSize
          rw [hpi] at hp
          rw [hpos] at hq
          omega
        rw [copy_inside hle hlt, hmod, if_pos (by omega)]
      · have hout : ¬ ((off + k) % v₀.blockSize ≤ p % v₀.blockSize ∧
            p % v₀.blockSize < (off + k) % v₀.blockSize + c) := by
          intro hx
          exact hin ((in_block_iff hc).mpr ⟨hpi.trans hpos.symm, hx⟩)
        rw [copy_outside (by omega), h.placed_data hplaced hidx hpi]
        exact if_congr (by omega) rfl rfl
    · rw [hplaced.others _ hpi] at hne ⊢
      rw [View.data_withData_of_ne _ (hother _ hp12 hpi), hdata, h.data p hp12 hne]
      have hout : ¬ (off + k ≤ p ∧ p < off + (k + c)) := fun hx => hpi (hrange p hx.1 hx.2)
      exact if_congr (by omega) rfl rfl
  · intro b hb
    have hphys : b ≠ phys := by
      intro heq
      exact hb idx hidx (hplaced.block ▸ hplaced.ne_zero) (hplaced.block.trans heq.symm)
    rw [View.data_withData_of_ne _ hphys, hdata]
    apply h.frame
    intro i hi hne
    by_cases hii : i = idx
    · subst hii
      rw [← (hplaced.old hne).1]
      exact hphys.symm
    · have hb' := hb i hi
      rw [hplaced.others i hii] at hb'
      exact hb' hne

end Round

section Loop

variable {fs : Ext2Fs} {v v₀ : View} {raw raw₀ : Ext2Inode} {off k : Nat}
variable {src src' : Nat → BitVec 8}

theorem Placed.puts {bs pos c : Nat} {pages : Set Nat} (h : Placed v raw (pos / bs) phys v' raw')
    (hplace : (v.store raw).place pages (pos / bs) = some (v'.store raw')) (src : Nat → BitVec 8)
    (hfits : pos % bs + (c + 1) ≤ bs) :
    (v.store raw).puts bs pages pos ((List.range (c + 1)).map src) =
      (c + 1, (v'.withData phys (copy (v.data phys) (pos % bs) src (c + 1))).store raw') := by
  have hpage := Store.puts_page hplace (show raw'.block _ ≠ 0 from h.block ▸ h.ne_zero) src hfits
  rw [Nat.div_add_mod] at hpage
  rw [hpage, ← h.view.2.2.2.2.2, ← h.block]
  rfl

/--
The loop writes all the rest, or it stops when every data block is in use.
-/
theorem writeLoop_spec
    {n size : Nat} (hn : size ≤ n) (hshows : Shows fs v) (h : Written v₀ raw₀ off src k v raw)
    (hsrc : ∀ j, src' j = src (k + j)) (hfits : off + k + size ≤ 12 * v₀.blockSize) :
    ∃ k' v' raw' fs', writeLoop n fs raw src' (off + k) size = (off + k', raw', fs') ∧
      k ≤ k' ∧ k' ≤ k + size ∧ Shows fs' v' ∧ Written v₀ raw₀ off src k' v' raw' ∧
      (k' < k + size → ∀ b ∈ v'.dataBlocks, b ∈ v'.used .block) ∧
      (v.store raw).puts v₀.blockSize v₀.dataBlocks (off + k) ((List.range size).map src') =
        (k' - k, v'.store raw') := by
  induction n generalizing fs v raw k size src' with
  | zero =>
    have hzero : size = 0 := by omega
    subst hzero
    exact ⟨k, v, raw, fs, rfl, le_refl k, le_refl k, hshows, h, fun hlt => by omega,
      by rw [Nat.sub_self]; rfl⟩
  | succ n ih =>
    by_cases hzero : size = 0
    · subst hzero
      exact ⟨k, v, raw, fs, rfl, le_refl k, le_refl k, hshows, h, fun hlt => by omega,
        by rw [Nat.sub_self]; rfl⟩
    · have hbs : fs.blockSize = v₀.blockSize := hshows.blockSize.symm.trans h.blockSize
      have hsize := hshows.volume.inOrder.layout.blockSize
      have hbpos : 0 < v₀.blockSize := hbs ▸ hsize.pos
      have hble : v₀.blockSize ≤ 4096 := hbs ▸ hshows.volume.inOrder.layout.blockSize_le
      have hmod := Nat.mod_lt (off + k) hbpos
      have hidx : (off + k) / v₀.blockSize < 12 := by
        rw [Nat.div_lt_iff_lt_mul hbpos]
        omega
      rw [writeLoop, if_neg hzero, hbs]
      rcases placeBlock_spec hshows raw hidx with
        ⟨fs1, hout, hshows1, hfull, hnone⟩ | ⟨phys, v1, raw1, fs1, hout, hplaced, hshows1, hsome⟩
      · rw [hout]
        refine ⟨k, v, raw, fs1, rfl, le_refl k, by omega, hshows1, h, fun _ => hfull, ?_⟩
        rw [Nat.sub_self]
        exact Store.puts_of_none (h.dataBlocks ▸ hnone) _
      · rw [hout]
        have hbs1 : v1.blockSize = v₀.blockSize := hplaced.view.1.trans h.blockSize
        have hphys : phys ∈ v1.dataBlocks := by
          rw [hplaced.view.2.2.1]
          exact hplaced.data_mem h.owns hidx
        obtain ⟨fs2, hstore, hshows2⟩ := storeBlock_spec hshows1 hphys src'
          ((off + k) % v₀.blockSize) size
        obtain ⟨c, hc⟩ : ∃ c, toCopy v₀.blockSize ((off + k) % v₀.blockSize) size = c := ⟨_, rfl⟩
        have hc' := toCopy_eq v₀.blockSize ((off + k) % v₀.blockSize) size
        rw [hbs1, hc, hplaced.view.2.2.2.2.2, show src' = fun j => src (k + j) from funext hsrc]
          at hshows2
        have hstep := h.step hplaced hidx rfl (show 0 < c by omega) (by omega)
        have hblock1 : fs1.blockSize = v₀.blockSize := hshows1.blockSize.symm.trans hbs1
        have hsrc' : ∀ j, src' (c + j) = src (k + c + j) := by
          intro j
          rw [hsrc, Nat.add_assoc]
        obtain ⟨k', v', raw', fs', hloop, hle, hle', hshows', hwritten, hstop, hputs⟩ :=
          ih (show size - c ≤ n by omega) hshows2 hstep hsrc' (by omega)
        refine ⟨k', v', raw', fs', ?_, by omega, by omega, hshows', hwritten, ?_, ?_⟩
        · dsimp only
          rw [hblock1, hstore]
          rw [hc, show (off + k + c) % 2 ^ 32 = off + (k + c) by omega]
          exact hloop
        · intro hlt
          exact hstop (by omega)
        · -- the bytes of this round, and those of the rounds that follow
          obtain ⟨d, rfl⟩ : ∃ d, c = d + 1 := ⟨c - 1, by omega⟩
          have hround := hplaced.puts (h.dataBlocks ▸ hsome) src'
            (show (off + k) % v₀.blockSize + (d + 1) ≤ v₀.blockSize by omega)
          rw [show src' = fun j => src (k + j) from funext hsrc] at hround hputs ⊢
          rw [show size = d + 1 + (size - (d + 1)) by omega, List.range_add, List.map_append,
            Store.puts_append, hround, List.map_map]
          rw [show off + k + (d + 1) = off + (k + (d + 1)) by omega]
          refine (congrArg (fun r => (d + 1 + r.1, r.2)) hputs).trans ?_
          rw [show d + 1 + (k' - (k + (d + 1))) = k' - k by omega]

theorem Written.keeps (h : Written v₀ raw₀ off src k v raw) {b : Nat} (hused : b ∈ v₀.used .block)
    (hapart : ∀ i, i < 12 → raw₀.block i ≠ 0 → raw₀.block i ≠ b) :
    v.data b = v₀.data b := by
  apply h.frame
  intro i hi hne heq
  by_cases hzero : raw₀.block i = 0
  · exact (h.fresh i hi hzero hne).1 (heq ▸ hused)
  · rw [h.kept i (Or.inl hzero)] at heq
    exact hapart i hi hzero heq

theorem Written.size (h : Written v₀ raw₀ off src k v raw) :
    raw.size = raw₀.size :=
  u32_congr (fun j hj => h.head (4 + j) (by omega))

theorem Written.block_of_zero (h : Written v₀ raw₀ off src 0 v raw) (i : Nat) :
    raw.block i = raw₀.block i := by
  by_cases hkept : raw₀.block i ≠ 0 ∨ 12 ≤ i
  · exact h.kept i hkept
  · push Not at hkept
    by_contra hne
    rw [hkept.1] at hne
    obtain ⟨-, p, hp, hp', -⟩ := h.fresh i hkept.2 hkept.1 hne
    omega

end Loop

section Call

variable {fs : Ext2Fs} {v : View} {raw : Ext2Inode} {no off size : Nat} {inode : VfsInode}

theorem size_grown (fs : Ext2Fs) (raw : Ext2Inode) {pos : Nat} (hpos : pos < 2 ^ 32) :
    (grown fs raw pos).size = max raw.size pos := by
  unfold grown
  rw [Ext2Inode.size_setBlocks]
  split
  · rw [Ext2Inode.size_setSize]
    omega
  · omega

theorem block_grown (fs : Ext2Fs) (raw : Ext2Inode) (pos i : Nat) :
    (grown fs raw pos).block i = raw.block i := by
  unfold grown
  rw [Ext2Inode.block_setBlocks]
  split
  · exact raw.block_setSize i pos
  · rfl

/-- The inode that a write leaves on the device. -/
structure WrittenInode (raw₀ raw : Ext2Inode) (off n : Nat) (final : Ext2Inode) : Prop where
  block : ∀ i, final.block i = raw.block i
  size : final.size = if 0 < n then max raw₀.size (off + n) else raw₀.size
  mode : final.mode = raw₀.mode
  links : final.links = raw₀.links

theorem Written.grown {v₀ : View} {raw₀ : Ext2Inode} {src : Nat → BitVec 8} {n : Nat}
    (h : Written v₀ raw₀ off src n v raw) (hn : 0 < n) (hfits : off + n < 2 ^ 32) (fs : Ext2Fs) :
    WrittenInode raw₀ raw off n (Ext2.grown fs raw (off + n)) := by
  have hhead : ∀ q, q < 4 ∨ 8 ≤ q ∧ q < 28 →
      (Ext2.grown fs raw (off + n)).bytes q = raw₀.bytes q := by
    intro q hq
    rw [← h.head q (by omega)]
    refine (putU32_of_apart (by omega)).trans ?_
    split
    · exact putU32_of_apart (by omega)
    · rfl
  refine ⟨block_grown fs raw (off + n), ?_, ?_, ?_⟩
  · rw [if_pos hn, size_grown fs raw hfits, h.size]
  · exact u16_congr (fun j hj => hhead (0 + j) (by omega))
  · exact u16_congr (fun j hj => hhead (26 + j) (by omega))

/--
`ext2_inode_write` in the direct blocks of a file: the bytes are written as far as
there are blocks, and the inode is written back.
-/
theorem inodeWrite_spec
    (h : Shows fs v) (htype : inode.iType = .file) (hdata : inode.privateData = some no)
    (hno : fs.IsInode no) (howns : OwnsDirect v (v.inode no)) (buf : Nat → BitVec 8)
    (hsize : 0 < size) (hfits : off + size ≤ 12 * v.blockSize) :
    ∃ n v' raw' final inode' fs',
      ext2InodeWrite fs inode off buf size = (some n, inode', fs') ∧ n ≤ size ∧
      Written v (v.inode no) off buf n v' raw' ∧
      WrittenInode (v.inode no) raw' off n final ∧
      Shows fs' (v'.withInode no final) ∧
      (n < size → ∀ b ∈ v'.dataBlocks, b ∈ v'.used .block) ∧
      (v.store (v.inode no)).puts v.blockSize v.dataBlocks off ((List.range size).map buf) =
        (n, v'.store raw') := by
  obtain ⟨buf1, hread⟩ := h.readInode hno
  have hle : v.blockSize ≤ 4096 := by
    rw [h.blockSize]
    exact h.volume.inOrder.layout.blockSize_le
  obtain ⟨n, v', raw', fs', hloop, -, hn, hshows, hwritten, hfull, hputs⟩ :=
    writeLoop_spec (le_refl size) (h.withBuf buf1) (Written.start howns off buf)
      (fun j => by rw [Nat.zero_add]) (by omega)
  rw [Nat.zero_add] at hn hfull
  rw [Nat.add_zero] at hloop hputs
  have hcount : (off + n + (2 ^ 32 - off)) % 2 ^ 32 = n := by omega
  unfold ext2InodeWrite
  rw [if_neg (by simp [htype]), hdata]
  dsimp only
  rw [hread]
  dsimp only
  rw [if_neg (by omega), hloop]
  rw [hcount]
  by_cases hzero : 0 < n
  · rw [if_pos hzero]
    have hno' : fs'.IsInode no := by
      have hcount' : fs'.sb.inodesCount = fs.sb.inodesCount := by
        rw [← hshows.inodes, ← h.inodes, hwritten.inodes]
      refine ⟨hno.1, ?_⟩
      rw [hcount']
      exact hno.2
    obtain ⟨-, hshows'⟩ := hshows.writeInode hno' (Ext2.grown fs' raw' (off + n))
    exact ⟨n, v', raw', _, _, _, rfl, hn, hwritten, hwritten.grown hzero (by omega) fs', hshows',
      hfull, hputs⟩
  · have hn0 : n = 0 := by omega
    subst hn0
    refine ⟨0, v', raw', v.inode no, _, _, rfl, hn, hwritten, ⟨?_, rfl, rfl, rfl⟩, ?_, hfull, hputs⟩
    · intro i
      exact (hwritten.block_of_zero i).symm
    · have hsame : v'.withInode no (v.inode no) = v' := by
        rw [← hwritten.inode]
        unfold View.withInode
        rw [update_eq_self]
      rw [hsame]
      exact hshows

/-- What a write leaves out of a block that it allocates, it was not asked to write. -/
theorem Written.not_asked {v₀ : View} {raw₀ : Ext2Inode} {src : Nat → BitVec 8} {n pos : Nat}
    {pages : Set Nat} (h : Written v₀ raw₀ off src n v raw)
    (hputs : (v₀.store raw₀).puts v₀.blockSize pages off ((List.range size).map src) =
      (n, v.store raw))
    (hhole : raw₀.block (pos / v₀.blockSize) = 0) (hnew : raw.block (pos / v₀.blockSize) ≠ 0)
    (hpos : pos / v₀.blockSize < 12) (hout : ¬ (off ≤ pos ∧ pos < off + n)) :
    ¬ (off ≤ pos ∧ pos < off + size) := by
  rintro ⟨hle, hlt⟩
  -- the write stops before this position, at an index without a block
  have hstop : ((v₀.store raw₀).puts v₀.blockSize pages off ((List.range size).map src)).1 <
      ((List.range size).map src).length := by
    rw [hputs, List.length_map, List.length_range]
    omega
  have hzero := Store.page_of_puts_lt hstop
  rw [hputs] at hzero
  obtain ⟨-, q, hq, hq', hidx⟩ := h.fresh _ hpos hhole hnew
  have hge := Nat.div_le_div_right (c := v₀.blockSize) (show off + n ≤ pos by omega)
  have hge' := Nat.div_le_div_right (c := v₀.blockSize) (show q ≤ off + n by omega)
  rw [hidx] at hge'
  exact hnew (le_antisymm hge hge' ▸ hzero)

/-- A volume has room as pages do: what is free and no data block is no block at all. -/
theorem Volume.roomy (h : Volume fs) (raw : Ext2Inode) :
    Store.Roomy fs.view.dataBlocks (fs.view.store raw) where
  zero := h.zero_used
  endless := by
    refine (Set.Ici_infinite fs.sb.blocksCount).mono ?_
    intro n hn hused
    exact Nat.not_lt.mpr hn (h.used_lt hused)
  above := by
    intro b c hb hdata hc
    exact lt_of_lt_of_le hc.1 (Nat.not_lt.mp (fun hlt => hdata (h.data_of_unused hlt hb)))

/--
The block for a hole: the free one with as many free ones below it as a write that starts at
`off` meets holes before.
-/
noncomputable def newBlock (fs : Ext2Fs) (raw : Ext2Inode) (off idx : Nat) : Nat :=
  Nat.nth (· ∉ usedNumbers .block fs)
    ((Finset.Ico (off / fs.blockSize) idx).filter (fun i => raw.block i = 0)).card

theorem Volume.written_block (h : Volume fs) {raw' : Ext2Inode} {v' : View} {n idx : Nat}
    {buf : Nat → BitVec 8}
    (hputs : (fs.view.store raw).puts fs.blockSize fs.view.dataBlocks off
      ((List.range size).map buf) = (n, v'.store raw')) (hhole : raw.block idx = 0) (b : Nat) :
    raw'.block idx = b ∧ b ≠ 0 ↔ (∃ q, off ≤ q ∧ q < off + size ∧ q / fs.blockSize = idx) ∧
      b = newBlock fs raw off idx ∧ b < fs.sb.blocksCount := by
  have hblock : raw'.block = ((fs.view.store raw).puts fs.blockSize fs.view.dataBlocks off
      ((List.range size).map buf)).2.page := by
    rw [hputs]
    rfl
  rw [hblock]
  refine ((h.roomy raw).page_puts hhole _ b).trans ?_
  rw [List.length_map, List.length_range]
  refine and_congr_right (fun _ => and_congr_right ?_)
  rintro rfl
  exact ⟨fun hdata => hdata.1, fun hlt => h.data_of_unused hlt ((h.roomy raw).fresh_free _)⟩

end Call

end Ext2
end Homunculos
