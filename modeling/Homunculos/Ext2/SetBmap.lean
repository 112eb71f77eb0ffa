import Homunculos.Ext2.Volume

/-!
# Setting block pointers

`ext2_set_bmap` against `ext2_inode_bmap`.  A pointer of the inode, and one in
an indirect block that exists, is set and nothing else is.  A new indirect block
is taken from the allocator and is not cleared: all its other pointers are what
the block held before.
-/

namespace Homunculos
namespace Ext2

open Bytes Block

/-- The deeper pointer blocks are not the single indirect block. -/
def SingleApart (fs : Ext2Fs) (raw : Ext2Inode) : Prop :=
  raw.block 12 ≠ 0 → ∀ j, 12 + fs.ptrsPerBlock ≤ j → ∀ nr ∈ pointerBlocks fs raw j,
    fs.blockLba nr ≠ fs.blockLba (raw.block 12)

/-- The same file system, but for the bytes of the block that is allocated next. -/
def Recycled (fs fs₀ : Ext2Fs) : Prop :=
  fs₀ = fs ∨ (ext2AllocBlock fs).1 ≠ 0 ∧
    ∃ stale, PutBlock (ext2AllocBlock fs).1 stale fs fs₀

/-- If the call succeeds, one pointer is set and the others are what they were. -/
def SetBmapLaw (fs : Ext2Fs) (raw : Ext2Inode) (idx p : Nat) : Prop :=
  (ext2SetBmap fs raw idx p).1 = true →
    (ext2InodeBmap (ext2SetBmap fs raw idx p).2.2 (ext2SetBmap fs raw idx p).2.1 idx).1 = p ∧
    ∀ j, j ≠ idx →
      (ext2InodeBmap (ext2SetBmap fs raw idx p).2.2 (ext2SetBmap fs raw idx p).2.1 j).1 =
        (ext2InodeBmap fs raw j).1

section Pointers

variable {fs fs' : Ext2Fs} {raw : Ext2Inode} {idx nr i j p : Nat}

theorem bmap_eq (hsize : BlockSizeOk fs) (hhealthy : fs.dev.Healthy) (raw : Ext2Inode) (idx : Nat) :
    (ext2InodeBmap fs raw idx).1 = bmapOf fs raw idx := by
  obtain ⟨buf, hout⟩ := bmap_spec hsize hhealthy raw idx
  rw [hout]

theorem bmapOf_single (h : ¬ idx < 12) (h' : idx - 12 < fs.ptrsPerBlock) :
    bmapOf fs raw idx = fs.ptr (raw.block 12) (idx - 12) := by
  unfold bmapOf
  rw [route_single h h']
  rfl

theorem PutBlock.blockSizeOk
    {content : Nat → BitVec 8} (h : PutBlock nr content fs fs') (hsize : BlockSizeOk fs) :
    BlockSizeOk fs' := by
  unfold BlockSizeOk
  rw [h.blockSize]
  exact hsize

theorem PutBlock.ptrsPerBlock {content : Nat → BitVec 8} (h : PutBlock nr content fs fs') :
    fs'.ptrsPerBlock = fs.ptrsPerBlock := by
  unfold Ext2Fs.ptrsPerBlock
  rw [h.blockSize]

theorem PutBlock.ptr
    (h : PutBlock nr (putU32 (fs.diskByte nr) (4 * i) p) fs fs') (hsize : BlockSizeOk fs)
    (hj : j < fs.ptrsPerBlock) :
    fs'.ptr nr j = if j = i then p % 2 ^ 32 else fs.ptr nr j := by
  have hfits := hsize.pointer_fits hj
  have hdone : fs'.ptr nr j = pointer (putU32 (fs.diskByte nr) (4 * i) p) j :=
    pointer_congr h.done hfits
  rw [hdone]
  unfold pointer Ext2Fs.ptr pointer
  split
  · rename_i hji
    rw [hji, u32_putU32_self]
  · exact u32_putU32_of_apart (by omega)

theorem setBmap_direct_law
    (hsize : BlockSizeOk fs) (hhealthy : fs.dev.Healthy) (hidx : idx < 12) (hp : p < 2 ^ 32) :
    SetBmapLaw fs raw idx p := by
  unfold SetBmapLaw
  rw [setBmap_direct fs raw hidx p]
  intro _
  refine ⟨?_, ?_⟩
  · rw [bmap_eq hsize hhealthy, bmapOf_direct hidx, Ext2Inode.block_setBlock, if_pos rfl,
      Nat.mod_eq_of_lt hp]
  · intro j hj
    rw [bmap_eq hsize hhealthy, bmap_eq hsize hhealthy]
    refine (bmapOf_congr hsize rfl ?_ (fun _ _ _ _ => rfl)).1
    intro slot js hroute
    rw [Ext2Inode.block_setBlock, if_neg]
    rintro rfl
    -- only its own index uses a direct pointer
    by_cases hj12 : j < 12
    · rw [route_direct hj12, Option.some.injEq, Prod.mk.injEq] at hroute
      exact hj hroute.1
    · by_cases hsingle : j - 12 < fs.ptrsPerBlock
      · rw [route_single hj12 hsingle, Option.some.injEq, Prod.mk.injEq] at hroute
        omega
      · rcases route_deeper hj12 hsingle hroute with hslot | hslot
        · omega
        · omega

variable (hsize : BlockSizeOk fs) (hhealthy : fs.dev.Healthy) (hidx : ¬ idx < 12)
variable (hidx' : idx - 12 < fs.ptrsPerBlock) (hblock : raw.block 12 ≠ 0)
include hsize hhealthy hidx hidx' hblock

theorem setBmap_single :
    ∃ fs', ext2SetBmap fs raw idx p = (true, raw, fs') ∧
      PutBlock (raw.block 12)
        (putU32 (fs.diskByte (raw.block 12)) (4 * (idx - 12)) p) fs fs' := by
  obtain ⟨hread, hok, hput⟩ := rewrite_put fs hsize hhealthy (raw.block 12)
    (fun m => putU32 m (4 * (idx - 12)) p) (fun _ _ _ hq => putU32_congr hq)
  refine ⟨_, ?_, hput⟩
  unfold ext2SetBmap
  rw [dif_neg hidx, if_pos hidx', if_neg (fun hx => hblock hx.1)]
  rw [if_neg hblock, if_neg hblock]
  dsimp only
  rw [if_neg hblock, if_pos hread, hok]

theorem setBmap_single_law (hapart : SingleApart fs raw) (hp : p < 2 ^ 32) :
    SetBmapLaw fs raw idx p := by
  obtain ⟨fs', hout, hput⟩ := setBmap_single (p := p) hsize hhealthy hidx hidx' hblock
  have hsize' := hput.blockSizeOk hsize
  have hptrs := hput.ptrsPerBlock
  unfold SetBmapLaw
  rw [hout]
  intro _
  refine ⟨?_, ?_⟩
  · rw [bmap_eq hsize' hput.healthy, bmapOf_single hidx (by rw [hptrs]; exact hidx'),
      hput.ptr hsize hidx', if_pos rfl, Nat.mod_eq_of_lt hp]
  · intro j hj
    rw [bmap_eq hsize' hput.healthy, bmap_eq hsize hhealthy]
    by_cases hj12 : j < 12
    · rw [bmapOf_direct hj12, bmapOf_direct hj12]
    · by_cases hsingle : j - 12 < fs.ptrsPerBlock
      · rw [bmapOf_single hj12 (by rw [hptrs]; exact hsingle), bmapOf_single hj12 hsingle,
          hput.ptr hsize hsingle, if_neg (by omega)]
      · refine (bmapOf_congr hsize hput.blockSize (fun _ _ _ => rfl) ?_).1
        intro nr hnr q hq
        exact hput.frame nr q (hapart hblock j (by omega) nr hnr) hq

end Pointers

section NewBlock

variable {fs : Ext2Fs} {raw : Ext2Inode} {idx p : Nat}

theorem PutBlock.alloc_eq
    {fs₀ : Ext2Fs} {stale : Nat → BitVec 8} (hput : PutBlock (ext2AllocBlock fs).1 stale fs fs₀)
    (hv : Volume fs) (halloc : (ext2AllocBlock fs).1 ≠ 0) :
    Volume fs₀ ∧ (ext2AllocBlock fs₀).1 = (ext2AllocBlock fs).1 := by
  rcases hv.shows.allocBlock with ⟨hzero, -⟩ | ⟨-, -, hdata, -⟩
  · exact absurd hzero halloc
  · have hshows := hv.shows.putData hput hdata
    refine ⟨hshows.volume, ?_⟩
    exact hv.shows.alloc_congr (k := .block) hshows rfl (by rw [hput.sb])

theorem exists_stale (w : Nat) :
    ∃ c : BitVec 8, ∀ j, pointer (fun _ => c) j ≠ w := by
  have hzero : ∀ j, pointer (fun _ => 0#8) j = 0 := fun _ => rfl
  have hones : ∀ j, pointer (fun _ => 0xFF#8) j = 2 ^ 32 - 1 := by
    intro j
    simp [pointer, u32, u16]
  by_cases hw : w = 0
  · refine ⟨0xFF#8, ?_⟩
    intro j
    rw [hones j]
    omega
  · refine ⟨0#8, ?_⟩
    intro j
    rw [hzero j]
    omega

section Fresh

variable (hv : Volume fs) (hidx : ¬ idx < 12) (hidx' : idx - 12 < fs.ptrsPerBlock)
variable (hblock : raw.block 12 = 0) (hp : p ≠ 0) (halloc : (ext2AllocBlock fs).1 ≠ 0)
include hv halloc

theorem alloc_keeps_bytes {q : Nat} (hq : q < fs.blockSize) :
    (ext2AllocBlock fs).2.diskByte (ext2AllocBlock fs).1 q =
      fs.diskByte (ext2AllocBlock fs).1 q := by
  rcases hv.shows.allocBlock with ⟨hzero, -⟩ | ⟨-, -, hdata, hshows⟩
  · exact absurd hzero halloc
  · have hdata' := (hshows.dataBlocks _).mp hdata
    exact (hshows.data _ q hdata' (hshows.blockSize ▸ hq)).symm

include hidx hidx' hblock hp

theorem setBmap_new :
    ∃ fs', ext2SetBmap fs raw idx p =
        (true, raw.setBlock 12 (ext2AllocBlock fs).1, fs') ∧
      PutBlock (ext2AllocBlock fs).1
        (putU32 ((ext2AllocBlock fs).2.diskByte (ext2AllocBlock fs).1) (4 * (idx - 12)) p)
        (ext2AllocBlock fs).2 fs' := by
  have hi : InOrder (ext2AllocBlock fs).2 := (alloc_spec .block hv.inOrder).1
  obtain ⟨hread, hok, hput⟩ := rewrite_put (ext2AllocBlock fs).2 hi.layout.blockSize hi.healthy
    (ext2AllocBlock fs).1 (fun m => putU32 m (4 * (idx - 12)) p) (fun _ _ _ hq => putU32_congr hq)
  refine ⟨_, ?_, hput⟩
  unfold ext2SetBmap
  rw [dif_neg hidx, if_pos hidx', if_neg (fun hx => hp hx.2)]
  dsimp only
  rw [if_pos hblock, if_neg halloc, if_pos hblock, if_pos hread, hok]

theorem setBmap_new_bmap {j : Nat} (hj : j < fs.ptrsPerBlock) (hne : j ≠ idx - 12) :
    (ext2SetBmap fs raw idx p).1 = true ∧
      (ext2InodeBmap (ext2SetBmap fs raw idx p).2.2 (ext2SetBmap fs raw idx p).2.1
        (12 + j)).1 = fs.ptr (ext2AllocBlock fs).1 j := by
  obtain ⟨fs', hout, hput⟩ := setBmap_new hv hidx hidx' hblock hp halloc
  have hi : InOrder (ext2AllocBlock fs).2 := (alloc_spec .block hv.inOrder).1
  have hbs : (ext2AllocBlock fs).2.blockSize = fs.blockSize := by
    rcases hv.shows.allocBlock with ⟨hzero, -⟩ | ⟨-, -, -, hshows⟩
    · exact absurd hzero halloc
    · exact hshows.blockSize.symm
  have hptrs : (ext2AllocBlock fs).2.ptrsPerBlock = fs.ptrsPerBlock := by
    unfold Ext2Fs.ptrsPerBlock
    rw [hbs]
  have hsize := hi.layout.blockSize
  have hlt : (ext2AllocBlock fs).1 < 2 ^ 32 := by
    rcases hv.shows.allocBlock with ⟨hzero, -⟩ | ⟨-, -, hdata, -⟩
    · exact absurd hzero halloc
    · exact (((hv.shows.dataBlocks _).mp hdata).1).trans (u32_lt _ _)
  rw [hout]
  refine ⟨rfl, ?_⟩
  rw [bmap_eq (hput.blockSizeOk hsize) hput.healthy, bmapOf_single (by omega) (by
    rw [hput.ptrsPerBlock]
    omega), Ext2Inode.block_setBlock]
  rw [if_pos (show 12 = ((12 : Fin 15) : Nat) from rfl), Nat.mod_eq_of_lt hlt,
    Nat.add_sub_cancel_left, hput.ptr hsize (by omega), if_neg hne]
  apply pointer_congr (n := fs.blockSize)
  · intro q hq
    exact alloc_keeps_bytes hv halloc hq
  · exact hv.inOrder.layout.blockSize.pointer_fits hj

theorem setBmap_new_fails :
    ∃ fs₀, Recycled fs fs₀ ∧ ¬ SetBmapLaw fs₀ raw idx p := by
  have hsize := hv.inOrder.layout.blockSize
  have hptrs : 2 ≤ fs.ptrsPerBlock := by
    unfold Ext2Fs.ptrsPerBlock
    rcases hsize with h | h | h
    · omega
    · omega
    · omega
  -- another pointer of the same block
  obtain ⟨j, hj, hne⟩ : ∃ j, j < fs.ptrsPerBlock ∧ j ≠ idx - 12 := by
    by_cases hzero : idx - 12 = 0
    · exact ⟨1, by omega, by omega⟩
    · exact ⟨0, by omega, by omega⟩
  obtain ⟨c, hc⟩ := exists_stale (fs.ptr 0 j)
  obtain ⟨-, hput⟩ := writeBlock_put fs hsize hv.inOrder.healthy (ext2AllocBlock fs).1
    (fun _ => c)
  generalize (ext2WriteBlock fs (ext2AllocBlock fs).1 (fun _ => c)).2 = fs₀ at hput
  obtain ⟨hv0, halloc0⟩ := hput.alloc_eq hv halloc
  have hsize0 := hput.blockSizeOk hsize
  have hptrs0 := hput.ptrsPerBlock
  refine ⟨fs₀, Or.inr ⟨halloc, _, hput⟩, ?_⟩
  intro hlaw
  obtain ⟨hok, hnew⟩ := setBmap_new_bmap hv0 hidx (by omega) hblock hp
    (by rw [halloc0]; exact halloc) (show j < fs₀.ptrsPerBlock by omega) hne
  have hold := (hlaw hok).2 (12 + j) (by omega)
  rw [hnew, bmap_eq hsize0 hput.healthy, bmapOf_single (by omega) (by omega), hblock,
    Nat.add_sub_cancel_left, halloc0] at hold
  -- before, the pointer was read from block 0
  have hfits := hsize.pointer_fits hj
  have hstale : fs₀.ptr (ext2AllocBlock fs).1 j = pointer (fun _ => c) j :=
    pointer_congr hput.done hfits
  have hzero : fs₀.ptr 0 j = fs.ptr 0 j := by
    apply pointer_congr (n := fs.blockSize) _ hfits
    intro q hq
    apply hput.frame 0 q _ hq
    intro hlba
    rcases hv.shows.allocBlock with ⟨hz, -⟩ | ⟨-, -, hdata, -⟩
    · exact halloc hz
    · have hlt := ((hv.shows.dataBlocks _).mp hdata).1
      exact halloc (hv.lba_inj (by omega) hlt hlba).symm
  rw [hstale, hzero] at hold
  exact hc j hold

end Fresh

/--
For every index that `ext2_set_bmap` accepts and every block: a pointer is set
and no other, whatever an allocated block held, exactly if no indirect block has
to be allocated or none can be.
-/
theorem set_bmap_law_iff
    (hv : Volume fs) (raw : Ext2Inode) (idx p : Nat) (hidx : idx < 12 + fs.ptrsPerBlock)
    (hp : p ≠ 0) (hp' : p < 2 ^ 32) :
    (∀ fs₀, Recycled fs fs₀ → SingleApart fs₀ raw → SetBmapLaw fs₀ raw idx p) ↔
      (idx < 12 ∨ raw.block 12 ≠ 0 ∨ (ext2AllocBlock fs).1 = 0) := by
  have hsize := hv.inOrder.layout.blockSize
  constructor
  · intro hlaw
    by_contra hcond
    push Not at hcond
    obtain ⟨hge, hblock, halloc⟩ := hcond
    obtain ⟨fs₀, hrec, hfails⟩ := setBmap_new_fails hv (show ¬ idx < 12 by omega)
      (by omega) hblock hp halloc
    exact hfails (hlaw fs₀ hrec (fun hne => absurd hblock hne))
  · intro hcond fs₀ hrec hapart
    have hstatic : BlockSizeOk fs₀ ∧ fs₀.dev.Healthy ∧ fs₀.ptrsPerBlock = fs.ptrsPerBlock := by
      rcases hrec with rfl | ⟨-, stale, hput⟩
      · exact ⟨hsize, hv.inOrder.healthy, rfl⟩
      · exact ⟨hput.blockSizeOk hsize, hput.healthy, hput.ptrsPerBlock⟩
    obtain ⟨hsize0, hhealthy0, hptrs0⟩ := hstatic
    by_cases hdirect : idx < 12
    · exact setBmap_direct_law hsize0 hhealthy0 hdirect hp'
    · by_cases hblock : raw.block 12 = 0
      · have hzero : (ext2AllocBlock fs).1 = 0 :=
          (hcond.resolve_left hdirect).resolve_left (not_not.mpr hblock)
        rcases hrec with rfl | ⟨halloc, -⟩
        · intro hok
          unfold ext2SetBmap at hok
          rw [dif_neg hdirect, if_pos (by omega), if_neg (fun hx => hp hx.2)] at hok
          rw [if_pos hblock, if_pos hzero] at hok
          cases hok
        · exact absurd hzero halloc
      · exact setBmap_single_law hsize0 hhealthy0 hdirect (by omega) hblock hapart hp'

end NewBlock

/-- An inode whose only pointer is that to its single indirect block. -/
def singleRaw : Ext2Inode :=
  Ext2Inode.zero.setBlock 12 8

/-- Block 0 of the small image is full of 0xFF, so that the other trees lead out of the image. -/
theorem singleRaw_apart :
    SingleApart smallFs singleRaw := by
  intro _ j hj nr hnr
  have hptrs : smallFs.ptrsPerBlock = 256 := by decide +kernel
  have hptr : ∀ p ∈ [0, 0xFFFFFFFF], ∀ i, i < 256 → smallFs.ptr p i = 0xFFFFFFFF := by
    decide +kernel
  have hvisited : ∀ js : List Nat, (∀ i ∈ js, i < 256) → ∀ p ∈ [0, 0xFFFFFFFF],
      ∀ b ∈ visited smallFs js p, b ∈ [0, 0xFFFFFFFF] := by
    intro js
    induction js with
    | nil => exact fun _ _ _ b hb => absurd hb List.not_mem_nil
    | cons i js ih =>
      intro hjs p hp b hb
      rcases List.mem_cons.mp hb with rfl | hb
      · exact hp
      · rw [hptr p hp i (hjs i List.mem_cons_self)] at hb
        exact ih (fun i' hi' => hjs i' (List.mem_cons_of_mem _ hi')) _ (by decide) b hb
  have hlba : ∀ b ∈ [0, 0xFFFFFFFF],
      smallFs.blockLba b ≠ smallFs.blockLba (singleRaw.block 12) := by
    decide +kernel
  apply hlba
  unfold pointerBlocks at hnr
  cases hroute : route smallFs.ptrsPerBlock j with
  | none =>
    rw [hroute] at hnr
    cases hnr
  | some s =>
    obtain ⟨slot, js⟩ := s
    rw [hroute] at hnr
    have hslot : singleRaw.block slot = 0 := by
      rcases route_deeper (by omega) (by omega) hroute with rfl | rfl
      · decide +kernel
      · decide +kernel
    rw [hptrs] at hroute
    exact hvisited js (route_bounds hroute).2 0 (by decide) nr (hslot ▸ hnr)

/-- A pointer in the single indirect block. -/
theorem set_bmap_law_iff_small :
    (ext2SetBmap smallFs singleRaw 20 14).1 = true ∧ SetBmapLaw smallFs singleRaw 20 14 := by
  have hptrs : smallFs.ptrsPerBlock = 256 := by decide +kernel
  have hblock : singleRaw.block 12 ≠ 0 := by decide +kernel
  have hall := (set_bmap_law_iff smallFs_volume singleRaw 20 14
    (by omega) (by decide) (by decide)).mpr (Or.inr (Or.inl hblock))
  exact ⟨by decide +kernel, hall smallFs (Or.inl rfl) singleRaw_apart⟩

/-- Block 0 is empty, the free block 10 is not. Pointer 12 of an empty inode is set; pointer 13
was 0 and is now four bytes that block 10 held. -/
theorem set_bmap_leaves_stale :
    let fs := (ext2WriteBlock smallFs 0 (fun _ => 0#8)).2
    let r := ext2SetBmap fs Ext2Inode.zero 12 14
    r.1 = true ∧ (ext2InodeBmap r.2.2 r.2.1 12).1 = 14 ∧
      (ext2InodeBmap fs Ext2Inode.zero 13).1 = 0 ∧
      (ext2InodeBmap r.2.2 r.2.1 13).1 = 0xFFFFFFFF := by
  refine ⟨?_, ?_, ?_, ?_⟩
  · decide +kernel
  · decide +kernel
  · decide +kernel
  · decide +kernel

end Ext2
end Homunculos
