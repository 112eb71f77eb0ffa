import Homunculos.Ext2.Inode

/-!
# Block pointers

`ext2_inode_bmap` and `ext2_set_bmap`.  A block index is resolved from one of
the fifteen pointers of the inode, through as many pointer blocks as the pointer
is indirect.  On a device without errors the result is what the pointers on the
device say; `walk` is the same with the rule that a zero pointer is a hole at
every level.
-/

namespace Homunculos
namespace Ext2

open Bytes Block

/-- `EXT2_PTRS_PER_BLOCK` -/
def Ext2Fs.ptrsPerBlock (fs : Ext2Fs) : Nat :=
  fs.blockSize / 4

/-- `((uint32_t *) buf)[j]` -/
def pointer (buf : Nat → BitVec 8) (j : Nat) : Nat :=
  u32 buf (4 * j)

/-- The pointer of the inode and the indices at each level for a block index. -/
def route (ptrs idx : Nat) : Option (Nat × List Nat) :=
  if idx < 12 then
    some (idx, [])
  else if idx - 12 < ptrs then
    some (12, [idx - 12])
  else if idx - 12 - ptrs < ptrs * ptrs then
    let i := idx - 12 - ptrs
    some (13, [i / ptrs, i % ptrs])
  else if idx - 12 - ptrs - ptrs * ptrs < ptrs * ptrs * ptrs then
    let i := idx - 12 - ptrs - ptrs * ptrs
    let rest := i % (ptrs * ptrs)
    some (14, [i / (ptrs * ptrs), rest / ptrs, rest % ptrs])
  else
    none

/-- Read pointer blocks into `ext2_buf` one after the other; 0 when one fails. -/
def follow : List Nat → Nat → Ext2Fs → Nat × Ext2Fs
  | [], p, fs => (p, fs)
  | j :: js, p, fs =>
    let r := fs.readBuf p
    if r.1 then
      follow js (pointer r.2.buf j) r.2
    else
      (0, r.2)

def ext2InodeBmap (fs : Ext2Fs) (raw : Ext2Inode) (idx : Nat) : Nat × Ext2Fs :=
  match route fs.ptrsPerBlock idx with
  | none => (0, fs)
  | some (slot, js) => follow js (raw.block slot) fs

/-- `ext2_set_bmap`: whether it succeeds, the inode and the file system. -/
def ext2SetBmap (fs : Ext2Fs) (raw : Ext2Inode) (idx physBlock : Nat) : Bool × Ext2Inode × Ext2Fs :=
  if h : idx < 12 then
    (true, raw.setBlock ⟨idx, by omega⟩ physBlock, fs)
  else if idx - 12 < fs.ptrsPerBlock then
    if raw.block 12 = 0 ∧ physBlock = 0 then
      (true, raw, fs)
    else
      let a := if raw.block 12 = 0 then ext2AllocBlock fs else (raw.block 12, fs)
      if a.1 = 0 then
        (false, raw, a.2)
      else
        let raw := if raw.block 12 = 0 then raw.setBlock 12 a.1 else raw
        let r := a.2.readBuf a.1
        if r.1 then
          let w := (r.2.withBuf (putU32 r.2.buf (4 * (idx - 12)) physBlock)).writeBuf a.1
          (w.1, raw, w.2)
        else
          (false, raw, r.2)
  else
    (false, raw, fs)

theorem setBmap_direct
    (fs : Ext2Fs) (raw : Ext2Inode) {idx : Nat} (hidx : idx < 12) (physBlock : Nat) :
    ext2SetBmap fs raw idx physBlock =
      (true, raw.setBlock ⟨idx, by omega⟩ physBlock, fs) := by
  unfold ext2SetBmap
  rw [dif_pos hidx]

/-- Pointer `j` of a block on the device. -/
def Ext2Fs.ptr (fs : Ext2Fs) (nr j : Nat) : Nat :=
  pointer (fs.diskByte nr) j

/-- Follow the pointers on the device, whatever they are. -/
def chase (fs : Ext2Fs) : List Nat → Nat → Nat
  | [], p => p
  | j :: js, p => chase fs js (fs.ptr p j)

/-- The blocks that are read on the way. -/
def visited (fs : Ext2Fs) : List Nat → Nat → List Nat
  | [], _ => []
  | j :: js, p => p :: visited fs js (fs.ptr p j)

/-- Follow the pointers of a sparse tree: a zero pointer is a hole. -/
def sparse (fs : Ext2Fs) : List Nat → Nat → Nat
  | [], p => p
  | j :: js, p => if p = 0 then 0 else sparse fs js (fs.ptr p j)

/-- The pointer that `ext2_inode_bmap` finds on the device. -/
def bmapOf (fs : Ext2Fs) (raw : Ext2Inode) (idx : Nat) : Nat :=
  match route fs.ptrsPerBlock idx with
  | none => 0
  | some (slot, js) => chase fs js (raw.block slot)

/-- The walk of the sparse pointer tree. -/
def walk (fs : Ext2Fs) (raw : Ext2Inode) (idx : Nat) : Nat :=
  match route fs.ptrsPerBlock idx with
  | none => 0
  | some (slot, js) => sparse fs js (raw.block slot)

/-- The pointer blocks that `ext2_inode_bmap` reads. -/
def pointerBlocks (fs : Ext2Fs) (raw : Ext2Inode) (idx : Nat) : List Nat :=
  match route fs.ptrsPerBlock idx with
  | none => []
  | some (slot, js) => visited fs js (raw.block slot)

/-- The pointers of the direct, single, double and triple trees. -/
inductive PointerSlot (ptrs : Nat) : Nat × List Nat → Prop
  | direct {n : Nat} (hn : n < 12) : PointerSlot ptrs (n, [])
  | single {i : Nat} (hi : i < ptrs) : PointerSlot ptrs (12, [i])
  | double {i j : Nat} (hi : i < ptrs) (hj : j < ptrs) : PointerSlot ptrs (13, [i, j])
  | triple {i j k : Nat} (hi : i < ptrs) (hj : j < ptrs) (hk : k < ptrs) :
      PointerSlot ptrs (14, [i, j, k])

/-- The place of a pointer among all of them. -/
def slotIndex (ptrs : Nat) : Nat × List Nat → Nat
  | (n, []) => n
  | (_, [i]) => 12 + i
  | (_, [i, j]) => 12 + ptrs + (ptrs * i + j)
  | (_, i :: j :: k :: _) =>
    12 + ptrs + ptrs * ptrs + (ptrs * ptrs * i + (ptrs * j + k))

section Route

variable {ptrs idx slot : Nat} {js : List Nat}

theorem route_slot (h : route ptrs idx = some (slot, js)) :
    PointerSlot ptrs (slot, js) ∧ slotIndex ptrs (slot, js) = idx := by
  unfold route at h
  split at h
  · obtain ⟨rfl, rfl⟩ := h
    exact ⟨.direct (by omega), rfl⟩
  split at h
  · rename_i hsingle
    obtain ⟨rfl, rfl⟩ := h
    refine ⟨.single hsingle, ?_⟩
    rw [slotIndex]
    omega
  split at h
  · rename_i hdouble
    obtain ⟨rfl, rfl⟩ := h
    have hpos : 0 < ptrs := Nat.pos_of_mul_pos_right (Nat.zero_lt_of_lt hdouble)
    refine ⟨.double (Nat.div_lt_of_lt_mul hdouble) (Nat.mod_lt _ hpos), ?_⟩
    rw [slotIndex]
    rw [Nat.div_add_mod]
    omega
  split at h
  · rename_i htriple
    obtain ⟨rfl, rfl⟩ := h
    have hsquare : 0 < ptrs * ptrs := Nat.pos_of_mul_pos_right (Nat.zero_lt_of_lt htriple)
    have hpos : 0 < ptrs := Nat.pos_of_mul_pos_right hsquare
    have hrest := Nat.mod_lt (idx - 12 - ptrs - ptrs * ptrs) hsquare
    refine ⟨.triple (Nat.div_lt_of_lt_mul htriple) (Nat.div_lt_of_lt_mul hrest)
      (Nat.mod_lt _ hpos), ?_⟩
    rw [slotIndex]
    rw [Nat.div_add_mod, Nat.div_add_mod]
    omega
  · cases h

theorem route_bounds (h : route ptrs idx = some (slot, js)) :
    slot < 15 ∧ ∀ j ∈ js, j < ptrs := by
  cases (route_slot h).1 with
  | direct hn => exact ⟨by omega, by simp⟩
  | single hi => exact ⟨by decide, by simpa using hi⟩
  | double hi hj => exact ⟨by decide, by simpa using ⟨hi, hj⟩⟩
  | triple hi hj hk => exact ⟨by decide, by simpa using ⟨hi, hj, hk⟩⟩

theorem route_direct (h : idx < 12) :
    route ptrs idx = some (idx, []) := by
  unfold route
  rw [if_pos h]

theorem route_single (h : ¬ idx < 12) (h' : idx - 12 < ptrs) :
    route ptrs idx = some (12, [idx - 12]) := by
  unfold route
  rw [if_neg h, if_pos h']

theorem route_deeper
    (h : ¬ idx < 12) (h' : ¬ idx - 12 < ptrs) (hroute : route ptrs idx = some (slot, js)) :
    slot = 13 ∨ slot = 14 := by
  unfold route at hroute
  rw [if_neg h, if_neg h'] at hroute
  split at hroute
  · simp only [Option.some.injEq, Prod.mk.injEq] at hroute
    exact Or.inl hroute.1.symm
  split at hroute
  · simp only [Option.some.injEq, Prod.mk.injEq] at hroute
    exact Or.inr hroute.1.symm
  · cases hroute

end Route

/-- A product and a difference that do not wrap in 32 bits. -/
def mul32 (a b : Nat) : Option Nat :=
  if a * b < 2 ^ 32 then some (a * b) else none

def sub32 (a b : Nat) : Option Nat :=
  if b ≤ a then some (a - b) else none

/-- The index arithmetic of `ext2_inode_bmap`, with every product and difference checked. -/
def routeChecked (ptrs idx : Nat) : Option (Option (Nat × List Nat)) :=
  if idx < 12 then
    some (some (idx, []))
  else do
    let idx ← sub32 idx 12
    if idx < ptrs then
      return some (12, [idx])
    let idx ← sub32 idx ptrs
    let doublyCount ← mul32 ptrs ptrs
    if idx < doublyCount then
      return some (13, [idx / ptrs, idx % ptrs])
    let idx ← sub32 idx doublyCount
    let square ← mul32 ptrs ptrs
    let triplyCount ← mul32 square ptrs
    if idx < triplyCount then
      let rest := idx % square
      return some (14, [idx / square, rest / ptrs, rest % ptrs])
    return none

section Order

variable {ptrs idx : Nat} {s t : Nat × List Nat}

theorem routeChecked_eq (hptrs : ptrs ≤ 1024) (idx : Nat) :
    routeChecked ptrs idx = some (route ptrs idx) := by
  have hsquare : ptrs * ptrs ≤ 1024 * 1024 := Nat.mul_le_mul hptrs hptrs
  have hcube : ptrs * ptrs * ptrs ≤ 1024 * 1024 * 1024 := Nat.mul_le_mul hsquare hptrs
  have hmul : mul32 ptrs ptrs = some (ptrs * ptrs) := if_pos (by omega)
  have hmul' : mul32 (ptrs * ptrs) ptrs = some (ptrs * ptrs * ptrs) := if_pos (by omega)
  have hsub : ∀ {a b : Nat}, ¬ a < b → sub32 a b = some (a - b) :=
    fun h => if_pos (Nat.le_of_not_lt h)
  unfold routeChecked route
  split
  · rfl
  rename_i hdirect
  simp only [hsub hdirect, Option.bind_eq_bind, Option.bind_some]
  split
  · rfl
  rename_i hsingle
  simp only [hsub hsingle, hmul, Option.bind_some]
  split
  · rfl
  rename_i hdouble
  simp only [hsub hdouble, hmul', Option.bind_some]
  split
  · rfl
  · rfl

theorem digit_lt {base a b x y : Nat} (hx : x < base) (h : a < b ∨ a = b ∧ x < y) :
    base * a + x < base * b + y := by
  rcases h with hlt | ⟨rfl, hxy⟩
  · have hle := Nat.mul_le_mul_left base (Nat.succ_le_of_lt hlt)
    rw [Nat.mul_succ] at hle
    omega
  · omega

theorem slotIndex_lt (hs : PointerSlot ptrs s) (ht : PointerSlot ptrs t)
    (h : toLex s < toLex t) :
    slotIndex ptrs s < slotIndex ptrs t := by
  rw [Prod.Lex.toLex_lt_toLex] at h
  cases hs with
  | direct hn =>
    cases ht <;> simp [slotIndex] at h ⊢ <;> omega
  | single hi =>
    cases ht <;> simp [slotIndex, List.cons_lt_cons_iff] at h ⊢ <;> omega
  | double hi hj =>
    have hbound := digit_lt hj (Or.inl hi) (y := 0)
    cases ht with
    | double hi' hj' =>
      have hdigits := digit_lt hj (by simpa [List.cons_lt_cons_iff] using h)
      simp only [slotIndex]
      omega
    | _ => simp [slotIndex] at h ⊢ <;> omega
  | triple hi hj hk =>
    have hrest : ptrs * _ + _ < ptrs * ptrs := digit_lt hk (Or.inl hj) (y := 0)
    cases ht with
    | triple hi' hj' hk' =>
      have hdigits := digit_lt hrest ((Or.imp_right (And.imp_right (digit_lt hk)))
        (by simpa [List.cons_lt_cons_iff] using h))
      simp only [slotIndex]
      omega
    | _ => simp at h <;> omega

/-- The block indices that have a pointer. -/
def blockSpan (ptrs : Nat) : Nat :=
  12 + ptrs + ptrs ^ 2 + ptrs ^ 3

theorem blockSpan_eq (ptrs : Nat) :
    blockSpan ptrs = 12 + ptrs + ptrs * ptrs + ptrs * ptrs * ptrs := by
  unfold blockSpan
  ring

theorem slotIndex_lt_span (hs : PointerSlot ptrs s) :
    slotIndex ptrs s < blockSpan ptrs := by
  rw [blockSpan_eq]
  cases hs with
  | direct hn =>
    simp only [slotIndex]
    omega
  | single hi =>
    simp only [slotIndex]
    omega
  | double hi hj =>
    have hbound := digit_lt hj (Or.inl hi) (y := 0)
    simp only [slotIndex]
    omega
  | triple hi hj hk =>
    have hrest : ptrs * _ + _ < ptrs * ptrs := digit_lt hk (Or.inl hj) (y := 0)
    have hbound := digit_lt hrest (Or.inl hi) (y := 0)
    simp only [slotIndex]
    omega

theorem route_isSome_iff :
    (route ptrs idx).isSome ↔ idx < blockSpan ptrs := by
  rw [blockSpan_eq]
  unfold route
  split_ifs <;> simp <;> omega

theorem route_of_lt (h : idx < blockSpan ptrs) :
    ∃ s, route ptrs idx = some s ∧ PointerSlot ptrs s ∧ slotIndex ptrs s = idx := by
  obtain ⟨s, hroute⟩ := Option.isSome_iff_exists.mp (route_isSome_iff.mpr h)
  exact ⟨s, hroute, route_slot hroute⟩

theorem slotIndex_inj (hs : PointerSlot ptrs s) (ht : PointerSlot ptrs t)
    (h : slotIndex ptrs s = slotIndex ptrs t) :
    s = t := by
  rcases lt_trichotomy (toLex s) (toLex t) with hlt | heq | hgt
  · have hlt' := slotIndex_lt hs ht hlt
    omega
  · exact toLex.injective heq
  · have hgt' := slotIndex_lt ht hs hgt
    omega

theorem route_bijOn (ptrs : Nat) :
    Set.BijOn (route ptrs) {i | i < blockSpan ptrs} (some '' {s | PointerSlot ptrs s}) := by
  refine ⟨?_, ?_, ?_⟩
  · intro i hi
    obtain ⟨s, hroute, hs, -⟩ := route_of_lt hi
    exact ⟨s, hs, hroute.symm⟩
  · intro i hi j hj heq
    obtain ⟨s, hroute, hs, rfl⟩ := route_of_lt hi
    obtain ⟨t, hroute', ht, rfl⟩ := route_of_lt hj
    rw [hroute, hroute'] at heq
    rw [Option.some.inj heq]
  · rintro _ ⟨s, hs, rfl⟩
    obtain ⟨t, hroute, ht, hsame⟩ := route_of_lt (slotIndex_lt_span hs)
    exact ⟨_, slotIndex_lt_span hs, hroute.trans (congrArg some (slotIndex_inj ht hs hsame))⟩

theorem route_lt {i j : Nat} (hij : i < j) (hj : j < blockSpan ptrs) :
    ∃ s t, route ptrs i = some s ∧ route ptrs j = some t ∧ toLex s < toLex t := by
  obtain ⟨s, hroute, hs, rfl⟩ := route_of_lt (hij.trans hj)
  obtain ⟨t, hroute', ht, rfl⟩ := route_of_lt hj
  refine ⟨s, t, hroute, hroute', ?_⟩
  rcases lt_trichotomy (toLex s) (toLex t) with hlt | heq | hgt
  · exact hlt
  · rw [toLex.injective heq] at hij
    exact absurd hij (lt_irrefl _)
  · exact absurd (slotIndex_lt ht hs hgt) hij.asymm

/--
The index arithmetic takes the block indices below `12 + p + p² + p³` one to one, and in
order, to the pointers of the four trees, without a product or difference that wraps, and
every other index to the pointer 0.
-/
theorem bmap_index_exact (hptrs : ptrs = 256 ∨ ptrs = 512 ∨ ptrs = 1024) :
    Set.BijOn (route ptrs) {i | i < 12 + ptrs + ptrs ^ 2 + ptrs ^ 3}
        (some '' {s | PointerSlot ptrs s}) ∧
      (∀ i j, i < j → j < 12 + ptrs + ptrs ^ 2 + ptrs ^ 3 →
        ∃ s t, route ptrs i = some s ∧ route ptrs j = some t ∧ toLex s < toLex t) ∧
      (∀ i, routeChecked ptrs i = some (route ptrs i)) ∧
      ∀ (fs : Ext2Fs) (raw : Ext2Inode) (i : Nat), fs.ptrsPerBlock = ptrs →
        12 + ptrs + ptrs ^ 2 + ptrs ^ 3 ≤ i → ext2InodeBmap fs raw i = (0, fs) := by
  refine ⟨route_bijOn ptrs, fun i j => route_lt, routeChecked_eq (by omega), ?_⟩
  rintro fs raw i rfl hi
  have hnone : route fs.ptrsPerBlock i = none := by
    rw [← Option.not_isSome_iff_eq_none, route_isSome_iff]
    exact not_lt.mpr hi
  unfold ext2InodeBmap
  rw [hnone]

/-- The last block index of a file system with blocks of 1024 bytes. -/
theorem bmap_index_exact_small :
    ∃ s, PointerSlot 256 s ∧ route 256 16843019 = some s := by
  obtain ⟨s, hs, hroute⟩ := (bmap_index_exact (Or.inl rfl)).1.mapsTo
    (show 16843019 < 12 + 256 + 256 ^ 2 + 256 ^ 3 by decide)
  exact ⟨s, hs, hroute.symm⟩

end Order

section Values

variable {fs fs' : Ext2Fs} {raw raw' : Ext2Inode} {idx : Nat} {js : List Nat} {p : Nat}

theorem BlockSizeOk.pointer_fits (h : BlockSizeOk fs) {j : Nat} (hj : j < fs.ptrsPerBlock) :
    4 * j + 4 ≤ fs.blockSize := by
  unfold Ext2Fs.ptrsPerBlock at hj
  rcases h with h | h | h
  · omega
  · omega
  · omega

/-- Pointer `j` of two blocks is the same if their bytes are. -/
theorem pointer_congr
    {b b' : Nat → BitVec 8} {n j : Nat} (h : ∀ q, q < n → b q = b' q) (hj : 4 * j + 4 ≤ n) :
    pointer b j = pointer b' j :=
  u32_congr (fun i hi => h (4 * j + i) (by omega))

theorem follow_spec
    (hsize : BlockSizeOk fs) (hhealthy : fs.dev.Healthy) (hjs : ∀ j ∈ js, j < fs.ptrsPerBlock)
    (p : Nat) (buf : Nat → BitVec 8) :
    ∃ buf', follow js p (fs.withBuf buf) = (chase fs js p, fs.withBuf buf') := by
  induction js generalizing p buf with
  | nil => exact ⟨buf, rfl⟩
  | cons j js ih =>
    have hread := readBuf_healthy (fs.withBuf buf) hhealthy p
    have hj := hsize.pointer_fits (hjs j List.mem_cons_self)
    have hword : pointer ((fs.withBuf buf).readBuf p).2.buf j = fs.ptr p j :=
      pointer_congr (fun q hq => readBuf_done (fs.withBuf buf) hsize hread hq) hj
    obtain ⟨buf', hrest⟩ := ih (fun j' hj' => hjs j' (List.mem_cons_of_mem _ hj'))
      (fs.ptr p j) ((fs.withBuf buf).readBuf p).2.buf
    refine ⟨buf', ?_⟩
    rw [follow]
    rw [if_pos hread, hword]
    exact hrest

/-- `ext2_inode_bmap` without device errors. -/
theorem bmap_spec
    (hsize : BlockSizeOk fs) (hhealthy : fs.dev.Healthy) (raw : Ext2Inode) (idx : Nat) :
    ∃ buf', ext2InodeBmap fs raw idx = (bmapOf fs raw idx, fs.withBuf buf') := by
  unfold ext2InodeBmap bmapOf
  cases hroute : route fs.ptrsPerBlock idx with
  | none => exact ⟨fs.buf, rfl⟩
  | some sj =>
    obtain ⟨slot, js⟩ := sj
    exact follow_spec hsize hhealthy (route_bounds hroute).2 (raw.block slot) fs.buf

theorem chase_congr (hsize : BlockSizeOk fs) (hjs : ∀ j ∈ js, j < fs.ptrsPerBlock)
    (hsame : ∀ nr ∈ visited fs js p, ∀ q, q < fs.blockSize → fs'.diskByte nr q = fs.diskByte nr q) :
    chase fs' js p = chase fs js p ∧ visited fs' js p = visited fs js p := by
  induction js generalizing p with
  | nil => exact ⟨rfl, rfl⟩
  | cons j js ih =>
    have hj := hsize.pointer_fits (hjs j List.mem_cons_self)
    have hword : fs'.ptr p j = fs.ptr p j :=
      pointer_congr (hsame p List.mem_cons_self) hj
    obtain ⟨hchase, hvisited⟩ := ih (p := fs.ptr p j)
      (fun j' hj' => hjs j' (List.mem_cons_of_mem _ hj'))
      (fun nr hnr => hsame nr (List.mem_cons_of_mem _ hnr))
    rw [chase, visited, hword, hchase, hvisited]
    exact ⟨rfl, rfl⟩

theorem bmapOf_congr (hsize : BlockSizeOk fs) (hblock : fs'.blockSize = fs.blockSize)
    (hslot : ∀ slot js, route fs.ptrsPerBlock idx = some (slot, js) →
      raw'.block slot = raw.block slot)
    (hsame : ∀ nr ∈ pointerBlocks fs raw idx, ∀ q, q < fs.blockSize →
      fs'.diskByte nr q = fs.diskByte nr q) :
    bmapOf fs' raw' idx = bmapOf fs raw idx ∧
      pointerBlocks fs' raw' idx = pointerBlocks fs raw idx := by
  have hptrs : fs'.ptrsPerBlock = fs.ptrsPerBlock := by
    unfold Ext2Fs.ptrsPerBlock
    rw [hblock]
  unfold bmapOf pointerBlocks at *
  rw [hptrs]
  cases hroute : route fs.ptrsPerBlock idx with
  | none => exact ⟨rfl, rfl⟩
  | some sj =>
    obtain ⟨slot, js⟩ := sj
    rw [hroute] at hsame
    dsimp only
    rw [hslot slot js hroute]
    exact chase_congr hsize (route_bounds hroute).2 hsame

theorem bmapOf_direct (h : idx < 12) :
    bmapOf fs raw idx = raw.block idx := by
  unfold bmapOf
  rw [route_direct h]
  rfl

theorem pointerBlocks_direct (h : idx < 12) :
    pointerBlocks fs raw idx = [] := by
  unfold pointerBlocks
  rw [route_direct h]
  rfl

theorem sparse_eq :
    sparse fs js p = if 0 ∈ visited fs js p then 0 else chase fs js p := by
  induction js generalizing p with
  | nil => simp [sparse, visited, chase]
  | cons j js ih =>
    rw [sparse, visited, chase]
    by_cases hp : p = 0
    · simp [hp]
    · rw [if_neg hp, ih]
      simp [Ne.symm hp]

theorem walk_eq :
    walk fs raw idx = if 0 ∈ pointerBlocks fs raw idx then 0 else bmapOf fs raw idx := by
  unfold walk pointerBlocks bmapOf
  cases hroute : route fs.ptrsPerBlock idx with
  | none => simp
  | some sj => exact sparse_eq

end Values

end Ext2
end Homunculos
