import CopcConverter.Octree.Int32Keys
import CopcConverter.Octree.NodeMap

/-!
# Routing points to chunks

`build_chunk_lut` turns a chunk plan into a table over the fine cells of the counting grid, and
`distribute` reads that table to find the chunk of every point.  A cell is touched by the chunks of
one emitting voxel only, so the entry of the cell is decided by them: the index of the chunk that
covers it, or the marker together with the index of the first of its sub-chunks.  Every point of a
counted cell is therefore routed to the one chunk whose voxel contains it, as long as chunk indices
fit the 32 bits of a table entry.
-/

namespace CopcConverter

open CubeGrid LevelTree

/-! ## The table -/

/-- Sentinel entry meaning that the fine cell was split into deeper sub-chunks: `u32::MAX - 1`. -/
def subsplitMarker : UInt32 := 4294967294

/-- Entry of a cell that no chunk covers: `u32::MAX`. -/
def uncovered : UInt32 := 4294967295

/-- How deep the sub-chunks of a split cell live, and the index of the first of them. -/
structure SubSplit where
  k : ℕ
  base : UInt32

/-- Cell → chunk routing table built from a chunk plan. -/
structure ChunkLut where
  cells : ℕ → UInt32
  sub : ℕ → Option SubSplit

/-- Local octant index of a deeper sub-chunk voxel within its ancestor cell. -/
def subOctantIndex (gx gy gz k : ℕ) : UInt32 :=
  let mask := 1 <<< k - 1
  let sx := gx &&& mask
  let sy := gy &&& mask
  let sz := gz &&& mask
  UInt32.ofNat sx + UInt32.ofNat (sy <<< k) + UInt32.ofNat (sz <<< (2 * k))

/-- Enter one chunk of the plan into the table. -/
def placeChunk (plan : ChunkPlan) (lut : ChunkLut) (e : PlannedChunk × ℕ) : ChunkLut :=
  let chunk := e.1
  let chunkIdx := UInt32.ofNat e.2
  let g := plan.gridSize
  if plan.gridDepth < chunk.level then
    let k := chunk.level - plan.gridDepth
    let cellIdx := flat g (chunk.gx >>> k, chunk.gy >>> k, chunk.gz >>> k)
    let octant := subOctantIndex chunk.gx chunk.gy chunk.gz k
    let base := chunkIdx - octant
    { cells := Function.update lut.cells cellIdx subsplitMarker
      sub := match lut.sub cellIdx with
        | some _ => lut.sub
        | none => Function.update lut.sub cellIdx (some ⟨k, base⟩) }
  else
    let stride := 1 <<< (plan.gridDepth - chunk.level)
    let base := (min (chunk.gx * stride) g, min (chunk.gy * stride) g, min (chunk.gz * stride) g)
    let stop := (min (base.1 + stride) g, min (base.2.1 + stride) g, min (base.2.2 + stride) g)
    { lut with cells := fillBox g base stop chunkIdx lut.cells }

/-- Build the cell → chunk routing table from a chunk plan. -/
def buildChunkLut (plan : ChunkPlan) : ChunkLut :=
  plan.chunks.zipIdx.foldl (placeChunk plan) ⟨fun _ => uncovered, fun _ => none⟩

/-! ## Reading the table -/

/-- The offset of a deeper voxel coordinate in its cell, clamped into the cell. -/
def localOctant (k deep cell : ℕ) : ℕ :=
  let span : ℤ := 2 ^ k
  let lo := (cell : ℤ) * span
  (max 0 (min ((deep : ℤ) - lo) (span - 1))).toNat

/-- The clamp of `localOctant` has nothing to do: the offset is in the span of the cell. -/
def InSpan (k deep cell : ℕ) : Prop :=
  0 ≤ (deep : ℤ) - cell * 2 ^ k ∧ (deep : ℤ) - cell * 2 ^ k ≤ 2 ^ k - 1

namespace OctreeBuilder

variable {F : Type} [FloatArith F] (b : OctreeBuilder F)

/-- The fine cell of a point, clamped into the grid. -/
def cellOf (plan : ChunkPlan) (p : RawPoint) : ℕ × ℕ × ℕ :=
  let key := b.keyOf p plan.gridDepth
  (min key.x (plan.gridSize - 1), min key.y (plan.gridSize - 1), min key.z (plan.gridSize - 1))

/-- The chunk index that `distribute` files a point under; none when the marked cell has no
descriptor, where the source panics. -/
def chunkIndexOf (plan : ChunkPlan) (lut : ChunkLut) (p : RawPoint) : Option UInt32 :=
  let cell := b.cellOf plan p
  let cellIdx := flat plan.gridSize cell
  if lut.cells cellIdx = subsplitMarker then
    (lut.sub cellIdx).map fun s =>
      let deep := b.keyOf p (plan.gridDepth + s.k)
      let lx := localOctant s.k deep.x cell.1
      let ly := localOctant s.k deep.y cell.2.1
      let lz := localOctant s.k deep.z cell.2.2
      s.base + UInt32.ofNat lx + UInt32.ofNat (ly <<< s.k) + UInt32.ofNat (lz <<< (2 * s.k))
  else some (lut.cells cellIdx)

/-- No clamp of the routing of a point changes anything: its cell is in the grid, and its deeper
voxel is in its cell. -/
structure ClampsIdle (plan : ChunkPlan) (lut : ChunkLut) (p : RawPoint) : Prop where
  cell : b.cellOf plan p = ((b.keyOf p plan.gridDepth).x, (b.keyOf p plan.gridDepth).y,
    (b.keyOf p plan.gridDepth).z)
  octant : ∀ s, lut.sub (flat plan.gridSize (b.cellOf plan p)) = some s →
    InSpan s.k (b.keyOf p (plan.gridDepth + s.k)).x (b.cellOf plan p).1 ∧
      InSpan s.k (b.keyOf p (plan.gridDepth + s.k)).y (b.cellOf plan p).2.1 ∧
        InSpan s.k (b.keyOf p (plan.gridDepth + s.k)).z (b.cellOf plan p).2.2

end OctreeBuilder

/-! ## What one chunk does to a cell -/

/-- What the table says about a cell. -/
def ChunkLut.entry (lut : ChunkLut) (cellIdx : ℕ) : UInt32 × Option SubSplit :=
  (lut.cells cellIdx, lut.sub cellIdx)

/-- The voxel of a fine cell. -/
def cellKey (gridDepth : ℕ) (c : ℕ × ℕ × ℕ) : VoxelKey := ⟨gridDepth, c.1, c.2.1, c.2.2⟩

/-- A coordinate is in the span of a coarser one exactly when its high bits agree with it, and a
coarser one in range has its whole span in the grid. -/
lemma span_iff {v l m i : ℕ} (hv : v < 2 ^ l) (hi : i < 2 ^ (l + m)) :
    (min (v * 2 ^ m) (2 ^ (l + m)) ≤ i ∧
      i < min (min (v * 2 ^ m) (2 ^ (l + m)) + 2 ^ m) (2 ^ (l + m))) ↔ i >>> m = v := by
  have hpos : 0 < 2 ^ m := by positivity
  have hspan : v * 2 ^ m + 2 ^ m ≤ 2 ^ (l + m) := by
    rw [pow_add, ← Nat.succ_mul]
    exact Nat.mul_le_mul_right _ hv
  rw [Nat.shiftRight_eq_div_pow, Nat.div_eq_iff hpos]
  omega

section Cell

variable {grid : ℕ → UInt32} {gridDepth chunkTarget : ℕ} {e : VoxelKey} {c : ℕ × ℕ × ℕ}

/-- A chunk at its emitting voxel covers the cells below that voxel. -/
lemma placeChunk_plain (he : e.InOctree) (hle : e.level ≤ gridDepth)
    (hc : c ∈ coords (2 ^ gridDepth)) {ch : PlannedChunk} (hch : ch.key = e) (i : ℕ)
    (lut : ChunkLut) (s : List PlannedChunk) :
    (placeChunk ⟨2 ^ gridDepth, gridDepth, s⟩ lut (ch, i)).entry (flat (2 ^ gridDepth) c) =
      if IsAncestor e (cellKey gridDepth c) then
        (UInt32.ofNat i, lut.sub (flat (2 ^ gridDepth) c))
      else lut.entry (flat (2 ^ gridDepth) c) := by
  obtain ⟨hx, hy, hz⟩ := mem_coords.mp hc
  have hsum : e.level + (gridDepth - e.level) = gridDepth := by omega
  have hspan : ∀ {v i}, v < 2 ^ e.level → i < 2 ^ gridDepth →
      ((min (v * 2 ^ (gridDepth - e.level)) (2 ^ gridDepth) ≤ i ∧
        i < min (min (v * 2 ^ (gridDepth - e.level)) (2 ^ gridDepth) +
          2 ^ (gridDepth - e.level)) (2 ^ gridDepth)) ↔ i >>> (gridDepth - e.level) = v) := by
    intro v i hv hi
    have h := span_iff (m := gridDepth - e.level) (i := i) hv (by rwa [hsum])
    rwa [hsum] at h
  subst hch
  have hlevel : ¬ gridDepth < ch.level := not_lt.mpr hle
  unfold placeChunk ChunkLut.entry
  simp only [if_neg hlevel, Nat.one_shiftLeft]
  rw [fillBox_flat _ _ hc ⟨min_le_right _ _, min_le_right _ _, min_le_right _ _⟩]
  have hiff := VoxelKey.isAncestor_iff (a := ch.key) (k := cellKey gridDepth c)
  have hcover := and_congr (hspan he.1 hx) (and_congr (hspan he.2.1 hy) (hspan he.2.2 hz))
  by_cases hanc : IsAncestor ch.key (cellKey gridDepth c)
  · rw [if_pos hanc]
    exact congrArg (·, _) (if_pos (hcover.mpr (hiff.mp hanc).2))
  · rw [if_neg hanc]
    exact congrArg (·, _) (if_neg fun h => hanc (hiff.mpr ⟨hle, hcover.mp h⟩))

lemma subKey_zero_octant (e : VoxelKey) : subKey e 0 (0, 0, 0) = e := by
  simp [subKey]

/-- The octant index of a sub-chunk is its position among the sub-chunks of its cell. -/
lemma subOctantIndex_subKey (e : VoxelKey) {k : ℕ} {s : ℕ × ℕ × ℕ} (hs : s ∈ coords (2 ^ k)) :
    subOctantIndex (subKey e k s).x (subKey e k s).y (subKey e k s).z k =
      UInt32.ofNat (flat (2 ^ k) s) := by
  obtain ⟨hx, hy, hz⟩ := mem_coords.mp hs
  have hmask : ∀ {a i}, i < 2 ^ k → (a * 2 ^ k + i) &&& (1 <<< k - 1) = i := by
    intro a i hi
    rw [Nat.one_shiftLeft, Nat.and_two_pow_sub_one_eq_mod, Nat.mul_comm, Nat.mul_add_mod,
      Nat.mod_eq_of_lt hi]
  unfold subOctantIndex subKey flat
  simp only [hmask hx, hmask hy, hmask hz]
  rw [← UInt32.ofNat_add, ← UInt32.ofNat_add, Nat.shiftLeft_eq, Nat.shiftLeft_eq, Nat.two_mul,
    pow_add, Nat.mul_assoc]

/-- A sub-chunk marks its cell, and describes it unless an earlier one has. -/
lemma placeChunk_split (he : e.InOctree) (hle : e.level = gridDepth)
    (hc : c ∈ coords (2 ^ gridDepth)) {ch : PlannedChunk} {k n : ℕ} (hk : 0 < k)
    {s : ℕ × ℕ × ℕ} (hs : s ∈ coords (2 ^ k)) (hch : ch.key = subKey e k s) (lut : ChunkLut)
    (l : List PlannedChunk) :
    (placeChunk ⟨2 ^ gridDepth, gridDepth, l⟩ lut (ch, n + flat (2 ^ k) s)).entry
        (flat (2 ^ gridDepth) c) =
      if IsAncestor e (cellKey gridDepth c) then
        (subsplitMarker,
          some ((lut.sub (flat (2 ^ gridDepth) c)).getD ⟨k, UInt32.ofNat n⟩))
      else lut.entry (flat (2 ^ gridDepth) c) := by
  have hanc := isAncestor_subKey e hs
  have hdepth : (subKey e k s).level - gridDepth = k := by
    rw [subKey, hle, Nat.add_sub_cancel_left]
  obtain ⟨-, hx, hy, hz⟩ := VoxelKey.isAncestor_iff.mp hanc
  rw [hle, hdepth] at hx hy hz
  have hcell : (e.x, e.y, e.z) ∈ coords (2 ^ gridDepth) :=
    mem_coords.mpr (by rw [← hle]; exact he)
  have hbase : UInt32.ofNat (n + flat (2 ^ k) s) - UInt32.ofNat (flat (2 ^ k) s) =
      UInt32.ofNat n := by
    rw [UInt32.ofNat_add, UInt32.add_sub_cancel]
  have hoct := subOctantIndex_subKey e hs
  rw [← hch] at hx hy hz hdepth hoct
  have hdeep : gridDepth < ch.level := by
    change ch.level - gridDepth = k at hdepth
    omega
  change ch.gx >>> k = e.x at hx
  change ch.gy >>> k = e.y at hy
  change ch.gz >>> k = e.z at hz
  change ch.level - gridDepth = k at hdepth
  change subOctantIndex ch.gx ch.gy ch.gz k = _ at hoct
  unfold placeChunk ChunkLut.entry
  simp only [if_pos hdeep, hdepth, hx, hy, hz, hoct, hbase]
  by_cases hce : IsAncestor e (cellKey gridDepth c)
  · -- the cell is the emitting voxel itself
    have heq : e = cellKey gridDepth c := hce.eq_of_level hle
    have hflat : c = (e.x, e.y, e.z) := by rw [heq]; rfl
    rw [if_pos hce, hflat, Function.update_self]
    cases hsub : lut.sub (flat (2 ^ gridDepth) (e.x, e.y, e.z)) with
    | none => simp
    | some old => simp [hsub]
  · have hne : flat (2 ^ gridDepth) c ≠ flat (2 ^ gridDepth) (e.x, e.y, e.z) := by
      intro h
      apply hce
      rw [flat_injOn hc hcell h, cellKey, ← hle]
      exact IsAncestor.refl e
    rw [if_neg hce, Function.update_of_ne hne]
    cases lut.sub (flat (2 ^ gridDepth) (e.x, e.y, e.z)) with
    | none => simp [Function.update_of_ne hne]
    | some old => rfl

/-! ## What the chunks of one emitting voxel do -/

variable {pop n : ℕ} {l : List PlannedChunk} {lut : ChunkLut}

/-- The numbered chunks of an emitting voxel, by their local octants. -/
lemma mem_zipIdx_emitted {x : PlannedChunk × ℕ}
    (hx : x ∈ (emitted gridDepth chunkTarget pop e).zipIdx n) :
    ∃ s ∈ coords (2 ^ emitDepth gridDepth chunkTarget pop e),
      x.1.key = subKey e (emitDepth gridDepth chunkTarget pop e) s ∧
        x.2 = n + flat (2 ^ emitDepth gridDepth chunkTarget pop e) s := by
  set k := emitDepth gridDepth chunkTarget pop e
  obtain ⟨j, hj, rfl⟩ := List.mem_iff_getElem.mp hx
  rw [List.length_zipIdx] at hj
  have hlen : (emitted gridDepth chunkTarget pop e).length = (coords (2 ^ k)).length := by
    simpa using congrArg List.length (map_key_emitted gridDepth chunkTarget pop e)
  have hjc : j < (coords (2 ^ k)).length := hlen ▸ hj
  refine ⟨(coords (2 ^ k))[j], List.getElem_mem hjc, ?_, ?_⟩
  · have h := congrArg (·[j]?) (map_key_emitted gridDepth chunkTarget pop e)
    simp only [List.getElem?_map, List.getElem?_eq_getElem hj, Option.map_some] at h
    rw [List.getElem?_eq_getElem hjc] at h
    simpa using h
  · have h := congrArg (·[j]?) (map_flat_coords (2 ^ k))
    have hjr : j < 2 ^ k * 2 ^ k * 2 ^ k := by rwa [length_coords] at hjc
    simp only [List.getElem?_map, List.getElem?_eq_getElem hjc, Option.map_some,
      List.getElem?_range hjr] at h
    rw [Option.some.inj h]
    simp

/-- The entry of a cell after the chunks of the emitting voxel above it, the first of which is the
chunk `n`. -/
def groupEntry (k n : ℕ) : UInt32 × Option SubSplit :=
  if k = 0 then (UInt32.ofNat n, none) else (subsplitMarker, some ⟨k, UInt32.ofNat n⟩)

/-- One chunk of an emitting voxel leaves the other cells alone. -/
lemma placeChunk_frame (he : e.InOctree) (hle : e.level ≤ gridDepth)
    (hc : c ∈ coords (2 ^ gridDepth)) (hout : ¬ IsAncestor e (cellKey gridDepth c))
    {x : PlannedChunk × ℕ} (hx : x ∈ (emitted gridDepth chunkTarget pop e).zipIdx n) :
    (placeChunk ⟨2 ^ gridDepth, gridDepth, l⟩ lut x).entry (flat (2 ^ gridDepth) c) =
      lut.entry (flat (2 ^ gridDepth) c) := by
  obtain ⟨s, hs, hkey, hidx⟩ := mem_zipIdx_emitted hx
  obtain ⟨ch, i⟩ := x
  simp only at hkey hidx
  by_cases hk : emitDepth gridDepth chunkTarget pop e = 0
  · rw [hk] at hs hkey
    obtain rfl : s = (0, 0, 0) := by simpa using hs
    rw [placeChunk_plain he hle hc (hkey.trans (subKey_zero_octant e)), if_neg hout]
  · have hl : e.level = gridDepth := by
      by_contra hne
      exact hk (if_neg hne)
    rw [hidx, placeChunk_split he hl hc (Nat.pos_of_ne_zero hk) hs hkey, if_neg hout]

/-- One chunk of the emitting voxel above a cell that no other voxel's chunk has touched. -/
lemma placeChunk_entry (he : e.InOctree) (hle : e.level ≤ gridDepth)
    (hc : c ∈ coords (2 ^ gridDepth)) (hin : IsAncestor e (cellKey gridDepth c))
    (hlut : lut.sub (flat (2 ^ gridDepth) c) = none ∨
      lut.entry (flat (2 ^ gridDepth) c) = groupEntry (emitDepth gridDepth chunkTarget pop e) n)
    {x : PlannedChunk × ℕ} (hx : x ∈ (emitted gridDepth chunkTarget pop e).zipIdx n) :
    (placeChunk ⟨2 ^ gridDepth, gridDepth, l⟩ lut x).entry (flat (2 ^ gridDepth) c) =
      groupEntry (emitDepth gridDepth chunkTarget pop e) n := by
  obtain ⟨s, hs, hkey, hidx⟩ := mem_zipIdx_emitted hx
  obtain ⟨ch, i⟩ := x
  simp only at hkey hidx
  by_cases hk : emitDepth gridDepth chunkTarget pop e = 0
  · rw [hk] at hs hkey hidx hlut ⊢
    obtain rfl : s = (0, 0, 0) := by simpa using hs
    have hsub : lut.sub (flat (2 ^ gridDepth) c) = none := by
      rcases hlut with h | h
      · exact h
      · exact congrArg Prod.snd h
    rw [placeChunk_plain he hle hc (hkey.trans (subKey_zero_octant e)), if_pos hin, hidx, hsub]
    rfl
  · have hl : e.level = gridDepth := by
      by_contra hne
      exact hk (if_neg hne)
    rw [hidx, placeChunk_split he hl hc (Nat.pos_of_ne_zero hk) hs hkey, if_pos hin, groupEntry,
      if_neg hk]
    rcases hlut with h | h
    · rw [h, Option.getD_none]
    · rw [groupEntry, if_neg hk] at h
      rw [show lut.sub _ = _ from congrArg Prod.snd h, Option.getD_some]

end Cell

/-! ## The finished table -/

section Table

variable {grid : ℕ → UInt32} {gridDepth chunkTarget : ℕ} {c : ℕ × ℕ × ℕ}

lemma planOf_chunks (grid : ℕ → UInt32) (gridDepth chunkTarget : ℕ) :
    (planOf grid gridDepth chunkTarget).chunks =
      mergeSparseCells grid (2 ^ gridDepth) gridDepth chunkTarget := rfl

/-- The chunks of a voxel. -/
def chunksOf (grid : ℕ → UInt32) (gridDepth chunkTarget : ℕ) (v : VoxelKey) : List PlannedChunk :=
  emitted gridDepth chunkTarget (cellTotal grid gridDepth v) v

/-- How far below a voxel its chunks are. -/
def depthOf (grid : ℕ → UInt32) (gridDepth chunkTarget : ℕ) (v : VoxelKey) : ℕ :=
  emitDepth gridDepth chunkTarget (cellTotal grid gridDepth v) v

/-- The chunk of a voxel at a local octant. -/
lemma getElem?_chunksOf (grid : ℕ → UInt32) (gridDepth chunkTarget : ℕ) (v : VoxelKey)
    {s : ℕ × ℕ × ℕ}
    (hs : s ∈ coords (2 ^ depthOf grid gridDepth chunkTarget v)) :
    ∃ ch, (chunksOf grid gridDepth chunkTarget v)[
        flat (2 ^ depthOf grid gridDepth chunkTarget v) s]? =
      some ch ∧ ch.key = subKey v (depthOf grid gridDepth chunkTarget v) s := by
  have h := congrArg (·[flat (2 ^ depthOf grid gridDepth chunkTarget v) s]?)
    (map_key_emitted gridDepth chunkTarget (cellTotal grid gridDepth v) v)
  simp only [List.getElem?_map] at h
  rw [← depthOf, getElem?_coords hs, Option.map_some] at h
  exact Option.map_eq_some_iff.mp h

/-- The chunks of other voxels leave a cell alone. -/
lemma foldl_placeChunk_frame {E : List VoxelKey} (hc : c ∈ coords (2 ^ gridDepth))
    (hE : ∀ v ∈ E, IsEmitter grid gridDepth chunkTarget v ∧ ¬ IsAncestor v (cellKey gridDepth c))
    (n : ℕ) (lut : ChunkLut) :
    (((E.flatMap (chunksOf grid gridDepth chunkTarget)).zipIdx n).foldl
        (placeChunk (planOf grid gridDepth chunkTarget)) lut).entry (flat (2 ^ gridDepth) c) =
      lut.entry (flat (2 ^ gridDepth) c) := by
  induction E generalizing n lut with
  | nil => rfl
  | cons v E ih =>
    obtain ⟨hv, hout⟩ := hE v List.mem_cons_self
    have hgroup : ∀ L : List (PlannedChunk × ℕ),
        (∀ x ∈ L, x ∈ (chunksOf grid gridDepth chunkTarget v).zipIdx n) →
        (L.foldl (placeChunk (planOf grid gridDepth chunkTarget)) lut).entry
          (flat (2 ^ gridDepth) c) = lut.entry (flat (2 ^ gridDepth) c) := by
      intro L hL
      induction L using List.reverseRecOn with
      | nil => rfl
      | append_singleton L x ihL =>
        rw [List.foldl_append, List.foldl_cons, List.foldl_nil]
        apply (placeChunk_frame hv.1 hv.2.1 hc hout (hL x (by simp))).trans
        exact ihL fun y hy => hL y (List.mem_append_left _ hy)
    rw [List.flatMap_cons, List.zipIdx_append, List.foldl_append,
      ih (fun w hw => hE w (List.mem_cons_of_mem _ hw))]
    exact hgroup _ fun x hx => hx

/-- The chunks of the voxel above an untouched cell decide its entry. -/
lemma foldl_placeChunk_entry {e : VoxelKey} (he : IsEmitter grid gridDepth chunkTarget e)
    (hc : c ∈ coords (2 ^ gridDepth)) (hin : IsAncestor e (cellKey gridDepth c)) {n : ℕ}
    {lut : ChunkLut} (hlut : lut.sub (flat (2 ^ gridDepth) c) = none) :
    (((chunksOf grid gridDepth chunkTarget e).zipIdx n).foldl
        (placeChunk (planOf grid gridDepth chunkTarget)) lut).entry (flat (2 ^ gridDepth) c) =
      groupEntry (depthOf grid gridDepth chunkTarget e) n := by
  have hgroup : ∀ L : List (PlannedChunk × ℕ), L ≠ [] →
      (∀ x ∈ L, x ∈ (chunksOf grid gridDepth chunkTarget e).zipIdx n) →
      (L.foldl (placeChunk (planOf grid gridDepth chunkTarget)) lut).entry
        (flat (2 ^ gridDepth) c) = groupEntry (depthOf grid gridDepth chunkTarget e) n := by
    intro L hne hL
    induction L using List.reverseRecOn with
    | nil => exact absurd rfl hne
    | append_singleton L x ihL =>
      rw [List.foldl_append, List.foldl_cons, List.foldl_nil]
      refine placeChunk_entry he.1 he.2.1 hc hin ?_ (hL x (by simp))
      by_cases hnil : L = []
      · exact Or.inl (hnil ▸ hlut)
      · exact Or.inr (ihL hnil fun y hy => hL y (List.mem_append_left _ hy))
  refine hgroup _ ?_ fun x hx => hx
  -- the chunk at the first octant is there
  obtain ⟨ch, hch, -⟩ := getElem?_chunksOf grid gridDepth chunkTarget e (s := (0, 0, 0))
    (mem_coords.mpr (by simp))
  intro hnil
  rw [List.zipIdx_eq_nil_iff] at hnil
  rw [hnil] at hch
  simp at hch

/-- A cell's entry is decided by the emitting voxel above it. -/
lemma buildChunkLut_entry {e : VoxelKey} (he : IsEmitter grid gridDepth chunkTarget e)
    (hc : c ∈ coords (2 ^ gridDepth)) (hin : IsAncestor e (cellKey gridDepth c)) :
    ∃ n, (buildChunkLut (planOf grid gridDepth chunkTarget)).entry (flat (2 ^ gridDepth) c) =
        groupEntry (depthOf grid gridDepth chunkTarget e) n ∧
      ∀ j ch, (chunksOf grid gridDepth chunkTarget e)[j]? = some ch →
        (planOf grid gridDepth chunkTarget).chunks[n + j]? = some ch := by
  obtain ⟨E₁, E₂, hsplit⟩ := List.append_of_mem (mem_emitters.mpr he)
  have hnodup := nodup_emitters grid gridDepth chunkTarget
  have hother : ∀ v ∈ E₁ ++ E₂, IsEmitter grid gridDepth chunkTarget v ∧
      ¬ IsAncestor v (cellKey gridDepth c) := by
    intro v hv
    have hve : v ≠ e := by
      rintro rfl
      rw [hsplit] at hnodup
      exact (List.nodup_middle.mp hnodup).notMem hv
    have hv' : IsEmitter grid gridDepth chunkTarget v := by
      apply mem_emitters.mp
      rw [hsplit]
      rcases List.mem_append.mp hv with h | h
      · exact List.mem_append_left _ h
      · exact List.mem_append_right _ (List.mem_cons_of_mem _ h)
    refine ⟨hv', fun hanc => hve ?_⟩
    rcases Nat.le_total v.level e.level with hle | hle
    · exact hv'.eq_of_isAncestor he (hanc.of_level_le hin hle)
    · exact (he.eq_of_isAncestor hv' (hin.of_level_le hanc hle)).symm
  have hchunks : (planOf grid gridDepth chunkTarget).chunks =
      E₁.flatMap (chunksOf grid gridDepth chunkTarget) ++ (chunksOf grid gridDepth chunkTarget e ++
        E₂.flatMap (chunksOf grid gridDepth chunkTarget)) := by
    rw [planOf_chunks, mergeSparseCells_eq, hsplit, List.flatMap_append, List.flatMap_cons]
    rfl
  refine ⟨(E₁.flatMap (chunksOf grid gridDepth chunkTarget)).length, ?_, fun j ch hj => ?_⟩
  · unfold buildChunkLut
    rw [hchunks, List.zipIdx_append, List.zipIdx_append, List.foldl_append, List.foldl_append,
      foldl_placeChunk_frame hc fun v hv => hother v (List.mem_append_right _ hv)]
    rw [Nat.zero_add]
    apply foldl_placeChunk_entry he hc hin
    exact congrArg Prod.snd
      (foldl_placeChunk_frame hc (fun v hv => hother v (List.mem_append_left _ hv)) 0 _)
  · have hlt : j < (chunksOf grid gridDepth chunkTarget e).length :=
      (List.getElem?_eq_some_iff.mp hj).1
    rw [hchunks, List.getElem?_append_right (Nat.le_add_right _ _), Nat.add_sub_cancel_left,
      List.getElem?_append_left hlt, hj]

end Table

/-! ## Routing a point -/

/-- The offset of a deeper coordinate in its own cell. -/
lemma localOctant_eq {k cell i : ℕ} (hi : i < 2 ^ k) :
    localOctant k (cell * 2 ^ k + i) cell = i := by
  unfold localOctant
  push_cast
  have hi' : (i : ℤ) < 2 ^ k := by exact_mod_cast hi
  rw [add_sub_cancel_left, min_eq_left (by omega), max_eq_right (by omega), Int.toNat_natCast]

lemma inSpan_of_lt {k cell i : ℕ} (hi : i < 2 ^ k) : InSpan k (cell * 2 ^ k + i) cell := by
  unfold InSpan
  push_cast
  have hi' : (i : ℤ) < 2 ^ k := by exact_mod_cast hi
  omega

/-- Every chunk index fits a table entry, and no chunk at or above the grid depth has the marker for
its index. -/
structure ChunkPlan.IndexesFit (plan : ChunkPlan) : Prop where
  length : plan.chunks.length ≤ 2 ^ 32
  marker : ∀ ch, plan.chunks[subsplitMarker.toNat]? = some ch → plan.gridDepth < ch.level

namespace OctreeBuilder

variable {F : Type} [FloatArith F] {b : OctreeBuilder F} {grid : ℕ → UInt32}
  {gridDepth chunkTarget : ℕ} {p : RawPoint}

/-- The fine cell of a point needs no clamping. -/
lemma cellOf_eq (b : OctreeBuilder F) (p : RawPoint) :
    b.cellOf (planOf grid gridDepth chunkTarget) p =
      ((b.keyOf p gridDepth).x, (b.keyOf p gridDepth).y, (b.keyOf p gridDepth).z) := by
  obtain ⟨hx, hy, hz⟩ := pointToKey_lt (b.worldX p) (b.worldY p) (b.worldZ p) b.cx b.cy b.cz
    b.halfsize gridDepth
  have hmin : ∀ {i}, i < 2 ^ gridDepth → min i (2 ^ gridDepth - 1) = i := by
    intro i hi
    omega
  unfold cellOf planOf keyOf
  simp only [hmin hx, hmin hy, hmin hz]

/-- Only one planned chunk contains a point. -/
lemma chunk_unique {i j : ℕ} {ch d : PlannedChunk}
    (hi : (planOf grid gridDepth chunkTarget).chunks[i]? = some ch)
    (hj : (planOf grid gridDepth chunkTarget).chunks[j]? = some d)
    (hch : b.keyOf p ch.level = ch.key) (hd : b.keyOf p d.level = d.key) : i = j := by
  have hmem : ∀ {n} {x : PlannedChunk}, (planOf grid gridDepth chunkTarget).chunks[n]? = some x →
      x.key ∈ (mergeSparseCells grid (2 ^ gridDepth) gridDepth chunkTarget).map
        PlannedChunk.key := fun {n x} hx => List.mem_map_of_mem (List.mem_of_getElem? hx)
  have hin : b.addressing.Inside p ch.key := hch
  have hin' : b.addressing.Inside p d.key := hd
  have hkey : ch.key = d.key := by
    rcases Nat.le_total ch.level d.level with hle | hle
    · exact plan_antichain (hmem hi) (hmem hj) (hin.isAncestor hin' hle)
    · exact (plan_antichain (hmem hj) (hmem hi) (hin'.isAncestor hin hle)).symm
  obtain ⟨hil, rfl⟩ := List.getElem?_eq_some_iff.mp hi
  obtain ⟨hjl, rfl⟩ := List.getElem?_eq_some_iff.mp hj
  have hnodup := nodup_plan_keys grid gridDepth chunkTarget
  have hi' : i < ((mergeSparseCells grid (2 ^ gridDepth) gridDepth chunkTarget).map
      PlannedChunk.key).length := by rwa [List.length_map]
  refine (List.getElem?_inj hi' hnodup).mp ?_
  rw [List.getElem?_map, List.getElem?_map, ← planOf_chunks, hi, hj, Option.map_some, hkey]
  rfl

/-- A point of a counted cell lies in some planned chunk, and is routed to it as far as its index
can be written in the table. -/
lemma exists_chunkIndexOf (chunkTarget : ℕ) (b : OctreeBuilder F) (p : RawPoint)
    (hpos : 0 < grid (flat (2 ^ gridDepth) ((b.keyOf p gridDepth).x, (b.keyOf p gridDepth).y,
      (b.keyOf p gridDepth).z))) :
    ∃ i ch, (planOf grid gridDepth chunkTarget).chunks[i]? = some ch ∧
      b.keyOf p ch.level = ch.key ∧
      b.ClampsIdle (planOf grid gridDepth chunkTarget)
        (buildChunkLut (planOf grid gridDepth chunkTarget)) p ∧
      (gridDepth < ch.level ∨ UInt32.ofNat i ≠ subsplitMarker →
        b.chunkIndexOf (planOf grid gridDepth chunkTarget)
          (buildChunkLut (planOf grid gridDepth chunkTarget)) p = some (UInt32.ofNat i)) := by
  set plan := planOf grid gridDepth chunkTarget
  set c := ((b.keyOf p gridDepth).x, (b.keyOf p gridDepth).y, (b.keyOf p gridDepth).z) with hcdef
  have hlt := pointToKey_lt (b.worldX p) (b.worldY p) (b.worldZ p) b.cx b.cy b.cz b.halfsize
    gridDepth
  have hc : c ∈ coords (2 ^ gridDepth) := mem_coords.mpr hlt
  have hcell : b.cellOf plan p = c := cellOf_eq b p
  have hkey : b.keyOf p gridDepth = cellKey gridDepth c := rfl
  -- the emitting voxel above the cell
  have htotal : 0 < cellTotal grid gridDepth (cellKey gridDepth c) := by
    unfold cellTotal cellKey
    rw [Nat.sub_self, voxelTotal]
    exact UInt32.lt_iff_toNat_lt.mp hpos
  obtain ⟨e, he, hec⟩ : ∃ e, IsEmitter grid gridDepth chunkTarget e ∧
      IsAncestor e (cellKey gridDepth c) := exists_emitter hlt le_rfl htotal (Or.inl rfl)
  obtain ⟨n, hentry, hplan⟩ := buildChunkLut_entry he hc hec
  set k := depthOf grid gridDepth chunkTarget e
  -- the voxel of the point at the depth of its chunk
  have hdeep : IsAncestor e (b.keyOf p (e.level + k)) := by
    have hpath := b.addressing.isAncestor_addr p (Nat.le_add_right e.level k)
    have hinside : b.addressing.Inside p (cellKey gridDepth c) := hkey
    have hein : b.keyOf p e.level = e := hinside.mono hec
    rw [OctreeBuilder.addressing_addr, OctreeBuilder.addressing_addr, hein] at hpath
    exact hpath
  obtain ⟨s, hs, hsub⟩ := exists_subKey hdeep rfl
  obtain ⟨ch, hch, hchk⟩ := getElem?_chunksOf grid gridDepth chunkTarget e hs
  obtain ⟨hsx, hsy, hsz⟩ := mem_coords.mp hs
  have hlevel : ch.level = e.level + k := congrArg VoxelKey.level hchk
  refine ⟨n + flat (2 ^ k) s, ch, hplan _ ch hch, ?_, ?_⟩
  · rw [hlevel, hchk, hsub]
  by_cases hk : k = 0
  · -- a plain cell, whose entry is the index itself
    rw [groupEntry, if_pos hk] at hentry
    obtain ⟨hcells, hnone⟩ := Prod.mk.inj hentry
    refine ⟨⟨hcell, fun t ht => ?_⟩, fun hfit => ?_⟩
    · rw [hcell] at ht
      exact absurd (hnone.symm.trans ht) (by simp)
    · have hflat : flat (2 ^ k) s = 0 := by
        rw [hk] at hs
        obtain rfl : s = (0, 0, 0) := by simpa using hs
        simp [flat]
      rw [hflat, Nat.add_zero] at hfit ⊢
      have hne : UInt32.ofNat n ≠ subsplitMarker := by
        apply hfit.resolve_left
        have := he.2.1
        omega
      unfold chunkIndexOf
      rw [hcell]
      change (if (buildChunkLut plan).cells (flat (2 ^ gridDepth) c) = subsplitMarker then _
        else some ((buildChunkLut plan).cells (flat (2 ^ gridDepth) c))) = _
      rw [hcells, if_neg hne]
  · -- a split cell: its emitting voxel is the cell itself
    have hel : e.level = gridDepth := by
      by_contra hne
      exact hk (if_neg hne)
    have hecell : e = cellKey gridDepth c := hec.eq_of_level hel
    rw [groupEntry, if_neg hk] at hentry
    obtain ⟨hcells, hsome⟩ := Prod.mk.inj hentry
    have hdx : (b.keyOf p (gridDepth + k)).x = c.1 * 2 ^ k + s.1 := by
      rw [← hel, ← hsub, hecell]
      rfl
    have hdy : (b.keyOf p (gridDepth + k)).y = c.2.1 * 2 ^ k + s.2.1 := by
      rw [← hel, ← hsub, hecell]
      rfl
    have hdz : (b.keyOf p (gridDepth + k)).z = c.2.2 * 2 ^ k + s.2.2 := by
      rw [← hel, ← hsub, hecell]
      rfl
    refine ⟨⟨hcell, fun t ht => ?_⟩, fun _ => ?_⟩
    · rw [hcell] at ht ⊢
      obtain rfl := Option.some.inj (hsome.symm.trans ht)
      change InSpan k (b.keyOf p (gridDepth + k)).x c.1 ∧
        InSpan k (b.keyOf p (gridDepth + k)).y c.2.1 ∧ InSpan k (b.keyOf p (gridDepth + k)).z c.2.2
      rw [hdx, hdy, hdz]
      exact ⟨inSpan_of_lt hsx, inSpan_of_lt hsy, inSpan_of_lt hsz⟩
    · unfold chunkIndexOf
      rw [hcell]
      change (if (buildChunkLut plan).cells (flat (2 ^ gridDepth) c) = subsplitMarker then
        ((buildChunkLut plan).sub (flat (2 ^ gridDepth) c)).map _ else _) = _
      rw [hcells, if_pos rfl, hsome, Option.map_some]
      change some (UInt32.ofNat n +
        UInt32.ofNat (localOctant k (b.keyOf p (gridDepth + k)).x c.1) +
        UInt32.ofNat (localOctant k (b.keyOf p (gridDepth + k)).y c.2.1 <<< k) +
        UInt32.ofNat (localOctant k (b.keyOf p (gridDepth + k)).z c.2.2 <<< (2 * k))) = _
      rw [hdx, hdy, hdz, localOctant_eq hsx, localOctant_eq hsy, localOctant_eq hsz,
        ← UInt32.ofNat_add, ← UInt32.ofNat_add, ← UInt32.ofNat_add, Nat.shiftLeft_eq,
        Nat.shiftLeft_eq, Nat.two_mul, pow_add]
      refine congrArg (fun m => some (UInt32.ofNat m)) ?_
      simp only [flat]
      ring

/-- A point of a cell with more points than the target lies in a chunk at the split depth of the
cell, and is routed to it as far as its index can be written in the table. -/
lemma exists_split_chunk (b : OctreeBuilder F) (p : RawPoint)
    (h : chunkTarget < cellTotal grid gridDepth (b.keyOf p gridDepth)) :
    ∃ i ch, (planOf grid gridDepth chunkTarget).chunks[i]? = some ch ∧
      b.keyOf p ch.level = ch.key ∧
      ch.level =
        gridDepth + splitExtraLevels (cellTotal grid gridDepth (b.keyOf p gridDepth)) chunkTarget ∧
      b.chunkIndexOf (planOf grid gridDepth chunkTarget)
        (buildChunkLut (planOf grid gridDepth chunkTarget)) p = some (UInt32.ofNat i) := by
  set total := cellTotal grid gridDepth (b.keyOf p gridDepth) with htotal
  have hpos : 0 < grid (flat (2 ^ gridDepth) ((b.keyOf p gridDepth).x, (b.keyOf p gridDepth).y,
      (b.keyOf p gridDepth).z)) := by
    have hcell := Nat.zero_lt_of_lt h
    rw [htotal, cellTotal, show gridDepth - (b.keyOf p gridDepth).level = 0 from Nat.sub_self _,
      voxelTotal] at hcell
    exact UInt32.lt_iff_toNat_lt.mpr hcell
  obtain ⟨i, ch, hch, hkey, -, hrouted⟩ := exists_chunkIndexOf chunkTarget b p hpos
  obtain ⟨e, he, hanc, hl⟩ := mem_plan_keys.mp (List.mem_map_of_mem (List.mem_of_getElem? hch))
  have hin : b.keyOf p e.level = e := (show b.addressing.Inside p ch.key from hkey).mono hanc
  -- a voxel above the cell holds as many points, too many for one chunk
  have hlevel : e.level = gridDepth := by
    refine he.2.2.2.1.resolve_right fun hle => ?_
    have habove : IsAncestor e (b.keyOf p gridDepth) :=
      hin ▸ b.addressing.isAncestor_addr p he.2.1
    have hbelow : total ≤ cellTotal grid gridDepth e :=
      cellTotal_le_of_isAncestor (le_refl gridDepth) habove
    omega
  rw [emitDepth, if_pos hlevel, ← hin, hlevel] at hl
  have hdeep : ch.level = gridDepth + splitExtraLevels total chunkTarget := hl
  have hsplit : 0 < splitExtraLevels total chunkTarget := by
    refine Nat.pos_of_ne_zero fun h0 => ?_
    have hleast := (splitExtraLevels_least total chunkTarget).2.2
    rw [h0, pow_zero, Nat.mul_one] at hleast
    exact hleast.elim (by decide) (Nat.not_le.mpr h)
  exact ⟨i, ch, hch, hkey, hdeep, hrouted (Or.inl (by omega))⟩

/-- Every point of a counted cell is filed under the one planned chunk whose voxel contains it, its
leaf is below the root of that chunk at whatever depth down to level 31 the chunk is built, and no
clamp on the way does anything, provided the chunk indices fit the table. -/
theorem chunkIndexOf_planned (b : OctreeBuilder F) (p : RawPoint)
    (hpos : 0 < grid (flat (2 ^ gridDepth) ((b.keyOf p gridDepth).x, (b.keyOf p gridDepth).y,
      (b.keyOf p gridDepth).z)))
    (hfit : (planOf grid gridDepth chunkTarget).IndexesFit) :
    ∃ i ch, b.chunkIndexOf (planOf grid gridDepth chunkTarget)
        (buildChunkLut (planOf grid gridDepth chunkTarget)) p = some i ∧
      i.toNat < (planOf grid gridDepth chunkTarget).chunks.length ∧
      (planOf grid gridDepth chunkTarget).chunks[i.toNat]? = some ch ∧
      b.keyOf p ch.level = ch.key ∧
      (∀ j d, (planOf grid gridDepth chunkTarget).chunks[j]? = some d →
        b.keyOf p d.level = d.key → j = i.toNat) ∧
      (∀ leaves leafDepth, ch.level ≤ leafDepth → leafDepth ≤ i32Levels → ∃ leaf,
        b.pushIntoLeaf32 leaves p leafDepth = leaves.push leaf p ∧ leaf.level = leafDepth ∧
          leaf.ancestorAt32 ch.level = ch.key) ∧
      b.ClampsIdle (planOf grid gridDepth chunkTarget)
        (buildChunkLut (planOf grid gridDepth chunkTarget)) p := by
  obtain ⟨i, ch, hch, hin, hidle, hroute⟩ := exists_chunkIndexOf chunkTarget b p hpos
  have hi : i < (planOf grid gridDepth chunkTarget).chunks.length :=
    (List.getElem?_eq_some_iff.mp hch).1
  have htoNat : (UInt32.ofNat i).toNat = i := UInt32.toNat_ofNat_of_lt' (hi.trans_le hfit.length)
  have hsome := hroute (or_iff_not_imp_right.mpr fun hmarker => by
    apply hfit.marker ch
    rw [← not_not.mp hmarker, htoNat, hch])
  refine ⟨UInt32.ofNat i, ch, hsome, ?_, ?_, hin, ?_, ?_, hidle⟩
  · rwa [htoNat]
  · rwa [htoNat]
  · intro j d hd hdin
    rw [htoNat]
    exact chunk_unique hd hch hdin hin
  · intro leaves leafDepth hle hfits
    exact ⟨b.keyOf32 p leafDepth, rfl, rfl, b.ancestorAt32_keyOf32 p (k := ch.key) hin hle hfits⟩

end OctreeBuilder

/-! ## A split cell -/

/-- Eight points in the last cell of a grid of depth 1. -/
def splitGrid (i : ℕ) : UInt32 := if i = 7 then 8 else 0

lemma length_planOf_split : (planOf splitGrid 1 1).chunks.length = 8 := by decide +kernel

/-- With a target of one point the cell has eight sub-chunks, and a point of it is filed under one
of them and has its leaf at level 31 below it. -/
theorem chunkIndexOf_planned_split : ∃ i ch,
    unitBuilder.chunkIndexOf (planOf splitGrid 1 1) (buildChunkLut (planOf splitGrid 1 1))
        (pointAt 1 2 3) = some i ∧
      (planOf splitGrid 1 1).chunks[i.toNat]? = some ch ∧
        unitBuilder.keyOf (pointAt 1 2 3) ch.level = ch.key ∧
        ∃ leaf, unitBuilder.pushIntoLeaf32 ∅ (pointAt 1 2 3) 31 =
          BucketMap.push ∅ leaf (pointAt 1 2 3) ∧ leaf.ancestorAt32 ch.level = ch.key := by
  have hfit : (planOf splitGrid 1 1).IndexesFit := by
    constructor
    · rw [length_planOf_split]
      decide
    · intro ch hch
      have hlt := (List.getElem?_eq_some_iff.mp hch).1
      rw [length_planOf_split] at hlt
      exact absurd hlt (by decide)
  obtain ⟨i, ch, hi, -, hch, hin, -, hleaf, -⟩ :=
    OctreeBuilder.chunkIndexOf_planned unitBuilder (pointAt 1 2 3) (by decide +kernel) hfit
  have hlevel : ch.level ≤ 31 := by
    have hall : ∀ c ∈ (planOf splitGrid 1 1).chunks, c.level ≤ 31 := by decide +kernel
    exact hall ch (List.mem_of_getElem? hch)
  obtain ⟨leaf, hpush, -, habove⟩ := hleaf ∅ 31 hlevel le_rfl
  exact ⟨i, ch, hi, hch, hin, leaf, hpush, habove⟩

/-! ## More chunks than indices -/

lemma voxelTotal_const (w : UInt32) (gridDepth n : ℕ) (c : ℕ × ℕ × ℕ) :
    voxelTotal (fun _ => w) gridDepth n c = 8 ^ n * w.toNat := by
  rw [voxelTotal_eq_sum, List.map_const', List.sum_replicate, length_coords_pow, smul_eq_mul]

lemma coords_concat (n : ℕ) : ∃ l, coords (n + 1) = l ++ [(n, n, n)] := by
  have hconcat : ∀ {α : Type} (f : ℕ → List α) (l : List α) (x : α), f n = l ++ [x] →
      ∃ l', (List.range (n + 1)).flatMap f = l' ++ [x] := by
    intro α f l x h
    refine ⟨(List.range n).flatMap f ++ l, ?_⟩
    rw [List.range_succ, List.flatMap_append, List.flatMap_singleton, h, List.append_assoc]
  have hrow : (List.range (n + 1)).map (fun x => (x, n, n)) =
      (List.range n).map (fun x => (x, n, n)) ++ [(n, n, n)] := by
    rw [List.range_succ, List.map_append, List.map_singleton]
  obtain ⟨plane, hplane⟩ := hconcat (fun y => (List.range (n + 1)).map fun x => (x, y, n)) _ _ hrow
  exact hconcat (fun z => (List.range (n + 1)).flatMap fun y =>
    (List.range (n + 1)).map fun x => (x, y, z)) _ _ hplane

/-- As many points in every cell as force the deepest split when the target is one point. -/
def fullGrid (_ : ℕ) : UInt32 := 40000

lemma cellTotal_full {v : VoxelKey} : 40000 ≤ cellTotal fullGrid 7 v := by
  unfold cellTotal fullGrid
  rw [voxelTotal_const]
  exact Nat.le_mul_of_pos_left 40000 (by positivity)

lemma IsEmitter.level_full {v : VoxelKey} (h : IsEmitter fullGrid 7 1 v) : v.level = 7 := by
  refine h.2.2.2.1.resolve_right fun hle => ?_
  have := cellTotal_full (v := v)
  omega

/-- Only the finest cells emit. -/
lemma emitters_full : emitters fullGrid 7 1 = levelVoxels 6 := by
  have hall : (levelVoxels 6).filter (emits fullGrid 7 1) = levelVoxels 6 := by
    refine List.filter_eq_self.mpr fun v hv => ?_
    obtain ⟨hl, hin⟩ := mem_levelVoxels.mp hv
    refine (emits_iff hin hl.le).mpr ⟨hin, hl.le, ?_, Or.inl hl, fun p _ => ?_⟩
    · exact lt_of_lt_of_le (by decide) cellTotal_full
    · exact lt_of_lt_of_le (by decide) cellTotal_full
  have hbelow : emittersBelow fullGrid 7 1 6 = [] := by
    refine List.eq_nil_iff_forall_not_mem.mpr fun v hv => ?_
    obtain ⟨-, hl, he⟩ := (mem_emittersBelow (by decide)).mp hv
    have := he.level_full
    omega
  have hroot : ¬ emits fullGrid 7 1 VoxelKey.root = true := by
    intro h
    exact absurd ((emits_iff inOctree_root (Nat.zero_le _)).mp h).level_full (by decide)
  rw [emitters, emittersBelow, hall, hbelow, if_neg hroot, List.append_nil, List.append_nil]

/-- The keys of the plan of the full grid. -/
lemma keys_full : (planOf fullGrid 7 1).chunks.map PlannedChunk.key =
    (levelVoxels 6).flatMap fun v => (coords (2 ^ 6)).map (subKey v 6) := by
  rw [planOf_chunks, mergeSparseCells_eq, emitters_full, List.map_flatMap]
  refine List.flatMap_congr fun v hv => ?_
  have hdepth : emitDepth 7 1 (cellTotal fullGrid 7 v) v = 6 := by
    have hl := (mem_levelVoxels.mp hv).1
    have htotal : cellTotal fullGrid 7 v = 40000 := by
      unfold cellTotal fullGrid
      rw [voxelTotal_const, hl]
      rfl
    rw [htotal, emitDepth, if_pos hl]
    decide +kernel
  rw [map_key_emitted, hdepth]

/-- The full grid has `2 ^ 39` chunks, the last of which is the last voxel of level 13. -/
lemma last_full : ∃ l : List VoxelKey, (planOf fullGrid 7 1).chunks.map PlannedChunk.key =
    l ++ [⟨13, 8191, 8191, 8191⟩] ∧ l.length + 1 = 2 ^ 39 := by
  obtain ⟨cells, hcells⟩ := coords_concat 63
  obtain ⟨octants, hoctants⟩ := coords_concat 1
  have hlength : ((planOf fullGrid 7 1).chunks.map PlannedChunk.key).length = 2 ^ 39 := by
    rw [keys_full, List.length_flatMap]
    simp only [List.length_map, List.map_const', List.sum_replicate, levelVoxels,
      List.length_flatMap, length_coords, smul_eq_mul]
    norm_num
  have hlast : ∃ l : List VoxelKey, (planOf fullGrid 7 1).chunks.map PlannedChunk.key =
      l ++ [⟨13, 8191, 8191, 8191⟩] := by
    rw [keys_full, levelVoxels]
    norm_num only
    rw [hcells, hoctants]
    simp only [List.flatMap_append, List.map_append, List.flatMap_singleton, List.map_singleton,
      ← List.append_assoc]
    exact ⟨_, rfl⟩
  obtain ⟨l, hl⟩ := hlast
  refine ⟨l, hl, ?_⟩
  rw [← hlength, hl, List.length_append, List.length_singleton]

/-- A point of the last voxel is filed under no chunk that contains it: the only such chunk has an
index beyond 32 bits.  And where the index fits, the leaf of a point at level 32 need not be below
the chunk that contains the point. -/
theorem chunkIndexOf_overflow :
    0 < fullGrid (flat (2 ^ 7) ((unitBuilder.keyOf (pointAt 8 8 8) 7).x,
      (unitBuilder.keyOf (pointAt 8 8 8) 7).y, (unitBuilder.keyOf (pointAt 8 8 8) 7).z)) ∧
    (¬ ∃ i ch, unitBuilder.chunkIndexOf (planOf fullGrid 7 1) (buildChunkLut (planOf fullGrid 7 1))
        (pointAt 8 8 8) = some i ∧
      (planOf fullGrid 7 1).chunks[i.toNat]? = some ch ∧
        unitBuilder.keyOf (pointAt 8 8 8) ch.level = ch.key) ∧
    ∃ ch ∈ (planOf splitGrid 1 1).chunks, unitBuilder.keyOf (pointAt 1 2 3) ch.level = ch.key ∧
      unitBuilder.pushIntoLeaf32 ∅ (pointAt 1 2 3) 32 =
        BucketMap.push ∅ (unitBuilder.keyOf32 (pointAt 1 2 3) 32) (pointAt 1 2 3) ∧
      (unitBuilder.keyOf32 (pointAt 1 2 3) 32).ancestorAt32 ch.level ≠ ch.key := by
  refine ⟨by decide, ?_, ⟨2, 2, 2, 2, 1⟩, by decide +kernel, by decide +kernel, rfl,
    by decide +kernel⟩
  rintro ⟨i, ch, -, hch, hin⟩
  obtain ⟨l, hl, hlen⟩ := last_full
  have hget : ((planOf fullGrid 7 1).chunks.map PlannedChunk.key)[l.length]? =
      some ⟨13, 8191, 8191, 8191⟩ := by
    rw [hl, List.getElem?_append_right le_rfl, Nat.sub_self]
    rfl
  rw [List.getElem?_map, Option.map_eq_some_iff] at hget
  obtain ⟨d, hd, hdk⟩ := hget
  have hlevel : d.level = 13 := congrArg VoxelKey.level hdk
  have hdin : unitBuilder.keyOf (pointAt 8 8 8) d.level = d.key := by
    rw [hlevel, hdk]
    decide +kernel
  have hi : i.toNat = l.length := OctreeBuilder.chunk_unique hch hd hin hdin
  have := i.toNat_lt
  omega

end CopcConverter
