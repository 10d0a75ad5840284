import CopcConverter.Foundations.CubeGrid
import CopcConverter.Foundations.Footprint
import CopcConverter.Octree.VoxelKey

/-!
# Merging sparse grid cells into chunks

`merge_sparse_cells` collapses the counting grid level by level and emits a chunk root wherever a
group cannot be merged.  A parent takes the total of its eight children when none of them is blocked
and the total stays within the target; otherwise it is blocked itself and its unblocked children
with points become chunks.  A cell of the finest level above the target is divided further, into
sub-chunks of equal size without looking at the points.

The arrays of the source are functions on flat indices here.  The lemmas of this file say what one
level does: the parent array holds the totals of the voxels of the next level, with `SENTINEL`
exactly where the total exceeds the target, and the emitted chunks are those of the blocked parents'
children.
-/

namespace CopcConverter

open CubeGrid

/-- A single chunk in the plan: an octree voxel at some level, plus its estimated point count. -/
structure PlannedChunk where
  level : ℕ
  gx : ℕ
  gy : ℕ
  gz : ℕ
  pointCount : ℕ
  deriving DecidableEq, Repr

/-- The root voxel of a chunk. -/
def PlannedChunk.key (c : PlannedChunk) : VoxelKey := ⟨c.level, c.gx, c.gy, c.gz⟩

/-- The full chunk plan. -/
structure ChunkPlan where
  gridSize : ℕ
  gridDepth : ℕ
  chunks : List PlannedChunk

/-- Hard cap on how many extra octree levels a single over-target finest cell may be sub-split
into. -/
def splitLevelCap : ℕ := 6

/-- Marks a cell that cannot be merged any further. -/
def sentinel : ℤ := -1

/-! ## Splitting one cell -/

/-- The loop of `split_extra_levels` from depth `k` on.  The source compares the two sides as `f64`;
cell counts fit in 32 bits, and so does a target below such a count, so that the conversions and the
division by a power of two are exact. -/
def splitExtraLevelsFrom (pop chunkTarget : ℕ) : ℕ → ℕ → ℕ
  | 0, k => k
  | fuel + 1, k =>
    if (pop : ℚ) / 8 ^ k > chunkTarget then
      if k + 1 ≥ splitLevelCap then k + 1 else splitExtraLevelsFrom pop chunkTarget fuel (k + 1)
    else k

/-- Extra octree levels needed so a finest-grid cell holding `pop` points sub-divides into
sub-chunks of about `chunkTarget` points each. -/
def splitExtraLevels (pop chunkTarget : ℕ) : ℕ :=
  if pop ≤ chunkTarget then 0 else splitExtraLevelsFrom pop chunkTarget splitLevelCap 0

/-- The sub-chunks at the given local octants, the first `remainder` of which get one point more. -/
def subChunks (subLevel baseX baseY baseZ estEach : ℕ) :
    ℕ → List (ℕ × ℕ × ℕ) → List PlannedChunk
  | _, [] => []
  | remainder, (sx, sy, sz) :: rest =>
    { level := subLevel
      gx := baseX ||| sx
      gy := baseY ||| sy
      gz := baseZ ||| sz
      pointCount := if remainder > 0 then estEach + 1 else estEach } ::
      subChunks subLevel baseX baseY baseZ estEach (remainder - 1) rest

/-- The chunk root(s) pushed for one grid cell. -/
def emitChunkRoot (level gridDepth gx gy gz pop chunkTarget : ℕ) : List PlannedChunk :=
  let k := if level = gridDepth then splitExtraLevels pop chunkTarget else 0
  if k = 0 then [⟨level, gx, gy, gz, pop⟩]
  else
    let nSub := 1 <<< (3 * k)
    let estEach := pop / nSub
    let remainder := pop - estEach * nSub
    subChunks (gridDepth + k) (gx <<< k) (gy <<< k) (gz <<< k) estEach remainder (coords (1 <<< k))

/-! ## Collapsing the grid -/

/-- The child `d` of the cell `p`. -/
def childCell (p d : ℕ × ℕ × ℕ) : ℕ × ℕ × ℕ :=
  (p.1 * 2 + d.1, p.2.1 * 2 + d.2.1, p.2.2 * 2 + d.2.2)

/-- The values of the eight children of a parent, with their cells. -/
def childPops (current : ℕ → ℤ) (currentSize : ℕ) (p : ℕ × ℕ × ℕ) : List (ℤ × ℕ × ℕ × ℕ) :=
  (coords 2).map fun d => (current (flat currentSize (childCell p d)), childCell p d)

/-- Some child is blocked, or the children together hold more than the target. -/
def blockedParent (chunkTarget : ℕ) (pops : List (ℤ × ℕ × ℕ × ℕ)) : Bool :=
  let sum := ((pops.filter fun c => c.1 ≠ sentinel).map Prod.fst).sum
  (pops.any fun c => c.1 = sentinel) || sum.toNat > chunkTarget

/-- Collapse the eight children of one parent: the parent array and the chunks so far. -/
def collapseCell (gridDepth chunkTarget level currentSize : ℕ) (current : ℕ → ℤ)
    (s : (ℕ → ℤ) × List PlannedChunk) (p : ℕ × ℕ × ℕ) : (ℕ → ℤ) × List PlannedChunk :=
  let pops := childPops current currentSize p
  let sum := ((pops.filter fun c => c.1 ≠ sentinel).map Prod.fst).sum
  let parentIdx := flat (currentSize / 2) p
  if blockedParent chunkTarget pops then
    (Function.update s.1 parentIdx sentinel,
      s.2 ++ pops.flatMap fun c =>
        if c.1 > 0 then
          emitChunkRoot level gridDepth c.2.1 c.2.2.1 c.2.2.2 c.1.toNat chunkTarget
        else [])
  else if sum > 0 then (Function.update s.1 parentIdx sum, s.2)
  else s

/-- Collapse the groups of one level into the level above. -/
def collapseLevel (gridDepth chunkTarget level currentSize : ℕ) (current : ℕ → ℤ)
    (chunks : List PlannedChunk) : (ℕ → ℤ) × List PlannedChunk :=
  (coords (currentSize / 2)).foldl (collapseCell gridDepth chunkTarget level currentSize current)
    (fun _ => 0, chunks)

/-- Collapse the levels `level` down to 1. -/
def collapseLevels (gridDepth chunkTarget : ℕ) :
    ℕ → ℕ → (ℕ → ℤ) → List PlannedChunk → (ℕ → ℤ) × List PlannedChunk
  | 0, _, current, chunks => (current, chunks)
  | level + 1, currentSize, current, chunks =>
    let r := collapseLevel gridDepth chunkTarget (level + 1) currentSize current chunks
    collapseLevels gridDepth chunkTarget level (currentSize / 2) r.1 r.2

/-- Walk the implicit pyramid from the finest level to the root, collapsing groups whose combined
point count fits within the target, and return the list of chunk roots. -/
def mergeSparseCells (grid : ℕ → UInt32) (gridSize gridDepth chunkTarget : ℕ) :
    List PlannedChunk :=
  let r := collapseLevels gridDepth chunkTarget gridDepth gridSize (fun i => (grid i).toNat) []
  let rootPop := r.1 0
  if rootPop > 0 then r.2 ++ emitChunkRoot 0 gridDepth 0 0 0 rootPop.toNat chunkTarget else r.2

/-! ## Voxel totals -/

/-- The number of counted points in a voxel `n` levels above the finest one: a cell's own count, or
the total of the eight children. -/
def voxelTotal (grid : ℕ → UInt32) (gridDepth : ℕ) : ℕ → ℕ × ℕ × ℕ → ℕ
  | 0, c => (grid (flat (2 ^ gridDepth) c)).toNat
  | n + 1, c => ((coords 2).map fun d => voxelTotal grid gridDepth n (childCell c d)).sum

/-- What the arrays of the collapse hold: the total, or the sentinel when it exceeds the target at a
level above the finest. -/
def cellValue (grid : ℕ → UInt32) (gridDepth chunkTarget n : ℕ) (c : ℕ × ℕ × ℕ) : ℤ :=
  if 0 < n ∧ chunkTarget < voxelTotal grid gridDepth n c then sentinel
  else voxelTotal grid gridDepth n c

variable {grid : ℕ → UInt32} {gridDepth chunkTarget : ℕ}

lemma mem_coords_two {d : ℕ × ℕ × ℕ} (h : d ∈ coords 2) : d.1 < 2 ∧ d.2.1 < 2 ∧ d.2.2 < 2 :=
  mem_coords.mp h

/-- A child holds at most what its parent does. -/
lemma voxelTotal_child_le {n : ℕ} {c d : ℕ × ℕ × ℕ} (hd : d ∈ coords 2) :
    voxelTotal grid gridDepth n (childCell c d) ≤ voxelTotal grid gridDepth (n + 1) c :=
  List.single_le_sum (fun _ _ => Nat.zero_le _) _ (List.mem_map_of_mem hd)

/-- A voxel `n` levels up covers `8 ^ n` cells. -/
lemma voxelTotal_le (grid : ℕ → UInt32) (gridDepth n : ℕ) (c : ℕ × ℕ × ℕ) :
    voxelTotal grid gridDepth n c ≤ 8 ^ n * (2 ^ 32 - 1) := by
  induction n generalizing c with
  | zero =>
    have := (grid (flat (2 ^ gridDepth) c)).toNat_lt
    rw [voxelTotal]
    omega
  | succ n ih =>
    have hsum := List.sum_le_card_nsmul
      ((coords 2).map fun d => voxelTotal grid gridDepth n (childCell c d)) (8 ^ n * (2 ^ 32 - 1))
      fun x hx => by
        obtain ⟨d, -, rfl⟩ := List.mem_map.mp hx
        exact ih _
    rw [List.length_map, length_coords, smul_eq_mul] at hsum
    rw [voxelTotal, pow_succ]
    omega

/-- The `i64` arrays of the source cannot overflow on a grid of depth at most 10; the grids it
builds have depth 7 to 9. -/
theorem voxelTotal_lt_i64 {n : ℕ} (hn : n ≤ 10) (c : ℕ × ℕ × ℕ) :
    voxelTotal grid gridDepth n c < 2 ^ 63 := by
  have hpow : 8 ^ n ≤ 8 ^ 10 := Nat.pow_le_pow_right (by omega) hn
  have := voxelTotal_le grid gridDepth n c
  omega

lemma cellValue_eq_sentinel {n : ℕ} {c : ℕ × ℕ × ℕ} :
    cellValue grid gridDepth chunkTarget n c = sentinel ↔
      0 < n ∧ chunkTarget < voxelTotal grid gridDepth n c := by
  unfold cellValue sentinel
  split_ifs with h
  · simp [h]
  · simp only [h]

lemma cellValue_pos {n : ℕ} {c : ℕ × ℕ × ℕ} :
    0 < cellValue grid gridDepth chunkTarget n c ↔ 0 < voxelTotal grid gridDepth n c ∧
      (n = 0 ∨ voxelTotal grid gridDepth n c ≤ chunkTarget) := by
  unfold cellValue sentinel
  split_ifs with h
  · omega
  · omega

lemma cellValue_toNat {n : ℕ} {c : ℕ × ℕ × ℕ} (h : 0 < cellValue grid gridDepth chunkTarget n c) :
    (cellValue grid gridDepth chunkTarget n c).toNat = voxelTotal grid gridDepth n c := by
  unfold cellValue sentinel at *
  split_ifs at * with hs
  · omega
  · omega

/-! ## One level -/

/-- The array of one level of the collapse. -/
def HoldsLevel (grid : ℕ → UInt32) (gridDepth chunkTarget n size : ℕ) (current : ℕ → ℤ) : Prop :=
  ∀ c ∈ coords size, current (flat size c) = cellValue grid gridDepth chunkTarget n c

/-- The chunks emitted for the children of a parent whose total exceeds the target. -/
def parentChunks (grid : ℕ → UInt32) (gridDepth chunkTarget level n : ℕ) (p : ℕ × ℕ × ℕ) :
    List PlannedChunk :=
  if chunkTarget < voxelTotal grid gridDepth (n + 1) p then
    (coords 2).flatMap fun d =>
      let c := childCell p d
      if 0 < cellValue grid gridDepth chunkTarget n c then
        emitChunkRoot level gridDepth c.1 c.2.1 c.2.2 (voxelTotal grid gridDepth n c) chunkTarget
      else []
  else []

section Level

variable {n half : ℕ} {current : ℕ → ℤ}

/-- The children's values, as gathered for a parent. -/
lemma childPops_eq (h : HoldsLevel grid gridDepth chunkTarget n (2 * half) current)
    {p : ℕ × ℕ × ℕ} (hp : p ∈ coords half) : childPops current (2 * half) p =
      (coords 2).map fun d =>
        (cellValue grid gridDepth chunkTarget n (childCell p d), childCell p d) := by
  refine List.map_congr_left fun d hd => ?_
  obtain ⟨hx, hy, hz⟩ := mem_coords.mp hp
  obtain ⟨hdx, hdy, hdz⟩ := mem_coords_two hd
  rw [h (childCell p d) (mem_coords.mpr ?_)]
  simp only [childCell]
  omega

/-- When no child is blocked, their values add up to the total of the parent. -/
lemma sum_unblocked {p : ℕ × ℕ × ℕ} (h : ∀ d ∈ coords 2,
    cellValue grid gridDepth chunkTarget n (childCell p d) ≠ sentinel) :
    ((((coords 2).map fun d => (cellValue grid gridDepth chunkTarget n (childCell p d),
      childCell p d)).filter fun c => c.1 ≠ sentinel).map Prod.fst).sum =
        (voxelTotal grid gridDepth (n + 1) p : ℤ) := by
  have hall : ∀ c ∈ (coords 2).map fun d => (cellValue grid gridDepth chunkTarget n
      (childCell p d), childCell p d), decide (c.1 ≠ sentinel) = true := fun c hc => by
    obtain ⟨d, hd, rfl⟩ := List.mem_map.mp hc
    exact decide_eq_true (h d hd)
  rw [List.filter_eq_self.mpr hall, List.map_map, voxelTotal]
  have hval : (coords 2).map (Prod.fst ∘ fun d =>
      (cellValue grid gridDepth chunkTarget n (childCell p d), childCell p d)) =
      (coords 2).map fun d => (voxelTotal grid gridDepth n (childCell p d) : ℤ) := by
    refine List.map_congr_left fun d hd => ?_
    have hne := mt cellValue_eq_sentinel.mpr (h d hd)
    simp only [Function.comp_apply, cellValue, if_neg hne]
  rw [hval]
  simp [List.map_map, Function.comp_def]

/-- A parent is blocked exactly when its total exceeds the target. -/
lemma blockedParent_eq {p : ℕ × ℕ × ℕ} :
    blockedParent chunkTarget ((coords 2).map fun d =>
      (cellValue grid gridDepth chunkTarget n (childCell p d), childCell p d)) = true ↔
        chunkTarget < voxelTotal grid gridDepth (n + 1) p := by
  unfold blockedParent
  by_cases h : ∀ d ∈ coords 2, cellValue grid gridDepth chunkTarget n (childCell p d) ≠ sentinel
  · rw [sum_unblocked h]
    have hany : (((coords 2).map fun d => (cellValue grid gridDepth chunkTarget n (childCell p d),
        childCell p d)).any fun c => decide (c.1 = sentinel)) = false := by
      simpa using h
    rw [hany]
    simp
  · push Not at h
    obtain ⟨d, hd, hs⟩ := h
    have hany : (((coords 2).map fun d => (cellValue grid gridDepth chunkTarget n (childCell p d),
        childCell p d)).any fun c => decide (c.1 = sentinel)) = true :=
      List.any_eq_true.mpr ⟨_, List.mem_map_of_mem hd, by simpa using hs⟩
    rw [hany, Bool.true_or]
    simp only [true_iff]
    exact lt_of_lt_of_le (cellValue_eq_sentinel.mp hs).2 (voxelTotal_child_le hd)

/-- Collapsing one parent. -/
lemma collapseCell_eq (level : ℕ) (h : HoldsLevel grid gridDepth chunkTarget n (2 * half) current)
    {p : ℕ × ℕ × ℕ} (hp : p ∈ coords half) (s : (ℕ → ℤ) × List PlannedChunk)
    (hs : s.1 (flat half p) = 0) :
    (collapseCell gridDepth chunkTarget level (2 * half) current s p).1 =
        Function.update s.1 (flat half p) (cellValue grid gridDepth chunkTarget (n + 1) p) ∧
      (collapseCell gridDepth chunkTarget level (2 * half) current s p).2 =
        s.2 ++ parentChunks grid gridDepth chunkTarget level n p := by
  have hhalf : 2 * half / 2 = half := by omega
  unfold collapseCell parentChunks
  simp only [childPops_eq h hp, hhalf]
  by_cases hb : chunkTarget < voxelTotal grid gridDepth (n + 1) p
  · rw [if_pos (blockedParent_eq.mpr hb), if_pos hb]
    refine ⟨?_, ?_⟩
    · rw [cellValue, if_pos ⟨Nat.succ_pos n, hb⟩]
    · simp only [List.flatMap_map]
      refine congrArg (s.2 ++ ·) (List.flatMap_congr fun d _ => ?_)
      by_cases hpos : 0 < cellValue grid gridDepth chunkTarget n (childCell p d)
      · rw [if_pos hpos, if_pos hpos, cellValue_toNat hpos]
      · rw [if_neg hpos, if_neg hpos]
  · have hfree : ∀ d ∈ coords 2,
        cellValue grid gridDepth chunkTarget n (childCell p d) ≠ sentinel := fun d hd hs =>
      hb (lt_of_lt_of_le (cellValue_eq_sentinel.mp hs).2 (voxelTotal_child_le hd))
    have hval : cellValue grid gridDepth chunkTarget (n + 1) p =
        voxelTotal grid gridDepth (n + 1) p := if_neg fun h => hb h.2
    rw [if_neg (mt blockedParent_eq.mp hb), if_neg hb, sum_unblocked hfree, hval, List.append_nil]
    by_cases hpos : (0 : ℤ) < voxelTotal grid gridDepth (n + 1) p
    · rw [if_pos hpos]
      exact ⟨rfl, rfl⟩
    · have h0 : (voxelTotal grid gridDepth (n + 1) p : ℤ) = 0 := by omega
      rw [if_neg hpos, h0]
      exact ⟨(Function.update_eq_self_iff.mpr hs.symm).symm, rfl⟩

/-- Collapsing one level: the next array and the chunks emitted on the way. -/
lemma collapseLevel_eq (level : ℕ) (h : HoldsLevel grid gridDepth chunkTarget n (2 * half) current)
    (chunks : List PlannedChunk) :
    HoldsLevel grid gridDepth chunkTarget (n + 1) half
        (collapseLevel gridDepth chunkTarget level (2 * half) current chunks).1 ∧
      (collapseLevel gridDepth chunkTarget level (2 * half) current chunks).2 =
        chunks ++ (coords half).flatMap (parentChunks grid gridDepth chunkTarget level n) := by
  have hhalf : 2 * half / 2 = half := by omega
  unfold collapseLevel
  rw [hhalf]
  -- the parents gone through have their values, the others are still zero
  have hfold : ∀ done todo : List (ℕ × ℕ × ℕ), (done ++ todo).Nodup →
      (∀ c ∈ done ++ todo, c ∈ coords half) → ∀ s : (ℕ → ℤ) × List PlannedChunk,
      (∀ c ∈ done, s.1 (flat half c) = cellValue grid gridDepth chunkTarget (n + 1) c) →
      (∀ c ∈ todo, s.1 (flat half c) = 0) →
      (∀ c ∈ done ++ todo, (todo.foldl (collapseCell gridDepth chunkTarget level (2 * half) current)
          s).1 (flat half c) = cellValue grid gridDepth chunkTarget (n + 1) c) ∧
        (todo.foldl (collapseCell gridDepth chunkTarget level (2 * half) current) s).2 =
          s.2 ++ todo.flatMap (parentChunks grid gridDepth chunkTarget level n) := by
    intro done todo
    induction todo generalizing done with
    | nil =>
      intro _ _ s hdone _
      exact ⟨by simpa using hdone, by simp⟩
    | cons p todo ih =>
      intro hnodup hin s hdone htodo
      have hp : p ∈ coords half := hin p (by simp)
      obtain ⟨h1, h2⟩ := collapseCell_eq level h hp s (htodo p List.mem_cons_self)
      have hassoc : done ++ p :: todo = (done ++ [p]) ++ todo := by simp
      have hne : ∀ c ∈ done ++ todo, flat half c ≠ flat half p := fun c hc he => by
        have hcp := flat_injOn (hin c (by simp at hc ⊢; tauto)) hp he
        subst hcp
        exact (List.nodup_middle.mp hnodup).notMem hc
      obtain ⟨ih1, ih2⟩ := ih (done ++ [p]) (hassoc ▸ hnodup) (hassoc ▸ hin)
        (collapseCell gridDepth chunkTarget level (2 * half) current s p)
        (fun c hc => by
          rw [h1]
          rcases List.mem_append.mp hc with hc | hc
          · rw [Function.update_of_ne (hne c (List.mem_append_left _ hc)), hdone c hc]
          · rw [List.mem_singleton.mp hc, Function.update_self])
        (fun c hc => by
          rw [h1, Function.update_of_ne (hne c (List.mem_append_right _ hc)),
            htodo c (List.mem_cons_of_mem _ hc)])
      refine ⟨hassoc ▸ ih1, ?_⟩
      rw [List.foldl_cons, ih2, h2, List.flatMap_cons, List.append_assoc]
  exact hfold [] (coords half) (nodup_coords half) (fun c hc => hc) (fun _ => 0, chunks)
    (fun c hc => absurd hc List.not_mem_nil) fun _ _ => rfl

end Level

end CopcConverter
