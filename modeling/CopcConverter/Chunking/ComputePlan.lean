import CopcConverter.Chunking.ChunkLut

/-!
# Computing the chunk plan

`compute_chunk_plan` picks a grid, counts the points of every cell and merges the sparse cells into
chunks of about the target size.  The grid has 128, 256 or 512 cells a side, by the number of points
and as long as its counters take at most a twentieth of the memory budget.  The target follows from
the memory budget and the number of workers, between a lower and an upper clamp, unless the caller
overrides it.

The counters have 32 bits.  As long as no cell gets more points than that, the count of a voxel at
or above the grid depth is the number of points whose voxel it is, since the grid cell of a point
and its voxel at the grid depth are the same thing.  So the plan is the merge of the true counts.
-/

namespace CopcConverter

open CubeGrid

variable {F : Type} [FloatArith F]

/-! ## The grid size -/

/-- Pick the counting grid resolution based on total point count and the memory budget. -/
def selectGridSize (totalPoints memoryBudget : ℕ) : ℕ :=
  let preferred := if totalPoints < 100000000 then 128 else if totalPoints < 500000000 then 256
    else 512
  let gridBudgetFractionBp := 500
  let budgetBytes := saturatingMul memoryBudget gridBudgetFractionBp / 10000
  let maxCells := budgetBytes / 4
  ([512, 256, 128].find? fun candidate =>
    candidate ^ 3 ≤ maxCells && candidate ≤ preferred).getD 128

/-- The number of trailing zero bits of a 32-bit number. -/
def trailingZeros (n : ℕ) : ℕ := (List.range 32).findIdx n.testBit

/-- The grid has one of three sizes, each a power of two with the grid depth as exponent. -/
lemma selectGridSize_eq (totalPoints memoryBudget : ℕ) :
    selectGridSize totalPoints memoryBudget =
        2 ^ trailingZeros (selectGridSize totalPoints memoryBudget) ∧
      trailingZeros (selectGridSize totalPoints memoryBudget) ≤ 9 := by
  have hmem : selectGridSize totalPoints memoryBudget ∈ [512, 256, 128] := by
    unfold selectGridSize
    simp only
    set fits : ℕ → Bool := fun candidate => _
    cases hfind : [512, 256, 128].find? fits with
    | none => exact by decide
    | some size => exact List.mem_of_find?_eq_some hfind
  generalize selectGridSize totalPoints memoryBudget = size at hmem ⊢
  have hsizes : ∀ size ∈ [512, 256, 128],
      size = 2 ^ trailingZeros size ∧ trailingZeros size ≤ 9 := by
    decide
  exact hsizes size hmem

/-! ## The chunk target -/

/-- Lower clamp on chunk target size (points). -/
def minChunkPoints : ℕ := 1000000

/-- Estimated bytes per point held in memory while a chunk is being built. -/
def perPointOverheadBytes : ℕ := 170

/-- Per-chunk peak working set during the in-memory build phase. -/
def perChunkPeakBytesPerPoint : ℕ := 600

/-- Aim for at least this many chunks per worker. -/
def parallelismTargetPerWorker : ℕ := 4

/-- Dynamic upper clamp on chunk target size, derived from the memory budget. -/
def maxChunkPoints (F : Type) [FloatArith F] (memoryBudget : ℕ) : ℕ :=
  let raw := FloatArith.toU64 (FloatArith.lit (F := F) memoryBudget * FloatArith.lit (4 / 10) /
    FloatArith.lit perChunkPeakBytesPerPoint)
  max raw minChunkPoints

/-- Compute the dynamic chunk target size from the memory budget and worker count, applying clamping
and a parallelism floor. -/
def computeChunkTarget (F : Type) [FloatArith F] (memoryBudget numWorkers totalPoints : ℕ) : ℕ :=
  let workers := max numWorkers 1
  let raw := FloatArith.toU64 (FloatArith.lit (F := F) memoryBudget * FloatArith.lit (6 / 10) /
    FloatArith.lit (workers * perPointOverheadBytes : ℕ))
  let parallelismTarget := workers * parallelismTargetPerWorker
  let maxForParallelism :=
    if parallelismTarget = 0 then u64Size - 1
    else max (totalPoints / parallelismTarget) minChunkPoints
  max minChunkPoints (min (min raw maxForParallelism) (maxChunkPoints F memoryBudget))

/-! ## The plan -/

namespace OctreeBuilder

variable (b : OctreeBuilder F)

/-- The counting pass: one more in the cell of every point, in a grid of 32-bit counters. -/
def countPoints (gridSize gridDepth : ℕ) (points : List RawPoint) : ℕ → UInt32 :=
  points.foldl (fun grid p =>
    let idx := flat gridSize (b.cellOf ⟨gridSize, gridDepth, []⟩ p)
    Function.update grid idx (grid idx + 1)) fun _ => 0

/-- Run the counting pass and merge step. -/
def computeChunkPlan (totalPoints memoryBudget numWorkers : ℕ) (chunkTargetOverride : Option ℕ)
    (points : List RawPoint) : ChunkPlan :=
  let gridSize := selectGridSize totalPoints memoryBudget
  let gridDepth := trailingZeros gridSize
  let chunkTarget :=
    chunkTargetOverride.getD (computeChunkTarget F memoryBudget numWorkers totalPoints)
  { gridSize := gridSize
    gridDepth := gridDepth
    chunks := mergeSparseCells (b.countPoints gridSize gridDepth points) gridSize gridDepth
      chunkTarget }

/-- The counter of a cell is its number of points, as far as 32 bits hold it. -/
lemma countPoints_eq (gridSize gridDepth : ℕ) (points : List RawPoint) (i : ℕ) :
    b.countPoints gridSize gridDepth points i = UInt32.ofNat (points.countP fun p =>
      flat gridSize (b.cellOf ⟨gridSize, gridDepth, []⟩ p) = i) := by
  have hfrom : ∀ grid : ℕ → UInt32, (points.foldl (fun grid p =>
      let idx := flat gridSize (b.cellOf ⟨gridSize, gridDepth, []⟩ p)
      Function.update grid idx (grid idx + 1)) grid) i =
        grid i + UInt32.ofNat (points.countP fun p =>
          flat gridSize (b.cellOf ⟨gridSize, gridDepth, []⟩ p) = i) := by
    induction points with
    | nil => exact fun grid => (UInt32.add_zero _).symm
    | cons p points ih =>
      intro grid
      rw [List.foldl_cons, ih, List.countP_cons]
      by_cases hp : flat gridSize (b.cellOf ⟨gridSize, gridDepth, []⟩ p) = i
      · simp only [hp, Function.update_self, decide_true, if_true, UInt32.ofNat_add]
        rw [UInt32.add_assoc, UInt32.add_comm 1]
        rfl
      · simp only [Function.update_of_ne (Ne.symm hp), hp, decide_false]
        rfl
  exact (hfrom _).trans (UInt32.zero_add _)

/-- Two points have the same index in the grid when they are in the same voxel. -/
lemma flat_cellOf_eq_iff (gridDepth : ℕ) (p q : RawPoint) :
    flat (2 ^ gridDepth) (b.cellOf ⟨2 ^ gridDepth, gridDepth, []⟩ q) =
      flat (2 ^ gridDepth) ((b.keyOf p gridDepth).x, (b.keyOf p gridDepth).y,
        (b.keyOf p gridDepth).z) ↔ b.keyOf q gridDepth = b.keyOf p gridDepth := by
  have hcell : b.cellOf ⟨2 ^ gridDepth, gridDepth, []⟩ q =
      ((b.keyOf q gridDepth).x, (b.keyOf q gridDepth).y, (b.keyOf q gridDepth).z) :=
    show b.cellOf (planOf (fun _ => 0) gridDepth 0) q = _ from cellOf_eq b q
  have hmem : ∀ r, ((b.keyOf r gridDepth).x, (b.keyOf r gridDepth).y, (b.keyOf r gridDepth).z) ∈
      coords (2 ^ gridDepth) := fun r => mem_coords.mpr (pointToKey_lt (b.worldX r) (b.worldY r)
    (b.worldZ r) b.cx b.cy b.cz b.halfsize gridDepth)
  have hlevel : ∀ r, (b.keyOf r gridDepth).level = gridDepth := fun _ => rfl
  rw [hcell]
  constructor
  · intro h
    obtain ⟨hx, hyz⟩ := Prod.mk.inj (flat_injOn (hmem q) (hmem p) h)
    obtain ⟨hy, hz⟩ := Prod.mk.inj hyz
    exact VoxelKey.eq_of_coords ((hlevel q).trans (hlevel p).symm) hx hy hz
  · intro h
    rw [h]

/-- With fewer than `2 ^ 32` points, the counter of the cell of a point is the number of points in
the voxel of the cell. -/
lemma cellTotal_countPoints {gridDepth : ℕ} {points : List RawPoint}
    (hlen : points.length < 2 ^ 32) (p : RawPoint) :
    cellTotal (b.countPoints (2 ^ gridDepth) gridDepth points) gridDepth (b.keyOf p gridDepth) =
      points.countP fun q => b.keyOf q gridDepth = b.keyOf p gridDepth := by
  have hcount : (points.countP fun q => flat (2 ^ gridDepth)
      (b.cellOf ⟨2 ^ gridDepth, gridDepth, []⟩ q) = flat (2 ^ gridDepth)
        ((b.keyOf p gridDepth).x, (b.keyOf p gridDepth).y, (b.keyOf p gridDepth).z)) =
      points.countP fun q => b.keyOf q gridDepth = b.keyOf p gridDepth :=
    List.countP_congr fun q _ => by
      rw [decide_eq_true_eq, decide_eq_true_eq, flat_cellOf_eq_iff]
  have hlt : (points.countP fun q => b.keyOf q gridDepth = b.keyOf p gridDepth) < 2 ^ 32 :=
    Nat.lt_of_le_of_lt List.countP_le_length hlen
  unfold cellTotal
  rw [show gridDepth - (b.keyOf p gridDepth).level = 0 from Nat.sub_self _, voxelTotal,
    countPoints_eq, hcount, UInt32.toNat_ofNat', Nat.mod_eq_of_lt hlt]

/-- The plan is that of its grid. -/
lemma computeChunkPlan_eq (totalPoints memoryBudget numWorkers : ℕ)
    (chunkTargetOverride : Option ℕ) (points : List RawPoint) :
    let gridDepth := trailingZeros (selectGridSize totalPoints memoryBudget)
    b.computeChunkPlan totalPoints memoryBudget numWorkers chunkTargetOverride points =
      planOf (b.countPoints (2 ^ gridDepth) gridDepth points) gridDepth
        (chunkTargetOverride.getD (computeChunkTarget F memoryBudget numWorkers totalPoints)) := by
  unfold computeChunkPlan planOf
  simp only
  rw [← (selectGridSize_eq totalPoints memoryBudget).1]

end OctreeBuilder

end CopcConverter
