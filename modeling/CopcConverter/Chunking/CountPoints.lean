import CopcConverter.Chunking.ComputePlan
import CopcConverter.Chunking.Distribute
import CopcConverter.Octree.FromScan

/-!
# The counting pass

`count_points` streams the input files with some workers side by side.  They share a grid of
counters, one of which is raised by an atomic increment for every point, and each worker keeps the
bounds of its own points, which are merged at the end.

No interleaving of the workers gets stuck, since a point never falls outside of the grid, and the
increments of different workers commute.  So at the end of every run the counters are the counts of
the cells modulo `2 ^ 32`, whatever the split of the files.  The counters have 32 bits, and the plan
that is made of them is right exactly as long as no cell gets that many points: one more point in a
full counter brings it back to zero, and the points of that cell are in no chunk.
-/

namespace CopcConverter

open CubeGrid LevelTree Lists Workers

variable {F : Type} [FloatArith F]

/-! ## The bounds of the points -/

/-- The bounds observed during the counting pass. -/
structure ActualBounds (F : Type) where
  minX : F
  minY : F
  minZ : F
  maxX : F
  maxY : F
  maxZ : F

namespace ActualBounds

/-- The bounds before the first point, for the two infinities of the arithmetic. -/
def empty (infinity negInfinity : F) : ActualBounds F :=
  ⟨infinity, infinity, infinity, negInfinity, negInfinity, negInfinity⟩

/-- Widen the bounds by a point. -/
def track (s : ActualBounds F) (wx wy wz : F) : ActualBounds F where
  minX := if FloatArith.gt s.minX wx then wx else s.minX
  minY := if FloatArith.gt s.minY wy then wy else s.minY
  minZ := if FloatArith.gt s.minZ wz then wz else s.minZ
  maxX := if FloatArith.gt wx s.maxX then wx else s.maxX
  maxY := if FloatArith.gt wy s.maxY then wy else s.maxY
  maxZ := if FloatArith.gt wz s.maxZ then wz else s.maxZ

/-- The bounds of two workers. -/
def merge (s other : ActualBounds F) : ActualBounds F where
  minX := FloatArith.min s.minX other.minX
  minY := FloatArith.min s.minY other.minY
  minZ := FloatArith.min s.minZ other.minZ
  maxX := FloatArith.max s.maxX other.maxX
  maxY := FloatArith.max s.maxY other.maxY
  maxZ := FloatArith.max s.maxZ other.maxZ

end ActualBounds

/-! ## One point -/

namespace OctreeBuilder

variable (b : OctreeBuilder F)

/-- A world coordinate in output units: rounded, and saturated to 32 bits. -/
def units (a : Axis) (w : F) : Int32 :=
  saturate32 (FloatArith.toI64 (FloatArith.round ((w - b.offset a) / b.scale a)))

/-- The point that the distribute phase will store for some world coordinates. -/
def roundTrip (pos : Axis → F) : RawPoint :=
  { (default : RawPoint) with
    x := b.units .x (pos .x)
    y := b.units .y (pos .y)
    z := b.units .z (pos .z) }

/-- The index of the counter of a point. -/
def cellIdx (gridSize gridDepth : ℕ) (pos : Axis → F) : ℕ :=
  flat gridSize (b.cellOf ⟨gridSize, gridDepth, []⟩ (b.roundTrip pos))

/-- Raise the counter of a point, wrapping around; an index outside the grid panics. -/
def onGrid (gridSize gridDepth : ℕ) (pos : Axis → F) (grid : ℕ → UInt32) : Option (ℕ → UInt32) :=
  let idx := b.cellIdx gridSize gridDepth pos
  if idx < gridSize * gridSize * gridSize then
    some (Function.update grid idx (grid idx + 1))
  else none

/-- Widen the bounds of a worker by a point. -/
def onBounds (pos : Axis → F) (localBounds : ActualBounds F) : Option (ActualBounds F) :=
  let p := b.roundTrip pos
  some (localBounds.track (b.worldX p) (b.worldY p) (b.worldZ p))

end OctreeBuilder

/-- In exact arithmetic the point is the one that the encoder makes. -/
theorem roundTrip_eq_encode (b : OctreeBuilder ℚ) (pos : Axis → ℚ) :
    b.roundTrip pos = b.encode ⟨pos, default⟩ := by
  have hunits : ∀ a w, b.units a w = saturate32 (b.roundedUnits a w) := by
    intro a w
    unfold OctreeBuilder.units OctreeBuilder.roundedUnits
    rw [round_eq, toI64_intCast]
    -- the cast to 64 bits cuts off only what the cast to 32 bits does
    apply congrArg Int32.ofInt
    omega
  rw [OctreeBuilder.roundTrip, OctreeBuilder.encode, hunits, hunits, hunits]

/-! ## All workers -/

/-- The split of the input files that the counting pass uses. -/
def splitFiles {α : Type} (files : List α) (numWorkers : ℕ) : List (List α) :=
  (List.range numWorkers).map (workerFiles files numWorkers)

/-- The workers before their first point, each with the points of its files to go through. -/
def countStart (infinity negInfinity : F) (split : List (List (List (Axis → F)))) :
    Crew (Axis → F) (ℕ → UInt32) (ActualBounds F) where
  shared := fun _ => 0
  workers := split.map fun files => ⟨files.flatten, ActualBounds.empty infinity negInfinity⟩

/-- The bounds that a worker finds in some points. -/
def OctreeBuilder.localBounds (b : OctreeBuilder F) (infinity negInfinity : F)
    (points : List (Axis → F)) : ActualBounds F :=
  (points.map b.roundTrip).foldl (fun s p => s.track (b.worldX p) (b.worldY p) (b.worldZ p))
    (ActualBounds.empty infinity negInfinity)

/-- The merged bounds of all workers. -/
def actualBounds (infinity negInfinity : F) (crew : Crew (Axis → F) (ℕ → UInt32) (ActualBounds F)) :
    ActualBounds F :=
  (crew.workers.map Worker.own).foldl ActualBounds.merge (ActualBounds.empty infinity negInfinity)

/-- The split gives every file to one worker. -/
lemma flatten_splitFiles {α : Type} (files : List α) {numWorkers : ℕ} (hpos : 0 < numWorkers) :
    (splitFiles files numWorkers).flatten = files := by
  rw [splitFiles, ← List.flatMap_def, flatMap_workerFiles files hpos]

/-! ## The counters after a run -/

section Count

variable {b : OctreeBuilder F} {gridSize gridDepth : ℕ}

/-- No index is outside the grid. -/
lemma cellIdx_lt (hsize : 0 < gridSize) (pos : Axis → F) :
    b.cellIdx gridSize gridDepth pos < gridSize * gridSize * gridSize := by
  apply lt_of_flat
  apply mem_coords.mpr
  simp only [OctreeBuilder.cellOf]
  omega

/-- Counting some points one after the other. -/
lemma foldlM_onGrid (hsize : 0 < gridSize) (points : List (Axis → F)) (grid : ℕ → UInt32) :
    points.foldlM (fun grid pos => b.onGrid gridSize gridDepth pos grid) grid =
      some ((points.map b.roundTrip).foldl (fun grid p =>
        let idx := flat gridSize (b.cellOf ⟨gridSize, gridDepth, []⟩ p)
        Function.update grid idx (grid idx + 1)) grid) := by
  induction points generalizing grid with
  | nil => rfl
  | cons pos points ih =>
    have hstep : b.onGrid gridSize gridDepth pos grid =
        some (Function.update grid (b.cellIdx gridSize gridDepth pos)
          (grid (b.cellIdx gridSize gridDepth pos) + 1)) := if_pos (cellIdx_lt hsize pos)
    rw [List.foldlM_cons, hstep, List.map_cons, List.foldl_cons]
    exact ih _

/-- Widening bounds by some points one after the other. -/
lemma foldlM_onBounds (points : List (Axis → F)) (s : ActualBounds F) :
    points.foldlM (fun s pos => b.onBounds pos s) s =
      some ((points.map b.roundTrip).foldl
        (fun s p => s.track (b.worldX p) (b.worldY p) (b.worldZ p)) s) := by
  induction points generalizing s with
  | nil => rfl
  | cons pos points ih =>
    rw [List.foldlM_cons, List.map_cons, List.foldl_cons]
    exact ih _

variable {infinity negInfinity : F} {split : List (List (List (Axis → F)))}
  {schedule : List ℕ} {crew : Crew (Axis → F) (ℕ → UInt32) (ActualBounds F)}

/-- No step of any worker fails. -/
lemma ready_countStart (hsize : 0 < gridSize) : Ready (b.onGrid gridSize gridDepth) b.onBounds
    (fun _ => True) (countStart infinity negInfinity split) where
  good := trivial
  shared _ _ pos _ _ _ := ⟨_, if_pos (cellIdx_lt hsize pos), trivial⟩
  own w _ := ⟨_, foldlM_onBounds w.todo w.own⟩

/-- However the increments are interleaved, a counter ends at its number of points, as far as 32
bits hold it. -/
lemma crew_counts (hsize : 0 < gridSize)
    (hrun : (countStart infinity negInfinity split).run (b.onGrid gridSize gridDepth) b.onBounds
      schedule = some crew) (hdone : crew.Finished) (i : ℕ) :
    crew.shared i = UInt32.ofNat (split.flatten.flatten.countP fun pos =>
      b.cellIdx gridSize gridDepth pos = i) := by
  obtain ⟨⟨trace, hperm, htrace⟩, -⟩ := run_finished hrun hdone
  have htodo : (countStart infinity negInfinity split).workers.flatMap Worker.todo =
      split.flatten.flatten := by
    rw [countStart, List.flatMap_map, List.flatten_flatten]
    rfl
  rw [htodo] at hperm
  rw [foldlM_onGrid hsize] at htrace
  have hgrid : b.countPoints gridSize gridDepth (trace.map b.roundTrip) = crew.shared :=
    Option.some.inj htrace
  rw [← hgrid, b.countPoints_eq, List.countP_map, ← hperm.countP_eq]
  rfl

/-- However the increments are interleaved, the grid is that of one worker that counts all
points. -/
lemma crew_countPoints (hsize : 0 < gridSize)
    (hrun : (countStart infinity negInfinity split).run (b.onGrid gridSize gridDepth) b.onBounds
      schedule = some crew) (hdone : crew.Finished) :
    crew.shared = b.countPoints gridSize gridDepth (split.flatten.flatten.map b.roundTrip) := by
  funext i
  rw [crew_counts hsize hrun hdone, b.countPoints_eq, List.countP_map]
  rfl

/-- However the workers are interleaved, the bounds are those that each worker finds alone. -/
theorem crew_bounds
    (hrun : (countStart infinity negInfinity split).run (b.onGrid gridSize gridDepth) b.onBounds
      schedule = some crew) (hdone : crew.Finished) :
    actualBounds infinity negInfinity crew =
      (split.map fun files => b.localBounds infinity negInfinity files.flatten).foldl
        ActualBounds.merge (ActualBounds.empty infinity negInfinity) := by
  obtain ⟨-, hall⟩ := run_finished hrun hdone
  have hworkers : List.Forall₂ (fun files (w : Worker (Axis → F) (ActualBounds F)) =>
      b.localBounds infinity negInfinity files.flatten = w.own) split crew.workers := by
    refine (List.forall₂_map_left_iff.mp hall).imp fun files w hw => ?_
    apply Option.some.inj
    rw [← hw.own, foldlM_onBounds, OctreeBuilder.localBounds]
  have hown : split.map (fun files => b.localBounds infinity negInfinity files.flatten) =
      crew.workers.map Worker.own := by
    rw [← List.forall₂_eq_eq_eq]
    exact List.forall₂_map_left_iff.mpr (List.forall₂_map_right_iff.mpr hworkers)
  rw [actualBounds, hown]

end Count

/-! ## The plan -/

/-- The chunks cover a voxel: whatever lies far enough below it lies in one of them. -/
def Covered (chunks : List PlannedChunk) (cell : VoxelKey) : Prop :=
  ∃ depth, ∀ v, IsAncestor cell v → depth ≤ v.level → ∃ ch ∈ chunks, IsAncestor ch.key v

/-- A cell with a positive counter is covered by the plan. -/
lemma covered_of_pos {grid : ℕ → UInt32} {gridDepth : ℕ} (chunkTarget : ℕ) {c : ℕ × ℕ × ℕ}
    (hc : c ∈ coords (2 ^ gridDepth)) (hpos : 0 < grid (flat (2 ^ gridDepth) c)) :
    Covered (mergeSparseCells grid (2 ^ gridDepth) gridDepth chunkTarget)
      (cellKey gridDepth c) := by
  have htotal : 0 < cellTotal grid gridDepth (cellKey gridDepth c) := by
    unfold cellTotal cellKey
    rw [Nat.sub_self, voxelTotal]
    exact UInt32.lt_iff_toNat_lt.mp hpos
  obtain ⟨e, he, hec⟩ : ∃ e, IsEmitter grid gridDepth chunkTarget e ∧
      IsAncestor e (cellKey gridDepth c) :=
    exists_emitter (mem_coords.mp hc) le_rfl htotal (Or.inl rfl)
  set k := emitDepth gridDepth chunkTarget (cellTotal grid gridDepth e) e with hk
  refine ⟨e.level + k, fun v hcv hlevel => ?_⟩
  -- the chunk is the voxel above at the depth of the chunks of the emitting voxel
  have hanc : IsAncestor (ancestorAt v (e.level + k)) v := isAncestor_ancestorAt hlevel
  have hchunk : (ancestorAt v (e.level + k)).level = e.level + k := by
    rw [← VoxelKey.level_eq, level_ancestorAt hlevel]
  have hbelow : IsAncestor e (ancestorAt v (e.level + k)) := by
    apply (hec.trans hcv).of_level_le hanc
    rw [level_ancestorAt hlevel]
    exact Nat.le_add_right e.level k
  obtain ⟨ch, hch, hkey⟩ := List.mem_map.mp (mem_plan_keys.mpr ⟨e, he, hbelow, hchunk⟩)
  exact ⟨ch, hch, hkey ▸ hanc⟩

/-- The counters and the chunks made of them are right for some points: every counter is the number
of points of its cell, the estimates add up to the number of points, and the chunks cover the cell
of every point. -/
structure PlanExact (b : OctreeBuilder F) (gridSize gridDepth chunkTarget : ℕ)
    (points : List (Axis → F)) (grid : ℕ → UInt32) : Prop where
  counted : ∀ i < gridSize * gridSize * gridSize,
    (grid i).toNat = points.countP fun pos => b.cellIdx gridSize gridDepth pos = i
  total : ((mergeSparseCells grid gridSize gridDepth chunkTarget).map
    PlannedChunk.pointCount).sum = points.length
  covered : ∀ pos ∈ points, Covered (mergeSparseCells grid gridSize gridDepth chunkTarget)
    (b.keyOf (b.roundTrip pos) gridDepth)

section Exact

variable {b : OctreeBuilder F} {gridDepth : ℕ}

/-- The cell of a point is its voxel at the depth of the grid. -/
lemma cellIdx_eq (b : OctreeBuilder F) (gridDepth : ℕ) (pos : Axis → F) :
    ∃ c ∈ coords (2 ^ gridDepth), b.cellIdx (2 ^ gridDepth) gridDepth pos = flat (2 ^ gridDepth) c ∧
      b.keyOf (b.roundTrip pos) gridDepth = cellKey gridDepth c := by
  set p := b.roundTrip pos with hp
  have hcell : b.cellOf ⟨2 ^ gridDepth, gridDepth, []⟩ p =
      ((b.keyOf p gridDepth).x, (b.keyOf p gridDepth).y, (b.keyOf p gridDepth).z) :=
    show b.cellOf (planOf (fun _ => 0) gridDepth 0) p = _ from OctreeBuilder.cellOf_eq b p
  have hlt := pointToKey_lt (b.worldX p) (b.worldY p) (b.worldZ p) b.cx b.cy b.cz b.halfsize
    gridDepth
  refine ⟨((b.keyOf p gridDepth).x, (b.keyOf p gridDepth).y, (b.keyOf p gridDepth).z),
    mem_coords.mpr hlt, ?_, rfl⟩
  exact congrArg (flat (2 ^ gridDepth)) hcell

/-- Counters of 32 bits are right as long as no cell has `2 ^ 32` points or more, and so is the
plan. -/
lemma planExact_iff (chunkTarget : ℕ) {points : List (Axis → F)} {grid : ℕ → UInt32}
    (hgrid : ∀ i, grid i = UInt32.ofNat (points.countP fun pos =>
      b.cellIdx (2 ^ gridDepth) gridDepth pos = i)) :
    PlanExact b (2 ^ gridDepth) gridDepth chunkTarget points grid ↔
      ∀ i < 2 ^ gridDepth * 2 ^ gridDepth * 2 ^ gridDepth,
        (points.countP fun pos => b.cellIdx (2 ^ gridDepth) gridDepth pos = i) < 2 ^ 32 := by
  have hsize : 0 < 2 ^ gridDepth := Nat.two_pow_pos gridDepth
  constructor
  · intro h i hi
    rw [← h.counted i hi]
    exact (grid i).toNat_lt
  · intro h
    have hcounted : ∀ i < 2 ^ gridDepth * 2 ^ gridDepth * 2 ^ gridDepth, (grid i).toNat =
        points.countP fun pos => b.cellIdx (2 ^ gridDepth) gridDepth pos = i := by
      intro i hi
      rw [hgrid, UInt32.toNat_ofNat', Nat.mod_eq_of_lt (h i hi)]
    refine ⟨hcounted, ?_, fun pos hpos => ?_⟩
    · rw [sum_plan, Finset.sum_congr rfl fun i hi => hcounted i (Finset.mem_range.mp hi)]
      exact sum_countP fun pos _ => cellIdx_lt hsize pos
    · obtain ⟨c, hc, hidx, hkey⟩ := cellIdx_eq b gridDepth pos
      rw [hkey]
      apply covered_of_pos chunkTarget hc
      -- the point itself is counted
      apply UInt32.lt_iff_toNat_lt.mpr
      rw [hcounted _ (lt_of_flat hc)]
      exact List.countP_pos_iff.mpr ⟨pos, hpos, decide_eq_true hidx⟩

end Exact

/-- **The counting pass is exact as long as no cell overflows.**  No interleaving of the workers
gets stuck.  At the end of every run, for every split of the files, all counters and the plan are
right for all points if and only if every cell has fewer than `2 ^ 32` points. -/
theorem countPoints_exact_iff (b : OctreeBuilder F) (infinity negInfinity : F)
    (totalPoints memoryBudget numWorkers : ℕ) (chunkTargetOverride : Option ℕ)
    (split : List (List (List (Axis → F)))) :
    let gridSize := selectGridSize totalPoints memoryBudget
    let gridDepth := trailingZeros gridSize
    let chunkTarget :=
      chunkTargetOverride.getD (computeChunkTarget F memoryBudget numWorkers totalPoints)
    let start := countStart infinity negInfinity split
    (∀ schedule mid,
      start.run (b.onGrid gridSize gridDepth) b.onBounds schedule = some mid →
      ∃ more crew,
        mid.run (b.onGrid gridSize gridDepth) b.onBounds more = some crew ∧ crew.Finished) ∧
    ∀ schedule crew,
      start.run (b.onGrid gridSize gridDepth) b.onBounds schedule = some crew → crew.Finished →
      (PlanExact b gridSize gridDepth chunkTarget split.flatten.flatten crew.shared ↔
        ∀ i < gridSize * gridSize * gridSize, (split.flatten.flatten.countP fun pos =>
          b.cellIdx gridSize gridDepth pos = i) < 2 ^ 32) := by
  intro gridSize gridDepth chunkTarget start
  have hsize : gridSize = 2 ^ gridDepth := (selectGridSize_eq totalPoints memoryBudget).1
  clear_value gridDepth gridSize chunkTarget
  subst hsize
  have hpos : 0 < 2 ^ gridDepth := Nat.two_pow_pos gridDepth
  refine ⟨fun schedule mid hmid => ?_, fun schedule crew hrun hdone => ?_⟩
  · exact ((ready_countStart hpos).run hmid).exists_finish
  · exact planExact_iff chunkTarget fun i => crew_counts hpos hrun hdone i

/-- Two workers count a point each. -/
theorem countPoints_exact_pair :
    ∃ crew : Crew (Axis → ℚ) (ℕ → UInt32) (ActualBounds ℚ), crew.Finished ∧
      PlanExact unitBuilder 128 7 1 [fun _ => 1, fun _ => -1] crew.shared := by
  obtain ⟨hfinish, hexact⟩ := countPoints_exact_iff unitBuilder (2 ^ 1024) (-2 ^ 1024) 2 (2 ^ 30) 2
    (some 1) [[[fun _ => 1]], [[fun _ => -1]]]
  have hsize : selectGridSize 2 (2 ^ 30) = 128 := by decide +kernel
  have hdepth : trailingZeros 128 = 7 := by decide
  rw [hsize, hdepth] at hfinish hexact
  obtain ⟨schedule, crew, hrun, hdone⟩ := hfinish [] _ rfl
  refine ⟨crew, hdone, (hexact schedule crew hrun hdone).mpr fun i _ => ?_⟩
  exact List.countP_le_length.trans_lt (by decide)

/-- However the increments were interleaved, the chunks are those of the plan for the points that
are stored. -/
theorem crew_plan {b : OctreeBuilder F} {infinity negInfinity : F} {totalPoints memoryBudget : ℕ}
    {split : List (List (List (Axis → F)))} {schedule : List ℕ}
    {crew : Crew (Axis → F) (ℕ → UInt32) (ActualBounds F)} (numWorkers : ℕ)
    (chunkTargetOverride : Option ℕ)
    (hrun : (countStart infinity negInfinity split).run
      (b.onGrid (selectGridSize totalPoints memoryBudget)
        (trailingZeros (selectGridSize totalPoints memoryBudget))) b.onBounds schedule = some crew)
    (hdone : crew.Finished) :
    (b.computeChunkPlan totalPoints memoryBudget numWorkers chunkTargetOverride
      (split.flatten.flatten.map b.roundTrip)).chunks =
    mergeSparseCells crew.shared (selectGridSize totalPoints memoryBudget)
      (trailingZeros (selectGridSize totalPoints memoryBudget))
      (chunkTargetOverride.getD (computeChunkTarget F memoryBudget numWorkers totalPoints)) := by
  have hpos : 0 < selectGridSize totalPoints memoryBudget := by
    rw [(selectGridSize_eq totalPoints memoryBudget).1]
    exact Nat.two_pow_pos _
  rw [crew_countPoints hpos hrun hdone]
  rfl

/-! ## A cell that overflows -/

/-- As many points in one place as a counter of 32 bits has values. -/
def coincident : List (Axis → ℚ) := List.replicate (2 ^ 32) fun _ => 0

/-- A grid without a positive counter has no chunks. -/
lemma mergeSparseCells_zero (gridDepth chunkTarget : ℕ) :
    mergeSparseCells (fun _ => 0) (2 ^ gridDepth) gridDepth chunkTarget = [] := by
  have hkeys : (mergeSparseCells (fun _ => 0) (2 ^ gridDepth) gridDepth chunkTarget).map
      PlannedChunk.key = [] := by
    refine List.eq_nil_iff_forall_not_mem.mpr fun v hv => ?_
    obtain ⟨e, he, -⟩ := mem_plan_keys.mp hv
    have hpos := he.2.2.1
    rw [cellTotal, voxelTotal_const] at hpos
    exact absurd hpos (Nat.not_lt_zero _)
  exact List.map_eq_nil_iff.mp hkeys

/-- Counting the coincident points brings the counter of their cell back to zero: the plan has no
chunk for any of them. -/
theorem coincident_uncounted : ∃ schedule crew,
    (countStart (2 ^ 1024) (-2 ^ 1024) [[coincident]]).run (unitBuilder.onGrid 128 7)
      unitBuilder.onBounds schedule = some crew ∧ crew.Finished ∧
    coincident.length = 2 ^ 32 ∧ selectGridSize (2 ^ 32) (2 ^ 30) = 128 ∧
    (∀ i, crew.shared i = 0) ∧ mergeSparseCells crew.shared 128 7 1 = [] ∧
    ¬ PlanExact unitBuilder 128 7 1 coincident crew.shared := by
  have hlen : coincident.length = 2 ^ 32 := List.length_replicate
  obtain ⟨schedule, crew, hrun, hdone⟩ := (@ready_countStart ℚ _ unitBuilder 128 7 (2 ^ 1024)
    (-2 ^ 1024) [[coincident]] (by decide)).exists_finish
  have hzero : ∀ i, crew.shared i = 0 := by
    intro i
    rw [crew_counts (by decide) hrun hdone i, List.flatten_singleton, List.flatten_singleton,
      coincident, List.countP_replicate]
    split_ifs
    · rfl
    · rfl
  have hplan : mergeSparseCells crew.shared 128 7 1 = [] := by
    rw [show crew.shared = fun _ => 0 from funext hzero]
    exact mergeSparseCells_zero 7 1
  refine ⟨schedule, crew, hrun, hdone, hlen, by decide +kernel, hzero, hplan, fun h => ?_⟩
  have htotal := h.total
  rw [hplan, hlen] at htotal
  exact absurd htotal (by decide)

end CopcConverter
