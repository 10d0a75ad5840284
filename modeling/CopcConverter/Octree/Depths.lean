import CopcConverter.Chunking.ComputePlan
import CopcConverter.Octree.Int32Keys
import CopcConverter.Octree.SplitLevel

/-!
# How deep the points are classified

`point_to_key` descends as many levels as it is told, with 32-bit voxel coordinates: at most 31.
The depths it is told add up along the way of a point, from the grid over the split cell and the
split chunk to the leaves, whose extra levels are limited only by the number of points.  All depths
of a run are listed here, stage by stage, as they are passed.

Every depth but that of the leaves of a split chunk stays far below the limit.  These leaves pass it
when a sub-octant holds too many points for the levels that are left, and only then; the condition
is about the numbers of points in voxels, at the level where the chunk is split.  Coincident points
are on either side of it: 450 million of them get the deepest leaves that fit, and 600 million get
leaves at level 32.
-/

namespace CopcConverter

open CubeGrid LevelTree

variable {F : Type} [FloatArith F]

/-! ## The depths that are passed to `point_to_key` -/

/-- The most points of a sub-octant that the budget of a chunk has room for. -/
def maxPointsInBudget (chunkMemBudget : ℕ) : ℕ :=
  max (chunkMemBudget / perChunkBytesPerPointBuild) 1

namespace OctreeBuilder

variable (b : OctreeBuilder F)

/-- The depths passed to classify one point into its chunk. -/
def routeDepths (plan : ChunkPlan) (lut : ChunkLut) (p : RawPoint) : List ℕ :=
  let cellIdx := flat plan.gridSize (b.cellOf plan p)
  plan.gridDepth ::
    if lut.cells cellIdx = subsplitMarker then
      (lut.sub cellIdx).toList.map fun s => plan.gridDepth + s.k
    else []

/-- The depths passed by `distribute`, in the counting pass and in the partition pass. -/
def distributeDepths (plan : ChunkPlan) (points : List RawPoint) : List ℕ :=
  (points.map fun _ => plan.gridDepth) ++ points.flatMap (b.routeDepths plan (buildChunkLut plan))

/-- The depths passed by the subdivision loop. -/
def subdivideDepths (ord : IterOrder) : ℕ → Nodes × ℕ → List ℕ
  | 0, _ => []
  | fuel + 1, s =>
    let large := oversized (ord.sub fuel) s.1
    if large.isEmpty then []
    else if large.any fun k => chunkDepthCap ≤ k.level then []
    else large.flatMap (fun k => (s.1.get k).map fun _ => k.level + 1) ++
      subdivideDepths ord fuel (large.foldl b.splitOversized s)

/-- The depths passed by a subtree build: that of its leaves, and those of `finish_subtree`. -/
def subtreeDepths (ord : IterOrder) (root : VoxelKey) (points : List RawPoint) (estPoints : ℕ) :
    List ℕ :=
  let leafDepth := root.level + chunkLocalExtraLevels F estPoints
  let leaves := b.leavesAt points leafDepth
  (points.map fun _ => leafDepth) ++
    if leaves.keys.isEmpty then []
    else b.subdivideDepths (ord.sub 0) (chunkDepthCap + 1) (leaves, leafDepth)

/-- The depths passed by a spilled build: in `choose_split_level`, to route the points into their
sub-octants, and in the builds of these. -/
def spilledDepths (ord : IterOrder) (chunk : PlannedChunk) (points : List RawPoint)
    (chunkMemBudget : ℕ) : List ℕ :=
  let splitLevel := b.splitLevelOf (ord.sub 0) chunk points chunkMemBudget
  let s := b.spillOf ord chunk points chunkMemBudget
  (points.map fun _ => chunk.level + spillDepthCap) ++ (points.map fun _ => splitLevel) ++
    s.subRoots.zipIdx.flatMap fun e =>
      b.subtreeDepths ((ord.sub 3).sub e.2) e.1 (s.files e.2) (s.files e.2).length

/-- The depths passed by the build of a chunk. -/
def chunkDepths (ord : IterOrder) (chunkActualCounts : Option (List ℕ))
    (files : ℕ → List RawPoint) (chunkMemBudget : ℕ) (chunkIdx : ℕ) (chunk : PlannedChunk) :
    List ℕ :=
  if saturatingMul (actualPoints chunkActualCounts files chunkIdx) perChunkBytesPerPointBuild ≤
      chunkMemBudget then
    b.subtreeDepths ord chunk.key (files chunkIdx) (actualPoints chunkActualCounts files chunkIdx)
  else b.spilledDepths ord chunk (files chunkIdx) chunkMemBudget

/-- The depths passed to distribute the points and to build every chunk. -/
def depthsPassed (ord : IterOrder) (memoryBudget cores : ℕ) (plan : ChunkPlan)
    (chunkActualCounts : Option (List ℕ)) (points : List RawPoint) (files : ℕ → List RawPoint) :
    List ℕ :=
  b.distributeDepths plan points ++ plan.chunks.zipIdx.flatMap fun e =>
    b.chunkDepths ((ord.sub 1).sub e.2) chunkActualCounts files
      (buildConcurrencyAndBudget F memoryBudget cores).2 e.2 e.1

end OctreeBuilder

/-! ## Extra levels of the leaves -/

/-- Comparing a number of points with the room for points at one of the first extra levels is exact:
powers of two divide without rounding, and the room is far below `2 ^ 53`. -/
def ExactLeafTest (F : Type) [FloatArith F] : Prop :=
  ∀ n d, d ≤ 12 → (FloatArith.gt (FloatArith.lit (F := F) (n : ℕ) / FloatArith.lit (8 ^ d))
    (FloatArith.lit maxLeafPoints) = true ↔ maxLeafPoints * 8 ^ d < n)

lemma exactLeafTest_rat : ExactLeafTest ℚ := fun n d _ => by
  change decide ((maxLeafPoints : ℚ) < (n : ℚ) / 8 ^ d) = true ↔ _
  rw [decide_eq_true_eq, lt_div_iff₀ (by positivity)]
  exact_mod_cast Iff.rfl

lemma extraLevelsFrom_le (n fuel d : ℕ) : extraLevelsFrom F n fuel d ≤ d + fuel := by
  induction fuel generalizing d with
  | zero => exact le_rfl
  | succ fuel ih =>
    rw [extraLevelsFrom]
    split_ifs
    · omega
    · exact (ih (d + 1)).trans (by omega)
    · omega

/-- The leaves of a subtree are at most 13 levels below its root. -/
lemma chunkLocalExtraLevels_le (n : ℕ) : chunkLocalExtraLevels F n ≤ 13 := by
  unfold chunkLocalExtraLevels
  split_ifs
  · exact Nat.zero_le _
  · exact extraLevelsFrom_le n 13 0

/-- The loop ends at the first level with room for the points, or at level 13. -/
lemma extraLevelsFrom_spec (hF : ExactLeafTest F) (n : ℕ) {fuel d : ℕ} (hd : d + fuel = 13)
    (hpos : 0 < fuel) (hbelow : ∀ j < d, maxLeafPoints * 8 ^ j < n) :
    (∀ j < extraLevelsFrom F n fuel d, maxLeafPoints * 8 ^ j < n) ∧
      (extraLevelsFrom F n fuel d = 13 ∨
        n ≤ maxLeafPoints * 8 ^ extraLevelsFrom F n fuel d) := by
  induction fuel generalizing d with
  | zero => omega
  | succ fuel ih =>
    have htest := hF n d (by omega)
    rw [extraLevelsFrom]
    by_cases hgt : maxLeafPoints * 8 ^ d < n
    · have hnext : ∀ j < d + 1, maxLeafPoints * 8 ^ j < n := fun j hj => by
        rcases Nat.lt_succ_iff_lt_or_eq.mp hj with hj | rfl
        · exact hbelow j hj
        · exact hgt
      rw [if_pos (htest.mpr hgt)]
      split_ifs with hlast
      · exact ⟨hnext, Or.inl (by omega)⟩
      · exact ih (by omega) (by omega) hnext
    · rw [if_neg (mt htest.mp hgt)]
      exact ⟨hbelow, Or.inr (Nat.not_lt.mp hgt)⟩

/-- A subtree gets at most `d` extra levels exactly when `d` levels have room for its points. -/
lemma chunkLocalExtraLevels_le_iff (hF : ExactLeafTest F) (n : ℕ) {d : ℕ} (hd : d ≤ 12) :
    chunkLocalExtraLevels F n ≤ d ↔ n ≤ maxLeafPoints * 8 ^ d := by
  unfold chunkLocalExtraLevels
  split_ifs with hsmall
  · have hpow : 1 ≤ 8 ^ d := Nat.one_le_pow _ _ (by norm_num)
    exact ⟨fun _ => hsmall.trans (Nat.le_mul_of_pos_right _ hpow), fun _ => Nat.zero_le d⟩
  · obtain ⟨hbelow, hend⟩ := extraLevelsFrom_spec hF n (show 0 + 13 = 13 from rfl)
      (by norm_num) fun j hj => absurd hj (Nat.not_lt_zero j)
    constructor
    · intro hle
      apply (hend.resolve_left (by omega)).trans
      exact Nat.mul_le_mul_left _ (Nat.pow_le_pow_right (by norm_num) hle)
    · intro hle
      by_contra hlt
      exact absurd (hbelow d (by omega)) (Nat.not_lt.mpr hle)

/-! ## The split level -/

namespace OctreeBuilder

variable {b : OctreeBuilder F}

/-- A chunk is split at level `l`: every candidate level above it has a voxel with more than
`maxPoints` of the points, and it has no such voxel itself or is the deepest candidate. -/
structure SplitsAt (b : OctreeBuilder F) (points : List RawPoint) (rootLevel maxPoints l : ℕ) :
    Prop where
  below : rootLevel < l
  le_deepest : l ≤ rootLevel + spillDepthCap
  crowded : ∀ m, rootLevel < m → m < l →
    ∃ k, maxPoints < points.countP fun p => b.keyOf p m = k
  fits : l = rootLevel + spillDepthCap ∨
    ∀ k, points.countP (fun p => b.keyOf p l = k) ≤ maxPoints

/-- Only one level qualifies. -/
lemma SplitsAt.unique {points : List RawPoint} {rootLevel maxPoints l m : ℕ}
    (hl : SplitsAt b points rootLevel maxPoints l) (hm : SplitsAt b points rootLevel maxPoints m) :
    l = m := by
  have hle : ∀ {l m}, SplitsAt b points rootLevel maxPoints l →
      SplitsAt b points rootLevel maxPoints m → l ≤ m := by
    intro l m hl hm
    by_contra hlt
    obtain ⟨k, hk⟩ := hl.crowded m hm.below (by omega)
    rcases hm.fits with he | hfits
    · have := hl.le_deepest
      omega
    · exact absurd (hfits k) (Nat.not_le.mpr hk)
  exact le_antisymm (hle hl hm) (hle hm hl)

/-- Some voxel holds more than `n` points exactly when the densest one does. -/
lemma lt_densest_iff {points : List RawPoint} {level n : ℕ} :
    n < b.densest points level ↔ ∃ k, n < points.countP fun p => b.keyOf p level = k := by
  constructor
  · intro h
    by_contra hnone
    push Not at hnone
    exact absurd (densest_le hnone) (Nat.not_le.mpr h)
  · rintro ⟨k, hk⟩
    exact hk.trans_le (countP_le_densest points level k)

/-- `choose_split_level` finds the level at which the chunk is split. -/
lemma splitsAt_chooseSplitLevel (b : OctreeBuilder F) (ord : IterOrder) {points : List RawPoint}
    (hne : points ≠ []) (chunkRoot : VoxelKey) (maxPoints : ℕ) :
    SplitsAt b points chunkRoot.level maxPoints
      (b.chooseSplitLevel ord points chunkRoot maxPoints).1 := by
  rw [b.chooseSplitLevel_plain ord hne, plainSplitLevel]
  simp only
  cases hfind : (List.range' (chunkRoot.level + 1) spillDepthCap).find? fun l =>
      decide (b.densest points l ≤ maxPoints) with
  | none =>
    have hall := List.find?_range'_eq_none.mp hfind
    refine ⟨Nat.lt_add_of_pos_right (by decide), le_rfl, fun m hm hlt => ?_, Or.inl rfl⟩
    have hm' := hall m hm (by simp only [Option.getD_none] at hlt; omega)
    exact lt_densest_iff.mp (by simpa using hm')
  | some l =>
    obtain ⟨hfits, hmem, hbefore⟩ := List.find?_range'_eq_some.mp hfind
    rw [List.mem_range'_1] at hmem
    refine ⟨hmem.1, ?_, fun m hm hlt => ?_, Or.inr fun k => ?_⟩
    · change l ≤ _
      omega
    · exact lt_densest_iff.mp (by simpa using hbefore m hm hlt)
    · exact (countP_le_densest points l k).trans (of_decide_eq_true hfits)

/-! ## The depths of each stage -/

/-- No depth of the subdivision loop is below the depth cap. -/
lemma le_of_mem_subdivideDepths {ord : IterOrder} {fuel : ℕ} {s : Nodes × ℕ} {d : ℕ}
    (h : d ∈ b.subdivideDepths ord fuel s) : d ≤ chunkDepthCap := by
  induction fuel generalizing s with
  | zero => cases h
  | succ fuel ih =>
    rw [subdivideDepths] at h
    split_ifs at h with hnone hcap
    · cases h
    · cases h
    · rcases List.mem_append.mp h with h | h
      · obtain ⟨k, hk, hd⟩ := List.mem_flatMap.mp h
        obtain ⟨-, -, rfl⟩ := List.mem_map.mp hd
        by_contra hlt
        exact hcap (List.any_eq_true.mpr ⟨k, hk, decide_eq_true (by omega)⟩)
      · exact ih h

/-- The depths of a subtree build are the depth of its leaves and depths within the cap. -/
lemma mem_subtreeDepths {ord : IterOrder} {root : VoxelKey} {points : List RawPoint}
    {estPoints d : ℕ} (h : d ∈ b.subtreeDepths ord root points estPoints) :
    (points ≠ [] ∧ d = root.level + chunkLocalExtraLevels F estPoints) ∨ d ≤ chunkDepthCap := by
  unfold subtreeDepths at h
  rcases List.mem_append.mp h with h | h
  · obtain ⟨p, hp, rfl⟩ := List.mem_map.mp h
    exact Or.inl ⟨List.ne_nil_of_mem hp, rfl⟩
  · split_ifs at h
    · cases h
    · exact Or.inr (le_of_mem_subdivideDepths h)

/-- The depth of the leaves is passed for every point. -/
lemma leafDepth_mem_subtreeDepths (ord : IterOrder) (root : VoxelKey) {points : List RawPoint}
    (hne : points ≠ []) (estPoints : ℕ) : root.level + chunkLocalExtraLevels F estPoints ∈
      b.subtreeDepths ord root points estPoints := by
  obtain ⟨p, hp⟩ := List.exists_mem_of_ne_nil points hne
  exact List.mem_append_left _ (List.mem_map.mpr ⟨p, hp, rfl⟩)

/-- The split descriptors of the routing table are those of planned chunks. -/
lemma sub_buildChunkLut (plan : ChunkPlan) {cellIdx : ℕ} {s : SubSplit}
    (h : (buildChunkLut plan).sub cellIdx = some s) :
    ∃ chunk ∈ plan.chunks, plan.gridDepth + s.k = chunk.level := by
  have hfold : ∀ (l : List (PlannedChunk × ℕ)) (lut : ChunkLut),
      (l.foldl (placeChunk plan) lut).sub cellIdx = some s →
      lut.sub cellIdx = some s ∨ ∃ e ∈ l, plan.gridDepth + s.k = e.1.level := by
    intro l
    induction l with
    | nil => exact fun lut h => Or.inl h
    | cons e l ih =>
      intro lut h
      rcases ih _ h with h | ⟨e', he', hl⟩
      · unfold placeChunk at h
        simp only at h
        split_ifs at h with hdeep
        · cases hsub : lut.sub (flat plan.gridSize (e.1.gx >>> (e.1.level - plan.gridDepth),
              e.1.gy >>> (e.1.level - plan.gridDepth),
              e.1.gz >>> (e.1.level - plan.gridDepth))) with
          | some t =>
            rw [hsub] at h
            exact Or.inl h
          | none =>
            rw [hsub] at h
            simp only [Function.update_apply] at h
            split_ifs at h
            · refine Or.inr ⟨e, List.mem_cons_self, ?_⟩
              rw [← Option.some.inj h]
              exact Nat.add_sub_cancel' hdeep.le
            · exact Or.inl h
        · exact Or.inl h
      · exact Or.inr ⟨e', List.mem_cons_of_mem _ he', hl⟩
  rcases hfold _ _ h with h | ⟨e, he, hl⟩
  · cases h
  · obtain ⟨chunk, i⟩ := e
    exact ⟨chunk, List.mem_of_getElem? (List.mem_zipIdx_iff_getElem?.mp he), hl⟩

end OctreeBuilder

/-- A planned chunk is at most the split cap below the grid. -/
lemma level_le_of_mem_planOf {grid : ℕ → UInt32} {gridDepth chunkTarget : ℕ} {c : PlannedChunk}
    (hc : c ∈ (planOf grid gridDepth chunkTarget).chunks) :
    c.level ≤ gridDepth + splitLevelCap := by
  obtain ⟨e, he, -, hl⟩ := mem_plan_keys.mp (List.mem_map_of_mem hc)
  have hcap := (splitExtraLevels_least (cellTotal grid gridDepth e) chunkTarget).1
  have hle := he.2.1
  unfold emitDepth at hl
  change c.level = _ at hl
  split_ifs at hl <;> omega

/-! ## When every depth fits -/

/-- The leaves of `n` points below a root at level `l` are within the coordinate range exactly when
the levels that are left have room for the points, or suffice for any number of them. -/
lemma add_extraLevels_le_iff (hF : ExactLeafTest F) (n : ℕ) {l : ℕ} (hl : l ≤ i32Levels) :
    l + chunkLocalExtraLevels F n ≤ i32Levels ↔
      l + 13 ≤ i32Levels ∨ n ≤ maxLeafPoints * 8 ^ (i32Levels - l) := by
  by_cases hshallow : l + 13 ≤ i32Levels
  · have := chunkLocalExtraLevels_le (F := F) n
    exact ⟨fun _ => Or.inl hshallow, fun _ => by omega⟩
  · rw [or_iff_right hshallow,
      ← chunkLocalExtraLevels_le_iff hF n (show i32Levels - l ≤ 12 by unfold i32Levels at *; omega)]
    omega

namespace OctreeBuilder

variable {b : OctreeBuilder F}

/-- The voxel coordinates of a depth fit an `i32`. -/
def CoordinatesFit (b : OctreeBuilder F) (d : ℕ) : Prop :=
  ∀ p, (b.keyOf p d).x < 2 ^ i32Levels ∧ (b.keyOf p d).y < 2 ^ i32Levels ∧
    (b.keyOf p d).z < 2 ^ i32Levels

lemma coordinatesFit (b : OctreeBuilder F) {d : ℕ} (hd : d ≤ i32Levels) : b.CoordinatesFit d := by
  intro p
  obtain ⟨hx, hy, hz⟩ := pointToKey_lt (b.worldX p) (b.worldY p) (b.worldZ p) b.cx b.cy b.cz
    b.halfsize d
  have hpow : 2 ^ d ≤ 2 ^ i32Levels := Nat.pow_le_pow_right (by norm_num) hd
  exact ⟨hx.trans_le hpow, hy.trans_le hpow, hz.trans_le hpow⟩

/-- In every chunk that is split, either any number of points fits below the split level, or no
voxel of it holds more points than the levels that are left have room for. -/
def LeavesFit (b : OctreeBuilder F) (memoryBudget cores : ℕ) (plan : ChunkPlan)
    (chunkActualCounts : Option (List ℕ)) (files : ℕ → List RawPoint) : Prop :=
  ∀ i chunk, plan.chunks[i]? = some chunk →
    (buildConcurrencyAndBudget F memoryBudget cores).2 <
      saturatingMul (actualPoints chunkActualCounts files i) perChunkBytesPerPointBuild →
    ∀ l, SplitsAt b (files i) chunk.level
      (maxPointsInBudget (buildConcurrencyAndBudget F memoryBudget cores).2) l →
    l + 13 ≤ i32Levels ∨
      ∀ k, (files i).countP (fun p => b.keyOf p l = k) ≤ maxLeafPoints * 8 ^ (i32Levels - l)

/-- The routing depths are those of the grid and of planned chunks. -/
lemma mem_distributeDepths {plan : ChunkPlan} {points : List RawPoint} {d : ℕ}
    (h : d ∈ b.distributeDepths plan points) :
    d = plan.gridDepth ∨ ∃ chunk ∈ plan.chunks, d = chunk.level := by
  rcases List.mem_append.mp h with h | h
  · obtain ⟨-, -, rfl⟩ := List.mem_map.mp h
    exact Or.inl rfl
  · obtain ⟨p, -, hd⟩ := List.mem_flatMap.mp h
    rcases List.mem_cons.mp hd with hd | hd
    · exact Or.inl hd
    · split_ifs at hd
      · obtain ⟨s, hs, rfl⟩ := List.mem_map.mp hd
        exact Or.inr (sub_buildChunkLut plan (Option.mem_toList.mp hs))
      · cases hd

/-- The split level is one of the candidates. -/
lemma splitLevelOf_le (b : OctreeBuilder F) (ord : IterOrder) (chunk : PlannedChunk)
    {points : List RawPoint} (hne : points ≠ []) (chunkMemBudget : ℕ) :
    b.splitLevelOf ord chunk points chunkMemBudget ≤ chunk.level + spillDepthCap :=
  (b.splitsAt_chooseSplitLevel ord hne chunk.key _).le_deepest

/-- The depths of a spilled build are within reach of the chunk, within the depth cap, or those of
the leaves of a sub-octant. -/
lemma mem_spilledDepths {ord : IterOrder} {chunk : PlannedChunk} {points : List RawPoint}
    {chunkMemBudget d : ℕ} (h : d ∈ b.spilledDepths ord chunk points chunkMemBudget) :
    points ≠ [] ∧ (d ≤ chunk.level + spillDepthCap ∨ d ≤ chunkDepthCap ∨
      ∃ k, d = b.splitLevelOf (ord.sub 0) chunk points chunkMemBudget +
        chunkLocalExtraLevels F (points.countP fun p =>
          b.keyOf p (b.splitLevelOf (ord.sub 0) chunk points chunkMemBudget) = k)) := by
  obtain ⟨-, hroots, hfiles⟩ := b.spill_files (ord.sub 1)
    (b.splitLevelOf (ord.sub 0) chunk points chunkMemBudget)
    (max (chunkMemBudget / 4 / RawPoint.recordSize b.numExtraBytes) 1) points
  unfold spilledDepths at h
  rcases List.mem_append.mp h with h | h
  · rcases List.mem_append.mp h with h | h
    · obtain ⟨p, hp, rfl⟩ := List.mem_map.mp h
      exact ⟨List.ne_nil_of_mem hp, Or.inl le_rfl⟩
    · obtain ⟨p, hp, rfl⟩ := List.mem_map.mp h
      have hne := List.ne_nil_of_mem hp
      exact ⟨hne, Or.inl (b.splitLevelOf_le (ord.sub 0) chunk hne chunkMemBudget)⟩
  · obtain ⟨⟨sub, i⟩, hmem, hd⟩ := List.mem_flatMap.mp h
    have hsub := List.mem_zipIdx_iff_getElem?.mp hmem
    obtain ⟨p, hp, hkey⟩ := (hroots sub).mp (List.mem_of_getElem? hsub)
    refine ⟨List.ne_nil_of_mem hp, Or.inr ?_⟩
    rcases mem_subtreeDepths hd with ⟨-, hd⟩ | hd
    · refine Or.inr ⟨sub, ?_⟩
      change d = sub.level + chunkLocalExtraLevels F
        (List.length ((b.spillOf ord chunk points chunkMemBudget).files i)) at hd
      rw [show (b.spillOf ord chunk points chunkMemBudget).files i = _ from hfiles i sub hsub,
        ← List.countP_eq_length_filter] at hd
      rw [hd, ← hkey]
      rfl
    · exact Or.inl hd

/-- The depth of the leaves of a sub-octant with points is passed. -/
lemma leafDepth_mem_spilledDepths (ord : IterOrder) (chunk : PlannedChunk) {points : List RawPoint}
    (chunkMemBudget : ℕ) {p : RawPoint} (hp : p ∈ points) {l : ℕ}
    (hl : l = b.splitLevelOf (ord.sub 0) chunk points chunkMemBudget) :
    l + chunkLocalExtraLevels F (points.countP fun q => b.keyOf q l = b.keyOf p l) ∈
      b.spilledDepths ord chunk points chunkMemBudget := by
  subst hl
  set l := b.splitLevelOf (ord.sub 0) chunk points chunkMemBudget with hl
  obtain ⟨-, hroots, hfiles⟩ := b.spill_files (ord.sub 1) l
    (max (chunkMemBudget / 4 / RawPoint.recordSize b.numExtraBytes) 1) points
  obtain ⟨i, hi⟩ := List.getElem?_of_mem ((hroots (b.keyOf p l)).mpr ⟨p, hp, rfl⟩)
  have hfile : (b.spillOf ord chunk points chunkMemBudget).files i =
      points.filter fun q => b.keyOf q l = b.keyOf p l := hfiles i _ hi
  refine List.mem_append_right _ (List.mem_flatMap.mpr
    ⟨(b.keyOf p l, i), List.mem_zipIdx_iff_getElem?.mpr hi, ?_⟩)
  have hne : (b.spillOf ord chunk points chunkMemBudget).files i ≠ [] := by
    rw [hfile]
    exact List.ne_nil_of_mem (List.mem_filter.mpr ⟨hp, decide_eq_true rfl⟩)
  have hleaf := b.leafDepth_mem_subtreeDepths ((ord.sub 3).sub i) (b.keyOf p l) hne
    (List.length ((b.spillOf ord chunk points chunkMemBudget).files i))
  rw [List.countP_eq_length_filter, ← hfile]
  exact hleaf

/-- The depths of the build of one chunk that is not too deep. -/
lemma chunkDepths_le_iff (hF : ExactLeafTest F) (ord : IterOrder)
    {chunkActualCounts : Option (List ℕ)} {files : ℕ → List RawPoint} {chunkMemBudget chunkIdx : ℕ}
    {chunk : PlannedChunk} (hlevel : chunk.level ≤ 15) :
    (∀ d ∈ b.chunkDepths ord chunkActualCounts files chunkMemBudget chunkIdx chunk, d ≤ i32Levels) ↔
      (chunkMemBudget <
          saturatingMul (actualPoints chunkActualCounts files chunkIdx) perChunkBytesPerPointBuild →
        ∀ l, SplitsAt b (files chunkIdx) chunk.level (maxPointsInBudget chunkMemBudget) l →
          l + 13 ≤ i32Levels ∨ ∀ k, (files chunkIdx).countP (fun p => b.keyOf p l = k) ≤
            maxLeafPoints * 8 ^ (i32Levels - l)) := by
  unfold chunkDepths
  split_ifs with hfits
  · -- the leaves of a chunk that is built in memory are never too deep
    refine ⟨fun _ hover => absurd hfits (Nat.not_le.mpr hover), fun _ d hd => ?_⟩
    have hextra := chunkLocalExtraLevels_le (F := F) (actualPoints chunkActualCounts files chunkIdx)
    rcases mem_subtreeDepths hd with ⟨-, rfl⟩ | hd
    · change chunk.level + _ ≤ _
      unfold i32Levels
      omega
    · unfold i32Levels chunkDepthCap at *
      omega
  · have hsplit : ∀ l, files chunkIdx ≠ [] →
        (SplitsAt b (files chunkIdx) chunk.level (maxPointsInBudget chunkMemBudget) l ↔
          l = b.splitLevelOf (ord.sub 0) chunk (files chunkIdx) chunkMemBudget) := fun l hne => by
      have hsome := b.splitsAt_chooseSplitLevel (ord.sub 0) hne chunk.key
        (maxPointsInBudget chunkMemBudget)
      exact ⟨fun h => h.unique hsome, fun h => h ▸ hsome⟩
    have hreach : files chunkIdx ≠ [] →
        b.splitLevelOf (ord.sub 0) chunk (files chunkIdx) chunkMemBudget ≤ i32Levels := by
      intro hne
      have := b.splitLevelOf_le (ord.sub 0) chunk hne chunkMemBudget
      unfold i32Levels spillDepthCap at *
      omega
    constructor
    · intro hdepths _ l hl
      by_contra hdeep
      push Not at hdeep
      obtain ⟨hdeep, k, hk⟩ := hdeep
      -- the points of the voxel `k` get their leaves below the limit
      obtain ⟨p, hp, hkey⟩ := List.countP_pos_iff.mp ((Nat.zero_le _).trans_lt hk)
      obtain rfl := of_decide_eq_true hkey
      have hne := List.ne_nil_of_mem hp
      have hl' := (hsplit l hne).mp hl
      have hle := hdepths _ (b.leafDepth_mem_spilledDepths ord chunk chunkMemBudget hp hl')
      rcases (add_extraLevels_le_iff hF _ (hl' ▸ hreach hne)).mp hle with h | h <;> omega
    · intro hroom d hd
      obtain ⟨hne, hd⟩ := mem_spilledDepths hd
      rcases hd with hd | hd | ⟨k, rfl⟩
      · unfold i32Levels spillDepthCap at *
        omega
      · unfold i32Levels chunkDepthCap at *
        omega
      · refine (add_extraLevels_le_iff hF _ (hreach hne)).mpr ?_
        refine (hroom (Nat.not_le.mp hfits) _ ((hsplit _ hne).mpr rfl)).imp_right fun h => h k

/-- **When no voxel coordinate overflows**: the depths of the whole run are at most 31, and their
coordinates fit an `i32`, exactly when every chunk that is split leaves enough levels for the leaves
of its sub-octants. -/
theorem depthsPassed_le_iff (hF : ExactLeafTest F) (b : OctreeBuilder F) (ord : IterOrder)
    (totalPoints memoryBudget numWorkers cores : ℕ) (chunkTargetOverride : Option ℕ)
    (chunkActualCounts : Option (List ℕ)) (points : List RawPoint) (files : ℕ → List RawPoint) :
    let plan := b.computeChunkPlan totalPoints memoryBudget numWorkers chunkTargetOverride points
    (∀ d ∈ b.depthsPassed ord memoryBudget cores plan chunkActualCounts points files,
        d ≤ i32Levels ∧ b.CoordinatesFit d) ↔
      b.LeavesFit memoryBudget cores plan chunkActualCounts files := by
  intro plan
  have hplan := b.computeChunkPlan_eq totalPoints memoryBudget numWorkers chunkTargetOverride points
  have hdepth := (selectGridSize_eq totalPoints memoryBudget).2
  have hgrid : plan.gridDepth ≤ 9 := hdepth
  have hlevel : ∀ chunk ∈ plan.chunks, chunk.level ≤ 15 := fun chunk hc => by
    rw [show plan = _ from hplan] at hc
    have hle := level_le_of_mem_planOf hc
    unfold splitLevelCap at hle
    omega
  have hfits : ∀ d, d ≤ i32Levels ∧ b.CoordinatesFit d ↔ d ≤ i32Levels := fun d =>
    and_iff_left_of_imp b.coordinatesFit
  simp only [hfits]
  constructor
  · intro h i chunk hi
    have hc := List.mem_of_getElem? hi
    refine (chunkDepths_le_iff hF ((ord.sub 1).sub i) (hlevel chunk hc)).mp fun d hd => ?_
    refine h d (List.mem_append_right _ (List.mem_flatMap.mpr ⟨(chunk, i), ?_, hd⟩))
    exact List.mem_zipIdx_iff_getElem?.mpr hi
  · intro h d hd
    rcases List.mem_append.mp hd with hd | hd
    · have hle : d ≤ 15 := by
        rcases mem_distributeDepths hd with rfl | ⟨chunk, hc, rfl⟩
        · omega
        · exact hlevel chunk hc
      unfold i32Levels
      omega
    · obtain ⟨⟨chunk, i⟩, hmem, hd⟩ := List.mem_flatMap.mp hd
      have hi := List.mem_zipIdx_iff_getElem?.mp hmem
      have hc := List.mem_of_getElem? hi
      exact (chunkDepths_le_iff hF ((ord.sub 1).sub i) (hlevel chunk hc)).mpr (h i chunk hi) d hd

end OctreeBuilder

/-! ## Coincident points -/

section Coincident

variable {b : OctreeBuilder F} {p : RawPoint} {n gridDepth : ℕ}

/-- Coincident points above a target of one get a chunk at the split depth of their cell. -/
lemma exists_coincident_chunk (h1 : 1 < n) (hn : n < 2 ^ 32) : ∃ (i : ℕ) (ch : PlannedChunk),
    (planOf (b.countPoints (2 ^ gridDepth) gridDepth (List.replicate n p)) gridDepth 1).chunks[i]? =
        some ch ∧ b.keyOf p ch.level = ch.key ∧ ch.level = gridDepth + splitExtraLevels n 1 := by
  set grid := b.countPoints (2 ^ gridDepth) gridDepth (List.replicate n p)
  have hcount : cellTotal grid gridDepth (b.keyOf p gridDepth) = n := by
    rw [OctreeBuilder.cellTotal_countPoints b (by rwa [List.length_replicate]),
      List.countP_replicate, if_pos (decide_eq_true rfl)]
  obtain ⟨i, ch, hch, hkey, hlevel, -⟩ := OctreeBuilder.exists_split_chunk b p (hcount ▸ h1)
  exact ⟨i, ch, hch, hkey, hcount ▸ hlevel⟩

/-- Coincident points that no candidate level makes few enough are split at the deepest one. -/
lemma splitsAt_replicate {rootLevel maxPoints : ℕ} (hn : maxPoints < n) :
    b.SplitsAt (List.replicate n p) rootLevel maxPoints (rootLevel + spillDepthCap) where
  below := Nat.lt_add_of_pos_right (by decide)
  le_deepest := le_rfl
  crowded m _ _ := ⟨b.keyOf p m, by
    rwa [List.countP_replicate, if_pos (decide_eq_true rfl)]⟩
  fits := Or.inl rfl

/-- The file of the only chunk with points. -/
def fileAt (i : ℕ) (points : List RawPoint) (j : ℕ) : List RawPoint := if j = i then points else []

lemma distributed_fileAt {chunks : List PlannedChunk} {i : ℕ} {ch : PlannedChunk}
    (hch : chunks[i]? = some ch) {points : List RawPoint}
    (hin : ∀ p ∈ points, b.keyOf p ch.level = ch.key) :
    Distributed b chunks (fileAt i points) ↑points where
  routed j c hc q hq := by
    unfold fileAt at hq
    split_ifs at hq with hj
    · subst hj
      obtain rfl := Option.some.inj (hch.symm.trans hc)
      exact hin q hq
    · cases hq
  total := by
    have hi := (List.getElem?_eq_some_iff.mp hch).1
    refine (List.sum_map_eq_nsmul_single i (fun j => (↑(fileAt i points j) : Multiset RawPoint))
      fun j hj _ => ?_).trans ?_
    · simp only [fileAt, if_neg hj]
      rfl
    · rw [List.nodup_range.count, if_pos (List.mem_range.mpr hi), one_smul, fileAt, if_pos rfl]

/-- Coincident points that exceed the budget are split at the deepest candidate level, and the depth
of their leaves is passed. -/
lemma leafDepth_mem_coincident (ord : IterOrder) {memoryBudget cores i : ℕ} {plan : ChunkPlan}
    {ch : PlannedChunk} (hch : plan.chunks[i]? = some ch) (hpos : 0 < n)
    (hover : (buildConcurrencyAndBudget F memoryBudget cores).2 <
      saturatingMul n perChunkBytesPerPointBuild)
    (hdense : maxPointsInBudget (buildConcurrencyAndBudget F memoryBudget cores).2 < n)
    (points : List RawPoint) :
    ch.level + spillDepthCap + chunkLocalExtraLevels F n ∈
      b.depthsPassed ord memoryBudget cores plan none points (fileAt i (List.replicate n p)) := by
  have hmem : p ∈ List.replicate n p := List.mem_replicate.mpr ⟨hpos.ne', rfl⟩
  have hfile : fileAt i (List.replicate n p) i = List.replicate n p := if_pos rfl
  have hactual : actualPoints none (fileAt i (List.replicate n p)) i = n := by
    rw [actualPoints, hfile, List.length_replicate]
  refine List.mem_append_right _ (List.mem_flatMap.mpr
    ⟨(ch, i), List.mem_zipIdx_iff_getElem?.mpr hch, ?_⟩)
  unfold OctreeBuilder.chunkDepths
  simp only
  rw [hactual, hfile, if_neg (Nat.not_le.mpr hover)]
  have hlevel := (b.splitsAt_chooseSplitLevel (((ord.sub 1).sub i).sub 0) (List.ne_nil_of_mem hmem)
    ch.key (maxPointsInBudget (buildConcurrencyAndBudget F memoryBudget cores).2)).unique
    (splitsAt_replicate hdense)
  have hleaf := OctreeBuilder.leafDepth_mem_spilledDepths ((ord.sub 1).sub i) ch
    (buildConcurrencyAndBudget F memoryBudget cores).2 hmem hlevel.symm
  rw [List.countP_replicate, if_pos (decide_eq_true rfl)] at hleaf
  exact hleaf

end Coincident

/-- The plan of a pile of points at `(1, 1, 1)`, with 16 GiB of memory and a chunk target of one. -/
def pilePlan (n : ℕ) : ChunkPlan :=
  unitBuilder.computeChunkPlan n (2 ^ 34) 1 (some 1) (List.replicate n (pointAt 1 1 1))

/-- The planner gives the pile a chunk at the split depth of its cell. -/
lemma exists_pilePlan_chunk {n gridDepth level : ℕ} (h1 : 1 < n) (hn : n < 2 ^ 32)
    (hgrid : trailingZeros (selectGridSize n (2 ^ 34)) = gridDepth)
    (hsplit : gridDepth + splitExtraLevels n 1 = level) :
    ∃ (i : ℕ) (ch : PlannedChunk), (pilePlan n).chunks[i]? = some ch ∧ ch.level = level ∧
      unitBuilder.keyOf (pointAt 1 1 1) ch.level = ch.key := by
  subst hgrid
  obtain ⟨i, ch, hch, hkey, hlevel⟩ := @exists_coincident_chunk ℚ _ unitBuilder (pointAt 1 1 1)
    n _ h1 hn
  refine ⟨i, ch, ?_, hlevel.trans hsplit, hkey⟩
  rw [pilePlan, unitBuilder.computeChunkPlan_eq n (2 ^ 34) 1 (some 1)]
  exact hch

/-- A spilled pile is split at the deepest candidate level, and fits below it when the levels that
are left have room for it. -/
lemma leavesFit_pile {n i : ℕ} {ch : PlannedChunk} (hch : (pilePlan n).chunks[i]? = some ch)
    (hroom : n ≤ maxLeafPoints * 8 ^ (i32Levels - (ch.level + spillDepthCap)))
    (hdense : maxPointsInBudget (buildConcurrencyAndBudget ℚ (2 ^ 34) 1).2 < n) :
    unitBuilder.LeavesFit (2 ^ 34) 1 (pilePlan n) none
      (fileAt i (List.replicate n (pointAt 1 1 1))) := by
  intro j chunk hj hover l hl
  by_cases hij : j = i
  · subst hij
    obtain rfl : ch = chunk := Option.some.inj (hch.symm.trans hj)
    rw [fileAt, if_pos rfl] at hl ⊢
    obtain rfl := hl.unique (splitsAt_replicate hdense)
    refine Or.inr fun k => (List.countP_le_length.trans ?_).trans hroom
    rw [List.length_replicate]
  · -- the other files have no points, and are within every budget
    rw [actualPoints, fileAt, if_neg hij, List.length_nil] at hover
    exact absurd hover (Nat.not_lt.mpr ((min_le_left _ _).trans (by simp)))

/-- Four hundred and fifty million points at one place are spilled and split at level 26; their
leaves are at level 31, the last one whose coordinates fit. -/
theorem depthsPassed_le_iff_pile : ∃ files,
    Distributed unitBuilder (pilePlan 450000000).chunks files
        ↑(List.replicate 450000000 (pointAt 1 1 1)) ∧
      i32Levels ∈ unitBuilder.depthsPassed .listed (2 ^ 34) 1 (pilePlan 450000000) none
        (List.replicate 450000000 (pointAt 1 1 1)) files ∧
      ∀ d ∈ unitBuilder.depthsPassed .listed (2 ^ 34) 1 (pilePlan 450000000) none
        (List.replicate 450000000 (pointAt 1 1 1)) files,
          d ≤ i32Levels ∧ unitBuilder.CoordinatesFit d := by
  have hextra : chunkLocalExtraLevels ℚ 450000000 = 5 := by decide +kernel
  have hbudget : (buildConcurrencyAndBudget ℚ (2 ^ 34) 1).2 = 6871947673 := by decide +kernel
  obtain ⟨i, ch, hch, hlevel, hkey⟩ := @exists_pilePlan_chunk 450000000 8 14 (by norm_num)
    (by norm_num) (by decide +kernel) (by decide +kernel)
  have hdense : maxPointsInBudget (buildConcurrencyAndBudget ℚ (2 ^ 34) 1).2 < 450000000 := by
    rw [hbudget]
    decide
  have hdeepest : ch.level + spillDepthCap + chunkLocalExtraLevels ℚ 450000000 = i32Levels := by
    rw [hlevel, hextra]
    rfl
  refine ⟨fileAt i (List.replicate 450000000 (pointAt 1 1 1)),
    distributed_fileAt hch fun q hq => ?_, ?_, ?_⟩
  · rw [List.eq_of_mem_replicate hq]
    exact hkey
  · rw [← hdeepest]
    refine leafDepth_mem_coincident .listed hch (by norm_num) ?_ hdense _
    rw [hbudget]
    decide
  · refine (OctreeBuilder.depthsPassed_le_iff exactLeafTest_rat unitBuilder .listed 450000000
      (2 ^ 34) 1 1 (some 1) none (List.replicate 450000000 (pointAt 1 1 1))
      (fileAt i (List.replicate 450000000 (pointAt 1 1 1)))).mpr (leavesFit_pile hch ?_ hdense)
    rw [hlevel]
    decide

/-- Six hundred million points at one place. -/
def deepPoints : List RawPoint := List.replicate 600000000 (pointAt 1 1 1)

/-- Their plan with a memory budget of 16 GiB and a chunk target of one point. -/
def deepPlan : ChunkPlan := pilePlan 600000000

/-- The points end up in one sub-octant at level 27, whose leaves are classified at depth 32, where
a voxel coordinate does not fit an `i32` any more. -/
theorem deepPoints_overflow : ∃ files, Distributed unitBuilder deepPlan.chunks files ↑deepPoints ∧
    ∃ d ∈ unitBuilder.depthsPassed .listed (2 ^ 34) 1 deepPlan none deepPoints files,
      i32Levels < d ∧ 2 ^ i32Levels ≤ (unitBuilder.keyOf (pointAt 1 1 1) d).x := by
  have hextra : chunkLocalExtraLevels ℚ 600000000 = 5 := by decide +kernel
  have hbudget : (buildConcurrencyAndBudget ℚ (2 ^ 34) 1).2 = 6871947673 := by decide +kernel
  obtain ⟨i, ch, hch, hlevel, hkey⟩ := @exists_pilePlan_chunk 600000000 9 15 (by norm_num)
    (by norm_num) (by decide +kernel) (by decide +kernel)
  refine ⟨fileAt i deepPoints, distributed_fileAt hch fun q hq => ?_, _,
    leafDepth_mem_coincident .listed hch (by norm_num) ?_ ?_ deepPoints, ?_⟩
  · rw [List.eq_of_mem_replicate hq]
    exact hkey
  · rw [hbudget]
    decide
  · rw [hbudget]
    decide
  · rw [hlevel, hextra]
    decide +kernel

end CopcConverter
