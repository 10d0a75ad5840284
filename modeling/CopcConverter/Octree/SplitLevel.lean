import CopcConverter.Foundations.Tally
import CopcConverter.Octree.NodeMap

/-!
# The split level of a spilled chunk

A chunk that does not fit its memory budget is split into sub-octants at one level: the shallowest
of twelve candidate levels at which no voxel has more points than the budget allows, or the deepest
one.  The plain way to find it counts the points at every candidate level anew.  The source reads
the points once instead: it counts them at the deepest level and shifts the keys of these counts for
the other levels.

Both ways agree, because the voxels of a point form one path, so that the count of a voxel is the
sum of the counts of its descendants.  The density of the densest voxel never grows from a level to
the next one, and the order in which the counts are visited plays no role.
-/

namespace CopcConverter

open LevelTree

namespace OctreeBuilder

variable {F : Type} [FloatArith F] (b : OctreeBuilder F)

/-! ## The plain method -/

/-- The number of points in the densest voxel of a level. -/
def densest (points : List RawPoint) (level : ℕ) : ℕ :=
  (points.map fun p => points.countP fun q => b.keyOf q level = b.keyOf p level).foldr max 0

/-- The shallowest of the candidate levels whose densest voxel has at most `maxPoints` points, or
the deepest one, with the number of points in its densest voxel. -/
def plainSplitLevel (points : List RawPoint) (rootLevel maxPoints : ℕ) : ℕ × ℕ :=
  let level := ((List.range' (rootLevel + 1) spillDepthCap).find? fun l =>
    b.densest points l ≤ maxPoints).getD (rootLevel + spillDepthCap)
  (level, b.densest points level)

variable {b} {points : List RawPoint}

lemma countP_le_densest (points : List RawPoint) (level : ℕ) (k : VoxelKey) :
    points.countP (fun q => b.keyOf q level = k) ≤ b.densest points level := by
  by_cases hk : ∃ p ∈ points, b.keyOf p level = k
  · obtain ⟨p, hp, rfl⟩ := hk
    exact List.le_max_of_le' 0 (List.mem_map_of_mem hp) le_rfl
  · have hzero : points.countP (fun q => b.keyOf q level = k) = 0 := by
      rw [List.countP_eq_zero]
      intro q hq heq
      exact hk ⟨q, hq, by simpa using heq⟩
    rw [hzero]
    exact Nat.zero_le _

lemma densest_le {level n : ℕ} (h : ∀ k, points.countP (fun q => b.keyOf q level = k) ≤ n) :
    b.densest points level ≤ n := by
  refine List.max_le_of_forall_le _ _ fun c hc => ?_
  obtain ⟨p, -, rfl⟩ := List.mem_map.mp hc
  exact h _

/-- A deeper level is not denser: its voxels are parts of those above. -/
lemma densest_antitone (b : OctreeBuilder F) (points : List RawPoint) :
    Antitone (b.densest points) := by
  intro l m hlm
  refine densest_le fun k => ?_
  refine le_trans (List.countP_mono_left fun q _ hq => ?_)
    (countP_le_densest points l (ancestorAt k l))
  rw [decide_eq_true_eq] at hq ⊢
  rw [← hq]
  exact (b.addressing.ancestorAt_addr q hlm).symm

/-! ## Counting once -/

/-- The key at a shallower level, by shifting the coordinates. -/
def shiftTo (deepest level : ℕ) (k : VoxelKey) : VoxelKey :=
  ⟨level, k.x >>> (deepest - level), k.y >>> (deepest - level), k.z >>> (deepest - level)⟩

/-- Shifting the key of a point gives its key at the shallower level. -/
lemma shiftTo_keyOf {deepest level : ℕ} (h : level ≤ deepest) (p : RawPoint) :
    shiftTo deepest level (b.keyOf p deepest) = b.keyOf p level := by
  have hanc : ancestorAt (b.keyOf p deepest) level = b.keyOf p level :=
    b.addressing.ancestorAt_addr p h
  rw [← hanc]
  exact (VoxelKey.ancestorAt_eq h).symm

/-- The occupancy of the deepest candidate level. -/
def deepCounts (b : OctreeBuilder F) (points : List RawPoint) (deepest : ℕ) : KeyCounts :=
  points.foldl (fun m raw => KeyCounts.add m (b.keyOf raw deepest) 1) ∅

/-- With points there are counts. -/
lemma deepCounts_ne_nil (hne : points ≠ []) (deepest : ℕ) :
    ¬ (b.deepCounts points deepest).entries.isEmpty = true := by
  intro hempty
  obtain ⟨p, hp⟩ := List.exists_mem_of_ne_nil points hne
  have hget : Tally.get (b.deepCounts points deepest) (b.keyOf p deepest) = _ :=
    Tally.get_foldl_add (fun p => b.keyOf p deepest) (fun _ => 1) points ∅ (b.keyOf p deepest)
  have hnone : b.deepCounts points deepest = ∅ := AList.ext (List.isEmpty_iff.mp hempty)
  rw [hnone, Tally.get_empty, Nat.zero_add, List.map_const', List.sum_replicate,
    smul_eq_mul, mul_one] at hget
  have hmem : p ∈ points.filter fun q => b.keyOf q deepest = b.keyOf p deepest :=
    List.mem_filter.mpr ⟨hp, decide_eq_true rfl⟩
  exact absurd (List.length_pos_of_mem hmem) (by omega)

/-- The shifted counts are those of the shallower level. -/
lemma densestAt_deepCounts (ord : IterOrder) {deepest level : ℕ} (h : level ≤ deepest) :
    densestAt ord (b.deepCounts points deepest) deepest level = b.densest points level := by
  set deep := b.deepCounts points deepest with hdeep
  set counts : Tally VoxelKey := (ord.list deep.entries).foldl
    (fun m e => Tally.add m (shiftTo deepest level e.1) e.2) ∅ with hcounts
  have hget : ∀ k, counts.get k = points.countP fun q => b.keyOf q level = k := by
    intro k
    rw [hcounts, Tally.get_foldl_add, Tally.get_empty, Nat.zero_add]
    change Tally.mass (shiftTo deepest level) k (ord.list deep.entries) = _
    rw [Tally.mass_perm _ _ (ord.list_perm _), hdeep]
    refine (Tally.mass_foldl_add (fun p => b.keyOf p deepest) (fun _ => 1) _ k points ∅).trans ?_
    have hempty : Tally.mass (shiftTo deepest level) k (∅ : Tally VoxelKey).entries = 0 := rfl
    simp only [hempty, shiftTo_keyOf h, List.map_const', List.sum_replicate, smul_eq_mul, mul_one,
      Nat.zero_add, List.countP_eq_length_filter]
  change counts.maximum = _
  apply le_antisymm
  · refine Tally.maximum_le fun k => ?_
    rw [hget]
    exact countP_le_densest points level k
  · refine densest_le fun k => ?_
    rw [← hget]
    exact counts.get_le_maximum k

/-! ## The walk over the levels -/

/-- The walk ends at the first level that fits, or at the deepest one. -/
lemma splitLevelFrom_eq (densest : ℕ → ℕ) (rootLevel maxPoints n s : ℕ) :
    splitLevelFrom densest rootLevel maxPoints n s =
      let level := ((List.range' (rootLevel + s) (n + 1)).find? fun l =>
        densest l ≤ maxPoints).getD (rootLevel + s + n)
      (level, densest level) := by
  induction n generalizing s with
  | zero =>
    rw [splitLevelFrom, List.range'_one, List.find?_singleton]
    split_ifs <;> rfl
  | succ n ih =>
    rw [splitLevelFrom, List.range'_succ, List.find?_cons]
    by_cases h : densest (rootLevel + s) ≤ maxPoints
    · simp [h]
    · rw [if_neg h, ih]
      simp only [h, decide_false]
      rw [Nat.add_assoc rootLevel s 1,
        show rootLevel + (s + 1) + n = rootLevel + s + (n + 1) by omega]

/-- The walk looks at no level below the deepest one. -/
lemma splitLevelFrom_congr {densest densest' : ℕ → ℕ} {rootLevel n s : ℕ} (maxPoints : ℕ)
    (h : ∀ l, l ≤ rootLevel + (s + n) → densest l = densest' l) :
    splitLevelFrom densest rootLevel maxPoints n s =
      splitLevelFrom densest' rootLevel maxPoints n s := by
  induction n generalizing s with
  | zero => rw [splitLevelFrom, splitLevelFrom, h (rootLevel + s) le_rfl]
  | succ n ih =>
    rw [splitLevelFrom, splitLevelFrom, h (rootLevel + s) (by omega),
      ih fun l hl => h l (by omega)]

/-- Counting once gives the split level of the plain method. -/
lemma chooseSplitLevel_plain (b : OctreeBuilder F) (ord : IterOrder) {points : List RawPoint}
    (hne : points ≠ []) (chunkRoot : VoxelKey) (maxPoints : ℕ) :
    b.chooseSplitLevel ord points chunkRoot maxPoints =
      b.plainSplitLevel points chunkRoot.level maxPoints := by
  have hwalk : b.chooseSplitLevel ord points chunkRoot maxPoints =
      splitLevelFrom (fun level => densestAt (ord.sub level)
        (b.deepCounts points (chunkRoot.level + spillDepthCap))
        (chunkRoot.level + spillDepthCap) level)
      chunkRoot.level maxPoints (spillDepthCap - 1) 1 :=
    if_neg (deepCounts_ne_nil hne _)
  have hdensest : ∀ l, l ≤ chunkRoot.level + (1 + (spillDepthCap - 1)) →
      densestAt (ord.sub l) (b.deepCounts points (chunkRoot.level + spillDepthCap))
        (chunkRoot.level + spillDepthCap) l = b.densest points l :=
    fun l hl => densestAt_deepCounts (ord.sub l) hl
  rw [hwalk, splitLevelFrom_congr maxPoints hdensest, splitLevelFrom_eq]
  rfl

/-- **Counting once at the deepest level is counting at every level**: for a chunk with points, in
whatever order the counts are visited, the split level and its density are those of the plain
method; and since no deeper level is denser, all levels below a split level that fits also fit. -/
theorem chooseSplitLevel_eq_plain (b : OctreeBuilder F) (ord : IterOrder) {points : List RawPoint}
    (hne : points ≠ []) (chunkRoot : VoxelKey) (maxPoints : ℕ) :
    b.chooseSplitLevel ord points chunkRoot maxPoints =
        b.plainSplitLevel points chunkRoot.level maxPoints ∧
      Antitone (b.densest points) ∧
      ((b.chooseSplitLevel ord points chunkRoot maxPoints).2 ≤ maxPoints →
        ∀ l, (b.chooseSplitLevel ord points chunkRoot maxPoints).1 ≤ l →
          b.densest points l ≤ maxPoints) := by
  have hplain := b.chooseSplitLevel_plain ord hne chunkRoot maxPoints
  refine ⟨hplain, b.densest_antitone points, fun hfits l hl => ?_⟩
  apply le_trans (b.densest_antitone points hl)
  rw [hplain] at hfits ⊢
  exact hfits

end OctreeBuilder

/-- Two points in a chunk at the root that are apart at the third level below it. -/
theorem chooseSplitLevel_eq_plain_pair :
    unitBuilder.chooseSplitLevel .listed [pointAt 1 1 1, pointAt 3 1 1] VoxelKey.root 1 =
      unitBuilder.plainSplitLevel [pointAt 1 1 1, pointAt 3 1 1] 0 1 :=
  (unitBuilder.chooseSplitLevel_eq_plain .listed (by simp) VoxelKey.root 1).1

end CopcConverter
