import CopcConverter.Octree.Depths
import CopcConverter.Octree.Int32Build
import CopcConverter.Octree.Interference

/-!
# Where both builds agree

The build is defined twice: over unbounded keys, where its properties are proved, and over keys with
32-bit coordinates, as the source runs it.  Here the two are compared.  When the coordinates of all
leaves fit an `i32`, so do those of every key of a build: they are the parents of such keys.  On
these keys the operations with 32-bit coordinates are those with unbounded ones, so both builds are
the same job, stage by stage.

The condition only concerns the leaves of spilled chunks, since all other depths stay below 31.  The
leaves fit whenever no point is classified below level 31; a point in the lower half of the cube may
be classified one level deeper.  The chunks of a plan with few levels always fit.
-/

namespace CopcConverter

open LevelTree Interleave TaggedSplit

variable {F : Type} [FloatArith F]

/-! ## Groups -/

/-- Keys of the octree have the same parents in both builds. -/
lemma groupByParent32_eq {keys : List VoxelKey} (h : ∀ k ∈ keys, k.Small) :
    groupByParent32 keys = groupByParent keys :=
  BucketMap.groupBy_congr fun k hk => (h k hk).parent32_eq

lemma small_of_mem_groupByParent {keys : List VoxelKey} (h : ∀ k ∈ keys, k.Small) {q : VoxelKey}
    {L : List VoxelKey} (hq : (q, L) ∈ (groupByParent keys).pairs) : q.Small := by
  obtain ⟨k, hk, hp⟩ := BucketMap.mem_groupBy (BucketMap.mem_pairs.mp hq).1
  exact (h k hk).parent hp

/-- The nodes in memory are voxels of the octree that fit. -/
def SmallNodes (nodes : Nodes) : Prop := ∀ k ∈ nodes, k.Small

lemma parentGroups32_eq {nodes : Nodes} (h : SmallNodes nodes) (ord : IterOrder) (d : ℕ) :
    parentGroups32 ord nodes d = parentGroups ord nodes d := by
  unfold parentGroups32 parentGroups
  rw [groupByParent32_eq]
  intro k hk
  exact h k (AList.mem_keys.mpr (IterOrder.mem_list.mp (List.mem_filter.mp hk).1))

/-- The tasks of a level have the parents of its groups. -/
lemma parent_of_mem_gatherTasks {P : List (VoxelKey × List VoxelKey)} {nodes : Nodes}
    {t : SampleTask} (h : t ∈ (gatherTasks P nodes).1) : ∃ e ∈ P, t.parent = e.1 := by
  induction P generalizing nodes with
  | nil => cases h
  | cons e P ih =>
    rcases List.mem_cons.mp h with rfl | h
    · exact ⟨e, List.mem_cons_self, rfl⟩
    · obtain ⟨u, hu, hp⟩ := ih h
      exact ⟨u, List.mem_cons_of_mem _ hu, hp⟩

namespace OctreeBuilder

variable (b : OctreeBuilder F)

/-! ## Subtrees -/

lemma sampleTask32_eq {t : SampleTask} (h : t.parent.Small) :
    b.sampleTask32 t = b.sampleTask t := by
  unfold sampleTask32 sampleTask
  rw [b.gridSample32_eq h]

lemma small_of_mem_parentGroups {nodes : Nodes} (h : SmallNodes nodes) {ord : IterOrder} {d : ℕ}
    {e : VoxelKey × List VoxelKey} (he : e ∈ parentGroups ord nodes d) : e.1.Small := by
  refine small_of_mem_groupByParent (fun k hk => ?_) (IterOrder.mem_list.mp he)
  exact h k (AList.mem_keys.mpr (IterOrder.mem_list.mp (List.mem_filter.mp hk).1))

lemma levelStep32_eq {nodes : Nodes} (h : SmallNodes nodes) (ord : IterOrder) (d : ℕ) :
    b.levelStep32 ord nodes d = b.levelStep ord nodes d := by
  have htasks : (gatherTasks (parentGroups ord nodes d) nodes).1.map b.sampleTask32 =
      (gatherTasks (parentGroups ord nodes d) nodes).1.map b.sampleTask := by
    refine List.map_congr_left fun t ht => b.sampleTask32_eq ?_
    obtain ⟨e, he, hp⟩ := parent_of_mem_gatherTasks ht
    rw [hp]
    exact small_of_mem_parentGroups h he
  unfold levelStep32 levelStep
  simp only
  rw [parentGroups32_eq h, htasks]

/-- A round adds parents only. -/
lemma small_levelStep {nodes : Nodes} (h : SmallNodes nodes) (ord : IterOrder) (d : ℕ) :
    SmallNodes (b.levelStep ord nodes d) := by
  intro k hk
  rcases b.mem_levelStep ord nodes d hk with hk | ⟨-, c, hkc, hc⟩
  · exact h k hk
  · exact (h c hc).parent (VoxelKey.isChild_iff.mp hkc)

lemma bottomUpLoop32_eq {nodes : Nodes} (h : SmallNodes nodes) (ord : IterOrder) (min n : ℕ) :
    b.bottomUpLoop32 ord min n nodes = b.bottomUpLoop ord min n nodes ∧
      SmallNodes (b.bottomUpLoop ord min n nodes) := by
  induction n generalizing nodes with
  | zero => exact ⟨rfl, h⟩
  | succ n ih =>
    rw [bottomUpLoop32, bottomUpLoop, b.levelStep32_eq h]
    exact ih (b.small_levelStep h _ _)

lemma bottomUpJob32_eq {nodes : Nodes} (h : SmallNodes nodes) (σ : Schedules) (ord : IterOrder)
    (maxDepth minLevel : ℕ) :
    b.bottomUpJob32 σ ord nodes maxDepth minLevel =
      b.bottomUpJob σ ord nodes maxDepth minLevel := by
  unfold bottomUpJob32 bottomUpJob
  rw [(b.bottomUpLoop32_eq h _ _ _).1]

lemma pushIntoLeaf32_eq (leaves : Nodes) {raw : RawPoint} {d : ℕ} (h : (b.keyOf raw d).Small) :
    b.pushIntoLeaf32 leaves raw d = b.pushIntoLeaf leaves raw d := by
  unfold pushIntoLeaf32 pushIntoLeaf
  rw [b.keyOf32_of_small h]

lemma leavesAt32_eq {points : List RawPoint} {d : ℕ} (h : ∀ p ∈ points, (b.keyOf p d).Small) :
    b.leavesAt32 points d = b.leavesAt points d :=
  List.foldl_ext _ _ _ fun leaves raw hraw => b.pushIntoLeaf32_eq leaves (h raw hraw)

lemma small_leavesAt {points : List RawPoint} {d : ℕ} (h : ∀ p ∈ points, (b.keyOf p d).Small) :
    SmallNodes (b.leavesAt points d) := by
  intro k hk
  rcases BucketMap.mem_pushAll.mp hk with hk | ⟨p, hp, rfl⟩
  · exact absurd hk (AList.notMem_empty k)
  · exact h p hp

lemma splitOversized32_eq (s : Nodes × ℕ) {key : VoxelKey} (h : key.level < chunkDepthCap) :
    b.splitOversized32 s key = b.splitOversized s key := by
  have hd : key.level + 1 ≤ i32Levels := by
    unfold chunkDepthCap i32Levels at *
    omega
  have hfold : (s.1.get key).foldl (fun leaves raw => b.pushIntoLeaf32 leaves raw (key.level + 1))
      (s.1.erase key) = (s.1.get key).foldl
        (fun leaves raw => b.pushIntoLeaf leaves raw (key.level + 1)) (s.1.erase key) :=
    List.foldl_ext _ _ _ fun leaves raw _ => b.pushIntoLeaf32_eq leaves (b.small_keyOf raw hd)
  unfold splitOversized32 splitOversized
  simp only
  rw [hfold]

lemma small_splitOversized {s : Nodes × ℕ} (hs : SmallNodes s.1) {key : VoxelKey}
    (h : key.level < chunkDepthCap) : SmallNodes (b.splitOversized s key).1 := by
  intro k hk
  rw [splitOversized_fst, splitLeaf, BucketMap.mem_pushAll, AList.mem_erase] at hk
  rcases hk with ⟨-, hk⟩ | ⟨p, -, rfl⟩
  · exact hs k hk
  · apply b.small_keyOf
    change key.level + 1 ≤ i32Levels
    unfold chunkDepthCap i32Levels at *
    omega

/-- The subdivision loop stops at the depth cap, above level 31. -/
lemma subdivide32_eq {s : Nodes × ℕ} (hs : SmallNodes s.1) (ord : IterOrder) (fuel : ℕ) :
    b.subdivide32 ord fuel s = b.subdivide ord fuel s ∧
      SmallNodes (b.subdivide ord fuel s).1 := by
  induction fuel generalizing s with
  | zero => exact ⟨rfl, hs⟩
  | succ fuel ih =>
    have hfold : ∀ (keys : List VoxelKey) (s : Nodes × ℕ), SmallNodes s.1 →
        (∀ k ∈ keys, k.level < chunkDepthCap) →
        keys.foldl b.splitOversized32 s = keys.foldl b.splitOversized s ∧
          SmallNodes (keys.foldl b.splitOversized s).1 := by
      intro keys
      induction keys with
      | nil => exact fun s hs _ => ⟨rfl, hs⟩
      | cons k keys ihk =>
        intro s hs hk
        rw [List.foldl_cons, List.foldl_cons, b.splitOversized32_eq s (hk k List.mem_cons_self)]
        exact ihk _ (b.small_splitOversized hs (hk k List.mem_cons_self))
          fun j hj => hk j (List.mem_cons_of_mem _ hj)
    rw [subdivide32, subdivide]
    split_ifs with hnone hcap
    · exact ⟨rfl, hs⟩
    · exact ⟨rfl, hs⟩
    · obtain ⟨heq, hsmall⟩ := hfold (oversized (ord.sub fuel) s.1) s hs fun k hk => by
        by_contra hge
        exact hcap (List.any_eq_true.mpr ⟨k, hk, decide_eq_true (by omega)⟩)
      rw [heq]
      exact ih hsmall

/-- The leaves that the points of a subtree are classified into fit. -/
def LeavesSmall (root : VoxelKey) (points : List RawPoint) (estPoints : ℕ) : Prop :=
  ∀ p ∈ points, (b.keyOf p (root.level + chunkLocalExtraLevels F estPoints)).Small

variable {b} {root : VoxelKey} {points : List RawPoint} {estPoints : ℕ}

/-- Both builds of a subtree are one job. -/
lemma LeavesSmall.subtreeJob32_eq (h : b.LeavesSmall root points estPoints) (σ : Schedules)
    (ord : IterOrder) :
    b.subtreeJob32 σ ord root points estPoints = b.subtreeJob σ ord root points estPoints := by
  unfold subtreeJob32 subtreeJob
  unfold LeavesSmall at h
  set leafDepth := root.level + chunkLocalExtraLevels F estPoints
  obtain ⟨heq, hsmall⟩ := @subdivide32_eq F _ b (b.leavesAt points leafDepth, leafDepth)
    (b.small_leavesAt h) (ord.sub 0) (chunkDepthCap + 1)
  simp only
  rw [b.leavesAt32_eq h, heq, b.bottomUpJob32_eq hsmall]

/-- The nodes of a subtree fit. -/
lemma LeavesSmall.subtreeJob_small (h : b.LeavesSmall root points estPoints) (σ : Schedules)
    (ord : IterOrder) :
    (b.subtreeJob σ ord root points estPoints).Confined VoxelKey.Small fun listed =>
      ∀ e ∈ listed, e.1.Small := by
  unfold subtreeJob
  unfold LeavesSmall at h
  set leafDepth := root.level + chunkLocalExtraLevels F estPoints
  simp only
  split_ifs
  · exact Job.Confined.pure fun e he => by cases he
  · obtain ⟨-, hsmall⟩ := @subdivide32_eq F _ b (b.leavesAt points leafDepth, leafDepth)
      (b.small_leavesAt h) (ord.sub 0) (chunkDepthCap + 1)
    exact b.bottomUpJob_within σ _ (b.bottomUpLoop32_eq hsmall _ _ _).2

variable (b)

/-! ## Merges -/

/-- The voxels that fit are closed under parents. -/
lemma closedUp_small (stop : ℕ) : ClosedUp VoxelKey.Small stop := fun _ _ hk hq _ => hk.parent hq

lemma mergeParentJob32_eq {t : VoxelKey × List VoxelKey} (h : t.1.Small) :
    b.mergeParentJob32 t = b.mergeParentJob t := by
  unfold mergeParentJob32 mergeParentJob
  simp only [b.gridSample32_eq h]

lemma mergeBatchJob32_eq {batch : List MergeTask} (h : ∀ t ∈ batch, t.parent.Small)
    (σ : Schedules) (ord : IterOrder) (d : ℕ) (m : MergeKeys) :
    b.mergeBatchJob32 σ ord d m batch = b.mergeBatchJob σ ord d m batch := by
  have hjobs : (ord.list batch).map (fun t => b.mergeParentJob32 (t.parent, t.children)) =
      (ord.list batch).map fun t => b.mergeParentJob (t.parent, t.children) :=
    List.map_congr_left fun t ht => b.mergeParentJob32_eq (h t (IterOrder.mem_list.mp ht))
  unfold mergeBatchJob32 mergeBatchJob
  rw [hjobs]

lemma mergeBatchesJob32_eq (σ : Schedules) (ord : IterOrder) (d : ℕ) {bs : List (List MergeTask)}
    (h : ∀ t ∈ bs.flatten, t.parent.Small) (m : MergeKeys) :
    b.mergeBatchesJob32 σ ord d bs m = b.mergeBatchesJob σ ord d bs m := by
  induction bs generalizing m with
  | nil => rfl
  | cons batch rest ih =>
    rw [mergeBatchesJob32, mergeBatchesJob, b.mergeBatchJob32_eq fun t ht => h t ?_]
    · exact congrArg _ (funext fun m => ih (fun t ht => h t (List.mem_append_right _ ht)) m)
    · exact List.mem_append_left _ ht

omit [FloatArith F] in
lemma groupsAt32_eq {m : MergeKeys} (h : m.Within VoxelKey.Small) (ord : IterOrder) (d : ℕ) :
    groupsAt32 ord m d = groupsAt ord m d := by
  change (ord.sub 1).list (groupByParent32 _).pairs = (ord.sub 1).list (groupByParent _).pairs
  rw [groupByParent32_eq fun k hk => h.tracked _ k (IterOrder.mem_list.mp hk)]
  rfl

/-- Both merges of a level are one job. -/
lemma mergeLevelJob32_eq {m : MergeKeys} (h : m.Within VoxelKey.Small) (σ : Schedules)
    (ord : IterOrder) (memoryBudget batchCap d : ℕ) :
    b.mergeLevelJob32 σ ord memoryBudget batchCap m d =
      b.mergeLevelJob σ ord memoryBudget batchCap m d := by
  unfold mergeLevelJob32 mergeLevelJob
  rw [groupsAt32_eq h]
  refine (b.estimateJobs_confined h (closedUp_small 0) (Nat.zero_le d) ord).bind_congr
    fun tasks htasks => ?_
  simp only
  cases tasks.find? fun t => decide (t.estMem > max memoryBudget mergeParentOomFloorBytes) with
  | some t => rfl
  | none =>
    refine b.mergeBatchesJob32_eq σ (ord.sub 2) d (fun t ht => ?_) m
    rw [flatten_batches batchCap le_rfl] at ht
    exact (htasks t ((List.mergeSort_perm tasks _).mem_iff.mp ht)).within _ (Or.inl rfl)

lemma mergeLoopJob32_eq (σ : Schedules) (ord : IterOrder) (memoryBudget batchCap stop n : ℕ)
    {m : MergeKeys} (h : m.Within VoxelKey.Small) :
    b.mergeLoopJob32 σ ord memoryBudget batchCap stop n m =
      b.mergeLoopJob σ ord memoryBudget batchCap stop n m := by
  induction n generalizing m with
  | zero => rfl
  | succ n ih =>
    rw [mergeLoopJob32, mergeLoopJob, b.mergeLevelJob32_eq h]
    exact (b.mergeLevelJob_confined _ _ memoryBudget batchCap h (closedUp_small 0)
      (Nat.zero_le _)).bind_congr fun m hm => ih hm

/-- Both merges of some roots are one job. -/
lemma mergeTopsJob32_eq {rootKeys : List VoxelKey} (h : ∀ k ∈ rootKeys, k.Small) (σ : Schedules)
    (ord : IterOrder) (memoryBudget stop conc perParent : ℕ) :
    b.mergeTopsJob32 σ ord memoryBudget rootKeys stop conc perParent =
      b.mergeTopsJob σ ord memoryBudget rootKeys stop conc perParent := by
  unfold mergeTopsJob32 mergeTopsJob
  simp only
  rw [b.mergeLoopJob32_eq _ _ _ _ _ _ (.start h)]

/-! ## Spills -/

lemma deepCounts32_eq (points : List RawPoint) {deepest : ℕ} (h : deepest ≤ i32Levels) :
    points.foldl (fun m raw => KeyCounts.add m (b.keyOf32 raw deepest) 1) ∅ =
      b.deepCounts points deepest :=
  List.foldl_ext _ _ _ fun m raw _ => by rw [b.keyOf32_eq raw h]

/-- The counted keys are those of the points. -/
lemma mem_deepCounts {points : List RawPoint} {deepest : ℕ} {k : VoxelKey}
    (h : k ∈ b.deepCounts points deepest) : ∃ p, k = b.keyOf p deepest := by
  have hfold : ∀ (l : List RawPoint) (m : KeyCounts),
      k ∈ l.foldl (fun m raw => KeyCounts.add m (b.keyOf raw deepest) 1) m →
        k ∈ m ∨ ∃ p, k = b.keyOf p deepest := by
    intro l
    induction l with
    | nil => exact fun m hm => Or.inl hm
    | cons p l ih =>
      intro m hm
      rcases ih _ hm with hm | hk
      · rcases (AList.mem_insert _).mp hm with rfl | hm
        · exact Or.inr ⟨p, rfl⟩
        · exact Or.inl hm
      · exact Or.inr hk
  exact (hfold points ∅ h).resolve_left (AList.notMem_empty k)

lemma densestAt32_eq {counts : KeyCounts} (h : ∀ k ∈ counts, k.Small) (ord : IterOrder)
    (deepest level : ℕ) : densestAt32 ord counts deepest level =
      densestAt ord counts deepest level := by
  unfold densestAt32 densestAt
  simp only
  have hfold : (ord.list counts.entries).foldl (fun m e => KeyCounts.add m
      ⟨level, shiftRight32 e.1.x (deepest - level), shiftRight32 e.1.y (deepest - level),
        shiftRight32 e.1.z (deepest - level)⟩ e.2) ∅ =
      (ord.list counts.entries).foldl (fun m e => KeyCounts.add m
        ⟨level, e.1.x >>> (deepest - level), e.1.y >>> (deepest - level),
          e.1.z >>> (deepest - level)⟩ e.2) ∅ := by
    refine List.foldl_ext _ _ _ fun m e he => ?_
    have hk : e.1 ∈ counts := List.mem_map_of_mem (IterOrder.mem_list.mp he)
    obtain ⟨-, hx, hy, hz⟩ := h e.1 hk
    rw [shiftRight32_of_lt hx, shiftRight32_of_lt hy, shiftRight32_of_lt hz]
  rw [hfold]

/-- Both builds choose the same split level below a root that is not too deep. -/
lemma chooseSplitLevel32_eq (ord : IterOrder) (points : List RawPoint) {chunkRoot : VoxelKey}
    (h : chunkRoot.level + spillDepthCap ≤ i32Levels) (maxPoints : ℕ) :
    b.chooseSplitLevel32 ord points chunkRoot maxPoints =
      b.chooseSplitLevel ord points chunkRoot maxPoints := by
  have hsmall : ∀ k ∈ b.deepCounts points (chunkRoot.level + spillDepthCap), k.Small := by
    intro k hk
    obtain ⟨p, rfl⟩ := b.mem_deepCounts hk
    exact b.small_keyOf p h
  have hdense : (fun level => densestAt32 (ord.sub level)
      (b.deepCounts points (chunkRoot.level + spillDepthCap))
      (chunkRoot.level + spillDepthCap) level) = fun level => densestAt (ord.sub level)
        (b.deepCounts points (chunkRoot.level + spillDepthCap))
        (chunkRoot.level + spillDepthCap) level :=
    funext fun level => densestAt32_eq hsmall _ _ level
  unfold chooseSplitLevel32
  simp only
  rw [b.deepCounts32_eq points h, hdense]
  rfl

lemma routePoints32_eq {splitLevel : ℕ} (h : splitLevel ≤ i32Levels) (ord : IterOrder)
    (flushThreshold : ℕ) (points : List RawPoint) (s : SpillState) :
    b.routePoints32 ord splitLevel flushThreshold points s =
      b.routePoints ord splitLevel flushThreshold points s := by
  induction points generalizing s with
  | nil => rfl
  | cons raw rest ih =>
    have hpoint : ∀ ord, b.routePoint32 ord splitLevel flushThreshold s raw =
        b.routePoint ord splitLevel flushThreshold s raw := fun ord => by
      unfold routePoint32 routePoint
      rw [b.keyOf32_eq raw h]
    rw [routePoints32, routePoints, hpoint]
    exact ih _

/-! ## Chunks -/

variable {b} {chunk : PlannedChunk} {chunkMemBudget : ℕ}

/-- The levels that a chunk can be split at fit. -/
lemma splitLevelOf_fits (ord : IterOrder) (h : chunk.level + spillDepthCap ≤ i32Levels) :
    b.splitLevelOf ord chunk points chunkMemBudget ≤ i32Levels := by
  by_cases hne : points = []
  · subst hne
    have hempty : b.splitLevelOf ord chunk [] chunkMemBudget = chunk.level + 1 := rfl
    rw [hempty]
    unfold spillDepthCap at h
    omega
  · exact (b.splitLevelOf_le ord chunk hne chunkMemBudget).trans h

lemma splitLevelOf32_eq (ord : IterOrder) (h : chunk.level + spillDepthCap ≤ i32Levels) :
    b.splitLevelOf32 ord chunk points chunkMemBudget =
      b.splitLevelOf ord chunk points chunkMemBudget :=
  congrArg Prod.fst (@chooseSplitLevel32_eq F _ b ord points chunk.key h _)

lemma spillOf32_eq (ord : IterOrder) (h : chunk.level + spillDepthCap ≤ i32Levels) :
    b.spillOf32 ord chunk points chunkMemBudget = b.spillOf ord chunk points chunkMemBudget := by
  unfold spillOf32 spillOf
  simp only
  rw [splitLevelOf32_eq _ h, b.routePoints32_eq (splitLevelOf_fits _ h)]
  rfl

/-- The leaves of the sub-octants of a spilled chunk fit: the voxels of its points as deep as the
number of points in their sub-octants, at the level where the chunk is split, takes them. -/
def SpilledLeavesSmall (b : OctreeBuilder F) (points : List RawPoint)
    (rootLevel chunkMemBudget : ℕ) : Prop :=
  ∀ l, SplitsAt b points rootLevel (maxPointsInBudget chunkMemBudget) l → ∀ p ∈ points,
    (b.keyOf p (l + chunkLocalExtraLevels F
      (points.countP fun q => b.keyOf q l = b.keyOf p l))).Small

/-- The leaves of one sub-octant fit. -/
lemma SpilledLeavesSmall.subOctant (h : b.SpilledLeavesSmall points chunk.level chunkMemBudget)
    (ord : IterOrder) {i : ℕ} {r : VoxelKey}
    (hr : (b.spillOf ord chunk points chunkMemBudget).subRoots[i]? = some r) :
    b.LeavesSmall r ((b.spillOf ord chunk points chunkMemBudget).files i)
      ((b.spillOf ord chunk points chunkMemBudget).files i).length := by
  obtain ⟨-, hroots, hfiles⟩ := b.spill_files (ord.sub 1)
    (b.splitLevelOf (ord.sub 0) chunk points chunkMemBudget)
    (max (chunkMemBudget / 4 / RawPoint.recordSize b.numExtraBytes) 1) points
  obtain ⟨p₀, hp₀, rfl⟩ := (hroots r).mp (List.mem_of_getElem? hr)
  have hsplits := b.splitsAt_chooseSplitLevel (ord.sub 0) (List.ne_nil_of_mem hp₀) chunk.key
    (maxPointsInBudget chunkMemBudget)
  set l := b.splitLevelOf (ord.sub 0) chunk points chunkMemBudget with hl
  have hfile : (b.spillOf ord chunk points chunkMemBudget).files i =
      points.filter fun q => b.keyOf q l = b.keyOf p₀ l := hfiles i _ hr
  intro p hp
  rw [hfile] at hp ⊢
  obtain ⟨hp, hkey⟩ := List.mem_filter.mp hp
  have hleaf := h l hsplits p hp
  rw [of_decide_eq_true hkey, List.countP_eq_length_filter] at hleaf
  exact hleaf

/-- The nodes of the sub-octants fit. -/
lemma SpilledLeavesSmall.subOctantJobs
    (h : b.SpilledLeavesSmall points chunk.level chunkMemBudget) (ord : IterOrder) (σ : Schedules)
    (schedule : List ℕ) :
    (Job.interleave schedule ((b.spillOf ord chunk points chunkMemBudget).subRoots.mapIdx
      (b.subOctantJob σ (ord.sub 3) (b.spillOf ord chunk points chunkMemBudget).files))).Confined
        VoxelKey.Small fun built => ∀ listed ∈ built, ∀ e ∈ listed, e.1.Small := by
  refine Job.Confined.interleave (fun t ht => ?_) schedule
  obtain ⟨i, hi, rfl⟩ := List.mem_mapIdx.mp ht
  exact (h.subOctant ord (List.getElem?_eq_getElem hi)).subtreeJob_small _ _

/-- Both spilled builds are one job. -/
lemma spilledJob32_eq (h : chunk.level + spillDepthCap ≤ i32Levels)
    (hleaves : b.SpilledLeavesSmall points chunk.level chunkMemBudget) (σ : Schedules)
    (ord : IterOrder) (memoryBudget : ℕ) :
    b.spilledJob32 σ ord memoryBudget chunk points chunkMemBudget =
      b.spilledJob σ ord memoryBudget chunk points chunkMemBudget := by
  have hjobs : (b.spillOf ord chunk points chunkMemBudget).subRoots.mapIdx
      (b.subOctantJob32 (σ.sub 1) (ord.sub 3) (b.spillOf ord chunk points chunkMemBudget).files) =
      (b.spillOf ord chunk points chunkMemBudget).subRoots.mapIdx
        (b.subOctantJob (σ.sub 1) (ord.sub 3) (b.spillOf ord chunk points chunkMemBudget).files) :=
    Lists.mapIdx_congr fun i r hr => (hleaves.subOctant ord hr).subtreeJob32_eq _ _
  unfold spilledJob32 spilledJob
  simp only
  rw [splitLevelOf32_eq _ h, spillOf32_eq ord h, hjobs]
  refine (hleaves.subOctantJobs _ _ _).bind_congr fun built hbuilt => ?_
  rw [b.mergeTopsJob32_eq fun k hk => ?_]
  obtain ⟨listed, hlisted, hk⟩ := List.mem_flatMap.mp hk
  obtain ⟨e, he, rfl⟩ := List.mem_map.mp (mem_keysAt.mp hk).1
  exact hbuilt listed hlisted e he

/-- The nodes of a spilled build fit. -/
lemma SpilledLeavesSmall.spilledJob_small
    (h : b.SpilledLeavesSmall points chunk.level chunkMemBudget) (σ : Schedules) (ord : IterOrder)
    (memoryBudget : ℕ) :
    (b.spilledJob σ ord memoryBudget chunk points chunkMemBudget).Confined VoxelKey.Small
      fun listed => ∀ e ∈ listed, e.1.Small := by
  unfold spilledJob
  refine (h.subOctantJobs _ _ _).bind fun built hbuilt => ?_
  have hall : ∀ e ∈ built.flatten, e.1.Small := fun e he => by
    obtain ⟨listed, hlisted, he⟩ := List.mem_flatten.mp he
    exact hbuilt listed hlisted e he
  simp only
  split_ifs
  · exact Job.Confined.pure hall
  · refine (b.mergeTopsJob_confined _ _ memoryBudget (closedUp_small chunk.level)
      (fun k hk => ?_) 1 chunkMemBudget).bind fun merged hm => Job.Confined.pure fun e he => ?_
    · obtain ⟨listed, hlisted, hk⟩ := List.mem_flatMap.mp hk
      obtain ⟨e, he, rfl⟩ := List.mem_map.mp (mem_keysAt.mp hk).1
      exact hbuilt listed hlisted e he
    · rcases List.mem_append.mp he with he | he
      · exact hall e he
      · obtain ⟨k, hk, rfl⟩ := List.mem_map.mp he
        exact hm k hk

variable {chunkActualCounts : Option (List ℕ)} {files : ℕ → List RawPoint} {chunkIdx : ℕ}

/-- A chunk at a level that the planner uses, whose leaves fit if it is spilled. -/
structure ChunkFits (b : OctreeBuilder F) (chunkActualCounts : Option (List ℕ))
    (files : ℕ → List RawPoint) (chunkMemBudget chunkIdx : ℕ) (chunk : PlannedChunk) : Prop where
  level : chunk.level ≤ 15
  leaves : chunkMemBudget <
      saturatingMul (actualPoints chunkActualCounts files chunkIdx) perChunkBytesPerPointBuild →
    b.SpilledLeavesSmall (files chunkIdx) chunk.level chunkMemBudget

lemma ChunkFits.reach (h : ChunkFits b chunkActualCounts files chunkMemBudget chunkIdx chunk) :
    chunk.level + spillDepthCap ≤ i32Levels := by
  have := h.level
  unfold spillDepthCap i32Levels
  omega

/-- The leaves of a chunk that is built in memory always fit. -/
lemma ChunkFits.leavesSmall
    (h : ChunkFits b chunkActualCounts files chunkMemBudget chunkIdx chunk) (n : ℕ) :
    b.LeavesSmall chunk.key (files chunkIdx) n := by
  intro p _
  have hl := h.level
  have hextra := chunkLocalExtraLevels_le (F := F) n
  apply b.small_keyOf
  change chunk.level + _ ≤ i32Levels
  unfold i32Levels
  omega

/-- Both builds of a chunk are one job. -/
lemma ChunkFits.chunkJob32_eq
    (h : ChunkFits b chunkActualCounts files chunkMemBudget chunkIdx chunk) (σ : Schedules)
    (ord : IterOrder) (memoryBudget : ℕ) :
    b.chunkJob32 σ ord memoryBudget chunkActualCounts files chunkMemBudget chunkIdx chunk =
      b.chunkJob σ ord memoryBudget chunkActualCounts files chunkMemBudget chunkIdx chunk := by
  by_cases hfits : saturatingMul (actualPoints chunkActualCounts files chunkIdx)
      perChunkBytesPerPointBuild ≤ chunkMemBudget
  · refine (if_pos hfits).trans (Eq.trans ?_ (if_pos hfits).symm)
    exact (h.leavesSmall _).subtreeJob32_eq σ ord
  · refine (if_neg hfits).trans (Eq.trans ?_ (if_neg hfits).symm)
    exact spilledJob32_eq h.reach (h.leaves (Nat.not_le.mp hfits)) σ ord memoryBudget

/-- The nodes of a chunk fit. -/
lemma ChunkFits.chunkJob_small
    (h : ChunkFits b chunkActualCounts files chunkMemBudget chunkIdx chunk) (σ : Schedules)
    (ord : IterOrder) (memoryBudget : ℕ) :
    (b.chunkJob σ ord memoryBudget chunkActualCounts files chunkMemBudget chunkIdx chunk).Confined
      VoxelKey.Small fun listed => ∀ e ∈ listed, e.1.Small := by
  change Job.Confined _ _ (if saturatingMul (actualPoints chunkActualCounts files chunkIdx)
    perChunkBytesPerPointBuild ≤ chunkMemBudget then _ else _)
  split_ifs with hfits
  · exact (h.leavesSmall _).subtreeJob_small σ ord
  · exact (h.leaves (Nat.not_le.mp hfits)).spilledJob_small σ ord memoryBudget

/-! ## Plans -/

variable {plan : ChunkPlan} {memoryBudget cores : ℕ}

/-- The leaves of all spilled chunks fit. -/
def LeavesInRange (b : OctreeBuilder F) (memoryBudget cores : ℕ) (plan : ChunkPlan)
    (chunkActualCounts : Option (List ℕ)) (files : ℕ → List RawPoint) : Prop :=
  ∀ i chunk, plan.chunks[i]? = some chunk →
    (buildConcurrencyAndBudget F memoryBudget cores).2 <
      saturatingMul (actualPoints chunkActualCounts files i) perChunkBytesPerPointBuild →
    b.SpilledLeavesSmall (files i) chunk.level (buildConcurrencyAndBudget F memoryBudget cores).2

/-- The chunks of a plan fit one by one. -/
def PlanFits (b : OctreeBuilder F) (memoryBudget cores : ℕ) (plan : ChunkPlan)
    (chunkActualCounts : Option (List ℕ)) (files : ℕ → List RawPoint) : Prop :=
  ∀ i chunk, plan.chunks[i]? = some chunk → ChunkFits b chunkActualCounts files
    (buildConcurrencyAndBudget F memoryBudget cores).2 i chunk

/-- The chunks of a merged plan are at the levels of the planner. -/
lemma LeavesInRange.planFits {grid : ℕ → UInt32} {gridDepth chunkTarget : ℕ}
    (hgrid : gridDepth ≤ 9)
    (h : b.LeavesInRange memoryBudget cores (planOf grid gridDepth chunkTarget) chunkActualCounts
      files) :
    b.PlanFits memoryBudget cores (planOf grid gridDepth chunkTarget) chunkActualCounts files := by
  intro i chunk hi
  have hle := level_le_of_mem_planOf (List.mem_of_getElem? hi)
  unfold splitLevelCap at hle
  exact ⟨by omega, h i chunk hi⟩

/-- Leaves that are not below level 31 fit. -/
theorem LeavesFit.inRange {grid : ℕ → UInt32} {gridDepth chunkTarget : ℕ} (hF : ExactLeafTest F)
    (hgrid : gridDepth ≤ 9)
    (h : b.LeavesFit memoryBudget cores (planOf grid gridDepth chunkTarget) chunkActualCounts
      files) :
    b.LeavesInRange memoryBudget cores (planOf grid gridDepth chunkTarget) chunkActualCounts
      files := by
  intro i chunk hi hover l hl p _
  have hle := level_le_of_mem_planOf (List.mem_of_getElem? hi)
  have hdeepest := hl.le_deepest
  have hlevel : l ≤ i32Levels := by
    unfold splitLevelCap spillDepthCap i32Levels at *
    omega
  refine b.small_keyOf p ((add_extraLevels_le_iff hF _ hlevel).mpr ?_)
  exact (h i chunk hi hover l hl).imp_right fun hroom => hroom _

/-- The nodes of the chunks fit. -/
lemma chunkJobs_small (h : b.PlanFits memoryBudget cores plan chunkActualCounts files)
    (σ : Schedules) (ord : IterOrder) (schedule : List ℕ) :
    (Job.interleave schedule (plan.chunks.mapIdx
      (b.buildChunkJob σ ord memoryBudget cores chunkActualCounts files))).Confined
        VoxelKey.Small fun built => ∀ listed ∈ built, ∀ e ∈ listed, e.1.Small := by
  refine Job.Confined.interleave (fun t ht => ?_) schedule
  obtain ⟨i, hi, rfl⟩ := List.mem_mapIdx.mp ht
  exact (h i _ (List.getElem?_eq_getElem hi)).chunkJob_small _ _ _

/-- The chunk roots are among the nodes of the chunks. -/
lemma small_chunkRootKeys {chunks : List PlannedChunk} {built : List (List (VoxelKey × ℕ))}
    (h : ∀ listed ∈ built, ∀ e ∈ listed, e.1.Small) :
    ∀ k ∈ chunkRootKeys chunks built, k.Small := by
  intro k hk
  obtain ⟨t, listed, ht, hk⟩ := (mem_chunkRootKeys k).mp hk
  obtain ⟨e, he, rfl⟩ := List.mem_map.mp (mem_keysAt.mp hk).1
  exact h listed (List.of_mem_zip ht).2 e he

/-- Both builds of a plan are one job, and its nodes fit. -/
lemma planJob32_eq (h : b.PlanFits memoryBudget cores plan chunkActualCounts files)
    (σ : Schedules) (ord : IterOrder) :
    b.planJob32 σ ord memoryBudget cores plan chunkActualCounts files =
      b.planJob σ ord memoryBudget cores plan chunkActualCounts files := by
  have hjobs : plan.chunks.mapIdx
      (b.buildChunkJob32 (σ.sub 1) (ord.sub 1) memoryBudget cores chunkActualCounts files) =
      plan.chunks.mapIdx
        (b.buildChunkJob (σ.sub 1) (ord.sub 1) memoryBudget cores chunkActualCounts files) :=
    Lists.mapIdx_congr fun i chunk hi => (h i chunk hi).chunkJob32_eq _ _ _
  unfold planJob32 planJob
  rw [hjobs]
  refine (chunkJobs_small h _ _ _).bind_congr fun built hbuilt => ?_
  simp only
  rw [b.mergeTopsJob32_eq (small_chunkRootKeys hbuilt)]

lemma planJob_small (h : b.PlanFits memoryBudget cores plan chunkActualCounts files)
    (σ : Schedules) (ord : IterOrder) :
    (b.planJob σ ord memoryBudget cores plan chunkActualCounts files).Confined VoxelKey.Small
      fun keys => ∀ k ∈ keys, k.Small := by
  unfold planJob
  refine (chunkJobs_small h _ _ _).bind fun built hbuilt => ?_
  refine (b.mergeTopsJob_confined _ _ memoryBudget (closedUp_small 0)
    (small_chunkRootKeys hbuilt) _ _).bind fun merged hm => Job.Confined.pure fun k hk => ?_
  rcases List.mem_append.mp hk with hk | hk
  · obtain ⟨⟨chunk, listed⟩, hzip, hk⟩ := List.mem_flatMap.mp hk
    obtain ⟨e, he, rfl⟩ := List.mem_map.mp hk
    exact hbuilt listed (List.of_mem_zip hzip).2 e he
  · exact hm k hk

/-! ## The node map -/

omit [FloatArith F] in
/-- Both orders sort the voxels that fit in the same way. -/
lemma sortKey32_le_iff {k j : VoxelKey} (hk : k.Small) (hj : j.Small) :
    k.sortKey32 ≤ j.sortKey32 ↔ k.sortKey ≤ j.sortKey := by
  obtain ⟨-, hkx, hky, hkz⟩ := hk
  obtain ⟨-, hjx, hjy, hjz⟩ := hj
  unfold VoxelKey.sortKey32 VoxelKey.sortKey
  simp only [Prod.Lex.toLex_le_toLex, toInt_coordinate hkx, toInt_coordinate hky,
    toInt_coordinate hkz, toInt_coordinate hjx, toInt_coordinate hjy, toInt_coordinate hjz,
    Nat.cast_lt, Nat.cast_le, Nat.cast_inj]

/-- Both walks up from a voxel that fits add the same parents. -/
lemma climb32_eq {n : ℕ} {k : VoxelKey} (hk : k.Small) (s : Ancestors) :
    s.climb32 n k = s.climb n k := by
  induction n generalizing k s with
  | zero => rfl
  | succ n ih =>
    rw [Ancestors.climb32, Ancestors.climb, hk.parent32_eq]
    cases hp : k.parent with
    | none => rfl
    | some q => exact ih (hk.parent hp) _

/-- Both lists of nodes are the same. -/
lemma assembleNodes32_eq {keys : List VoxelKey} (h : ∀ k ∈ keys, k.Small) (store : Store) :
    assembleNodes32 store keys = assembleNodes store keys := by
  have hsort : keys.mergeSort (fun a c => decide (a.sortKey32 ≤ c.sortKey32)) =
      keys.mergeSort fun a c => decide (a.sortKey ≤ c.sortKey) :=
    Lists.mergeSort_congr fun a ha c hc => decide_eq_decide.mpr (sortKey32_le_iff (h a ha) (h c hc))
  unfold assembleNodes32 assembleNodes
  simp only
  rw [hsort]
  set result := ((dedupSorted (keys.mergeSort fun a c => decide (a.sortKey ≤ c.sortKey))).map
    fun k => (k, (store k).length)).filter fun e => decide (e.2 > 0) with hresult
  have hclimb : ∀ s : Ancestors, result.foldl (fun s e => s.climb32 e.1.level e.1) s =
      result.foldl (fun s e => s.climb e.1.level e.1) s := fun s => by
    refine List.foldl_ext _ _ _ fun s e he => climb32_eq (h e.1 ?_) s
    obtain ⟨k, hk, rfl⟩ := List.mem_map.mp (List.mem_filter.mp (hresult ▸ he)).1
    exact List.mem_mergeSort.mp (mem_dedupSorted.mp hk)
  rw [hclimb]

/-- **Both builds agree where the leaves fit**: the build of a merged plan over 32-bit keys is the
build over unbounded keys, whatever runs in parallel. -/
theorem interleavedNodeMap32_eq {grid : ℕ → UInt32} {gridDepth chunkTarget : ℕ}
    (hgrid : gridDepth ≤ 9)
    (h : b.LeavesInRange memoryBudget cores (planOf grid gridDepth chunkTarget) chunkActualCounts
      files) (σ : Schedules) (ord : IterOrder) :
    b.interleavedNodeMap32 σ ord memoryBudget cores (some (planOf grid gridDepth chunkTarget))
        chunkActualCounts files =
      b.interleavedNodeMap σ ord memoryBudget cores (some (planOf grid gridDepth chunkTarget))
        chunkActualCounts files := by
  have hfits := h.planFits hgrid
  unfold interleavedNodeMap32 interleavedNodeMap
  simp only
  split_ifs
  · rfl
  · rw [planJob32_eq hfits]
    cases hrun : (b.planJob σ ord memoryBudget cores (planOf grid gridDepth chunkTarget)
        chunkActualCounts files).run fun _ => [] with
    | error e => rfl
    | ok r =>
      have hsmall := (planJob_small hfits σ ord).of_run hrun
      exact congrArg Except.ok (congrArg (Prod.mk r.1) (assembleNodes32_eq hsmall r.1))

/-- So it is the plain build, which takes everything one after the other. -/
lemma interleavedNodeMap32_iff {grid : ℕ → UInt32} {gridDepth chunkTarget : ℕ}
    (hgrid : gridDepth ≤ 9)
    (hroute : b.RespectsChunks (planOf grid gridDepth chunkTarget) files)
    (h : b.LeavesInRange memoryBudget cores (planOf grid gridDepth chunkTarget) chunkActualCounts
      files) (σ : Schedules) (ord : IterOrder) (x : Store × List (VoxelKey × ℕ)) :
    b.interleavedNodeMap32 σ ord memoryBudget cores (some (planOf grid gridDepth chunkTarget))
        chunkActualCounts files = .ok x ↔
      b.buildNodeMap ord memoryBudget cores (some (planOf grid gridDepth chunkTarget))
        chunkActualCounts files = .ok x := by
  rw [interleavedNodeMap32_eq hgrid h]
  exact b.interleavedNodeMap_iff planOf_unrelated hroute σ ord memoryBudget cores
    chunkActualCounts x

/-- Where the leaves fit, only voxels that fit hold points. -/
lemma small_of_interleavedNodeMap32 {grid : ℕ → UInt32} {gridDepth chunkTarget : ℕ}
    (hgrid : gridDepth ≤ 9)
    (hfits : b.LeavesInRange memoryBudget cores (planOf grid gridDepth chunkTarget)
      chunkActualCounts files) {σ : Schedules} {ord : IterOrder} {store : Store}
    {nodes : List (VoxelKey × ℕ)}
    (hok : b.interleavedNodeMap32 σ ord memoryBudget cores
      (some (planOf grid gridDepth chunkTarget)) chunkActualCounts files = .ok (store, nodes))
    {k : VoxelKey} (hk : store k ≠ []) : k.Small := by
  rw [interleavedNodeMap32_eq hgrid hfits] at hok
  unfold interleavedNodeMap at hok
  simp only at hok
  split_ifs at hok
  · obtain ⟨rfl, -⟩ := Prod.mk.inj (Except.ok.inj hok)
    exact absurd rfl hk
  · cases hrun : (b.planJob σ ord memoryBudget cores (planOf grid gridDepth chunkTarget)
        chunkActualCounts files).run fun _ => [] with
    | error e =>
      rw [hrun] at hok
      cases hok
    | ok r =>
      rw [hrun] at hok
      obtain ⟨rfl, -⟩ := Prod.mk.inj (Except.ok.inj hok)
      by_contra hout
      refine hk (Job.run_frame (fun ht => hout ?_) hrun)
      exact (planJob_small (hfits.planFits hgrid) σ ord).of_touches ht

/-- The leaves of chunks that are not deep fit: at most twelve levels down to where a chunk is
split, and thirteen from there. -/
lemma leavesInRange_of_shallow (h : ∀ chunk ∈ plan.chunks, chunk.level ≤ 6) :
    b.LeavesInRange memoryBudget cores plan chunkActualCounts files := by
  intro i chunk hi _ l hl p _
  have hlevel := h chunk (List.mem_of_getElem? hi)
  have hsplit := hl.le_deepest
  have hextra := chunkLocalExtraLevels_le (F := F)
    ((files i).countP fun q => b.keyOf q l = b.keyOf p l)
  apply b.small_keyOf
  unfold spillDepthCap at hsplit
  unfold i32Levels
  omega

end OctreeBuilder

end CopcConverter
