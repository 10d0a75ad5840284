import CopcConverter.Octree.Int32Keys
import CopcConverter.Octree.NodeJobs

/-!
# The build over 32-bit keys

The jobs of a build once more, over the keys that the source computes with: wherever a stage
classifies a point, takes the parent of a key, shifts a key or looks up the grid of a voxel, it does
so with coordinates that wrap around.  Everything else is shared with the build over unbounded
coordinates: the sampling, the maps of nodes, the batches of a merge and the memory estimates.

The definitions follow the stages from the leaves of a subtree to the assembled list, each beside
the one over unbounded keys and in the same words, with a 32 at the end of the name.  The last one,
`interleavedNodeMap32`, is the build as the source runs it: in parallel wherever the source is, and
with 32-bit coordinates.
-/

namespace CopcConverter

open LevelTree Interleave TaggedSplit

variable {F : Type} [FloatArith F]

/-- Group keys by their parents. -/
def groupByParent32 (keys : List VoxelKey) : BucketMap VoxelKey VoxelKey :=
  BucketMap.groupBy VoxelKey.parent32 keys

/-- The groups of level `d` of the nodes in memory. -/
def parentGroups32 (ord : IterOrder) (nodes : Nodes) (d : ℕ) :
    List (VoxelKey × List VoxelKey) :=
  (ord.sub 1).list
    (groupByParent32 (((ord.sub 0).list nodes.keys).filter fun k => k.level = d + 1)).pairs

/-- The densest sub-octant at a level, from the counts at a deeper level. -/
def densestAt32 (ord : IterOrder) (deepCounts : KeyCounts) (deepest level : ℕ) : ℕ :=
  let shift := deepest - level
  let levelCounts := (ord.list deepCounts.entries).foldl (fun m e =>
    KeyCounts.add m ⟨level, shiftRight32 e.1.x shift, shiftRight32 e.1.y shift,
      shiftRight32 e.1.z shift⟩ e.2) ∅
  (levelCounts.entries.map fun e => e.2).foldl max 0

/-- The order `(level, x, y, z)` in which keys are sorted. -/
def VoxelKey.sortKey32 (k : VoxelKey) : ℕ ×ₗ ℤ ×ₗ ℤ ×ₗ ℤ :=
  toLex (k.level, toLex ((coordinate k.x).toInt, toLex ((coordinate k.y).toInt,
    (coordinate k.z).toInt)))

/-- Walk up from a key at level `n` and add every parent. -/
def Ancestors.climb32 : ℕ → VoxelKey → Ancestors → Ancestors
  | 0, _, s => s
  | n + 1, k, s =>
    match k.parent32 with
    | some p => climb32 n p (s.insert p)
    | none => s

/-- The listed nodes: every node that holds points with its count, then the missing ancestors with
none, sorted by level. -/
def assembleNodes32 (store : Store) (allKeys : List VoxelKey) : List (VoxelKey × ℕ) :=
  let keys := dedupSorted (allKeys.mergeSort fun a c => decide (a.sortKey32 ≤ c.sortKey32))
  let result := (keys.map fun k => (k, (store k).length)).filter fun e => e.2 > 0
  let ancestors := result.foldl (fun s e => s.climb32 e.1.level e.1)
    (⟨(result.map Prod.fst).toFinset, []⟩ : Ancestors)
  (result ++ ancestors.extra.map fun k => (k, 0)).mergeSort fun a c =>
    decide (a.1.level ≤ c.1.level)

namespace OctreeBuilder

variable (b : OctreeBuilder F)

/-! ## Subtrees -/

/-- Grid-sample one task. -/
def sampleTask32 (t : SampleTask) : SampleResult :=
  if t.pts.isEmpty then
    ⟨t.parent, t.children, [], List.replicate t.children.length []⟩
  else
    let r := b.gridSample32 t.parent t.pts t.children.length
    ⟨t.parent, t.children, r.1, r.2⟩

/-- One round of the bottom-up loop: produce the parents at level `d`. -/
def levelStep32 (ord : IterOrder) (nodes : Nodes) (d : ℕ) : Nodes :=
  let parentChildren := parentGroups32 ord nodes d
  if parentChildren.isEmpty then nodes
  else
    let tasks := gatherTasks parentChildren nodes
    (tasks.1.map b.sampleTask32).foldl applyResult tasks.2

/-- The loop over the levels `min + n - 1` down to `min`. -/
def bottomUpLoop32 (ord : IterOrder) (min : ℕ) : ℕ → Nodes → Nodes
  | 0, nodes => nodes
  | n + 1, nodes => bottomUpLoop32 ord min n (b.levelStep32 (ord.sub (min + n)) nodes (min + n))

/-- The in-memory loop, with the writing of its nodes in parallel. -/
def bottomUpJob32 (σ : Schedules) (ord : IterOrder) (nodes : Nodes)
    (actualMaxDepth minLevel : ℕ) : NodeJob (List (VoxelKey × ℕ)) :=
  let nodes := b.bottomUpLoop32 (ord.sub 0) minLevel (actualMaxDepth - minLevel) nodes
  (Job.interleave σ.here
      (((ord.sub 1).list nodes.keys).map fun k => .write k (nodes.get k) (.pure ()))).bind fun _ =>
    .pure (((ord.sub 2).list nodes.pairs).filterMap fun e =>
      if e.2.isEmpty then none else some (e.1, e.2.length))

/-- The leaves of some points at one depth. -/
def leavesAt32 (points : List RawPoint) (leafDepth : ℕ) : Nodes :=
  points.foldl (fun leaves raw => b.pushIntoLeaf32 leaves raw leafDepth) ∅

/-- Replace one oversized leaf by leaves one level deeper, tracking the deepest level. -/
def splitOversized32 (s : Nodes × ℕ) (key : VoxelKey) : Nodes × ℕ :=
  let newLevel := key.level + 1
  ((s.1.get key).foldl (fun leaves raw => b.pushIntoLeaf32 leaves raw newLevel) (s.1.erase key),
    if newLevel > s.2 then newLevel else s.2)

/-- The subdivision loop: the leaves and the effective maximal depth. -/
def subdivide32 (ord : IterOrder) : ℕ → Nodes × ℕ → Nodes × ℕ
  | 0, s => s
  | fuel + 1, s =>
    let large := oversized (ord.sub fuel) s.1
    if large.isEmpty then s
    else if large.any fun k => chunkDepthCap ≤ k.level then s
    else subdivide32 ord fuel (large.foldl b.splitOversized32 s)

/-- The build of a subtree in memory. -/
def subtreeJob32 (σ : Schedules) (ord : IterOrder) (root : VoxelKey) (points : List RawPoint)
    (estPoints : ℕ) : NodeJob (List (VoxelKey × ℕ)) :=
  let leafDepth := root.level + chunkLocalExtraLevels F estPoints
  let leaves := b.leavesAt32 points leafDepth
  if leaves.keys.isEmpty then .pure []
  else
    let s := b.subdivide32 (ord.sub 0) (chunkDepthCap + 1) (leaves, leafDepth)
    b.bottomUpJob32 σ (ord.sub 1) s.1 s.2 root.level

/-! ## Merging -/

/-- Merge one parent. -/
def mergeParentJob32 (t : VoxelKey × List VoxelKey) : NodeJob Unit :=
  (NodeJob.readEach t.2).bind fun vals =>
    if (tagged vals).isEmpty then .pure ()
    else
      let r := b.gridSample32 t.1 (tagged vals) t.2.length
      (NodeJob.writeEach (t.2.zip r.2)).bind fun _ =>
        if r.1.isEmpty then .pure () else .write t.1 r.1 (.pure ())

/-- Merge the parents of one batch in parallel. -/
def mergeBatchJob32 (σ : Schedules) (ord : IterOrder) (d : ℕ) (m : MergeKeys)
    (batch : List MergeTask) : NodeJob MergeKeys :=
  (Job.interleave σ.here
      ((ord.list batch).map fun t => b.mergeParentJob32 (t.parent, t.children))).bind fun _ =>
    .pure
      { keysByLevel := batch.foldl (fun m t => insertKey m d t.parent) m.keysByLevel
        newParents := m.newParents ++ batch.map MergeTask.parent }

/-- Merge the batches of one level, one after the other. -/
def mergeBatchesJob32 (σ : Schedules) (ord : IterOrder) (d : ℕ) :
    List (List MergeTask) → MergeKeys → NodeJob MergeKeys
  | [], m => .pure m
  | batch :: rest, m =>
    (b.mergeBatchJob32 (σ.sub rest.length) (ord.sub rest.length) d m batch).bind
      (mergeBatchesJob32 σ ord d rest)

/-- The groups of level `d` of a merge. -/
def groupsAt32 (ord : IterOrder) (m : MergeKeys) (d : ℕ) : List (VoxelKey × List VoxelKey) :=
  (ord.sub 1).list (groupByParent32 ((ord.sub 0).list (m.keysByLevel.get (d + 1)))).pairs

/-- One level of the merge: produce the parents at level `d`. -/
def mergeLevelJob32 (σ : Schedules) (ord : IterOrder) (memoryBudget batchCap : ℕ) (m : MergeKeys)
    (d : ℕ) : NodeJob MergeKeys :=
  let oomThreshold := max memoryBudget mergeParentOomFloorBytes
  (Job.sequence ((groupsAt32 ord m d).map b.estimateJob)).bind fun tasks =>
    match tasks.find? fun t => t.estMem > oomThreshold with
    | some t => .done (.error
      (.mergeTooLarge t.parent t.children.length (t.estMem / 1048576) (oomThreshold / 1048576)))
    | none =>
      let small := tasks.mergeSort fun s t => decide (t.estMem ≤ s.estMem)
      b.mergeBatchesJob32 σ (ord.sub 2) d (batches batchCap small.length small) m

/-- The loop over the levels `stop + n - 1` down to `stop`. -/
def mergeLoopJob32 (σ : Schedules) (ord : IterOrder) (memoryBudget batchCap stop : ℕ) :
    ℕ → MergeKeys → NodeJob MergeKeys
  | 0, m => .pure m
  | n + 1, m =>
    (b.mergeLevelJob32 (σ.sub (stop + n)) (ord.sub (stop + n)) memoryBudget batchCap m
      (stop + n)).bind (mergeLoopJob32 σ ord memoryBudget batchCap stop n)

/-- Merge a set of root keys upward, level by level, down to `stopLevel`. -/
def mergeTopsJob32 (σ : Schedules) (ord : IterOrder) (memoryBudget : ℕ)
    (chunkRootKeys : List VoxelKey) (stopLevel buildConcurrency perParentBudget : ℕ) :
    NodeJob (List VoxelKey) :=
  if chunkRootKeys.isEmpty then .pure []
  else
    let keys := keysByLevel chunkRootKeys
    let maxChunkLevel := keys.keys.foldl max 0
    let batchCap := saturatingMul buildConcurrency perParentBudget
    (b.mergeLoopJob32 σ ord memoryBudget batchCap stopLevel (maxChunkLevel - stopLevel)
      ⟨keys, []⟩).bind fun m => .pure m.newParents

/-! ## Chunks -/

/-- Choose the shallowest sub-octant split level whose densest sub-octant holds at most `maxPoints`
points. -/
def chooseSplitLevel32 (ord : IterOrder) (points : List RawPoint) (chunkRoot : VoxelKey)
    (maxPoints : ℕ) : ℕ × ℕ :=
  let deepest := chunkRoot.level + spillDepthCap
  let deepCounts := points.foldl (fun m raw => KeyCounts.add m (b.keyOf32 raw deepest) 1) ∅
  if deepCounts.entries.isEmpty then (chunkRoot.level + 1, 0)
  else
    splitLevelFrom (fun level => densestAt32 (ord.sub level) deepCounts deepest level)
      chunkRoot.level maxPoints (spillDepthCap - 1) 1

/-- Route one point, appending the pending groups once there are enough points. -/
def routePoint32 (ord : IterOrder) (splitLevel flushThreshold : ℕ) (s : SpillState)
    (raw : RawPoint) : SpillState :=
  let s := s.enqueue (b.keyOf32 raw splitLevel) raw
  if s.pendingPoints ≥ flushThreshold then s.drain ord else s

/-- Route the points of a chunk file, then append what is still pending. -/
def routePoints32 (ord : IterOrder) (splitLevel flushThreshold : ℕ) :
    List RawPoint → SpillState → SpillState
  | [], s => s.drain (ord.sub 0)
  | raw :: rest, s =>
    routePoints32 ord splitLevel flushThreshold rest
      (b.routePoint32 (ord.sub (rest.length + 1)) splitLevel flushThreshold s raw)

/-- The split level of a spilled chunk. -/
def splitLevelOf32 (ord : IterOrder) (chunk : PlannedChunk) (points : List RawPoint)
    (chunkMemBudget : ℕ) : ℕ :=
  let maxPointsInBudget := max (chunkMemBudget / perChunkBytesPerPointBuild) 1
  (b.chooseSplitLevel32 ord points chunk.key maxPointsInBudget).1

/-- The sub-octants of a spilled chunk and their files. -/
def spillOf32 (ord : IterOrder) (chunk : PlannedChunk) (points : List RawPoint)
    (chunkMemBudget : ℕ) : SpillState :=
  let splitLevel := b.splitLevelOf32 (ord.sub 0) chunk points chunkMemBudget
  let flushThreshold := max (chunkMemBudget / 4 / RawPoint.recordSize b.numExtraBytes) 1
  b.routePoints32 (ord.sub 1) splitLevel flushThreshold points ⟨∅, [], fun _ => [], ∅, 0⟩

/-- Build one sub-octant from its spill file. -/
def subOctantJob32 (σ : Schedules) (ord : IterOrder) (files : ℕ → List RawPoint) (idx : ℕ)
    (subRoot : VoxelKey) : NodeJob (List (VoxelKey × ℕ)) :=
  b.subtreeJob32 (σ.sub idx) (ord.sub idx) subRoot (files idx) (files idx).length

/-- Build a chunk through spill files: the sub-octants in parallel, then their merge. -/
def spilledJob32 (σ : Schedules) (ord : IterOrder) (memoryBudget : ℕ) (chunk : PlannedChunk)
    (points : List RawPoint) (chunkMemBudget : ℕ) : NodeJob (List (VoxelKey × ℕ)) :=
  let splitLevel := b.splitLevelOf32 (ord.sub 0) chunk points chunkMemBudget
  let s := b.spillOf32 ord chunk points chunkMemBudget
  (Job.interleave (σ.sub 0).here
      (s.subRoots.mapIdx (b.subOctantJob32 (σ.sub 1) (ord.sub 3) s.files))).bind fun built =>
    let allNodes := built.flatten
    let subRootKeys := built.flatMap (keysAt splitLevel)
    if subRootKeys.isEmpty then .pure allNodes
    else
      (b.mergeTopsJob32 (σ.sub 2) (ord.sub 4) memoryBudget subRootKeys chunk.level 1
        chunkMemBudget).bind fun merged => .pure (allNodes ++ merged.map fun k => (k, 0))

/-- Build a single chunk's sub-octree, in memory or through spill files. -/
def chunkJob32 (σ : Schedules) (ord : IterOrder) (memoryBudget : ℕ)
    (chunkActualCounts : Option (List ℕ)) (files : ℕ → List RawPoint) (chunkMemBudget : ℕ)
    (chunkIdx : ℕ) (chunk : PlannedChunk) : NodeJob (List (VoxelKey × ℕ)) :=
  let actual := actualPoints chunkActualCounts files chunkIdx
  if saturatingMul actual perChunkBytesPerPointBuild ≤ chunkMemBudget then
    b.subtreeJob32 σ ord chunk.key (files chunkIdx) actual
  else b.spilledJob32 σ ord memoryBudget chunk (files chunkIdx) chunkMemBudget

/-- Build one chunk of the plan, within the budget of one slot. -/
def buildChunkJob32 (σ : Schedules) (ord : IterOrder) (memoryBudget cores : ℕ)
    (chunkActualCounts : Option (List ℕ)) (files : ℕ → List RawPoint) (chunkIdx : ℕ)
    (chunk : PlannedChunk) : NodeJob (List (VoxelKey × ℕ)) :=
  b.chunkJob32 (σ.sub chunkIdx) (ord.sub chunkIdx) memoryBudget chunkActualCounts files
    (buildConcurrencyAndBudget F memoryBudget cores).2 chunkIdx chunk

/-- Build the nodes of a plan: the chunks in parallel, then the merge of their roots.  The keys of
all nodes are returned. -/
def planJob32 (σ : Schedules) (ord : IterOrder) (memoryBudget cores : ℕ) (plan : ChunkPlan)
    (chunkActualCounts : Option (List ℕ)) (files : ℕ → List RawPoint) : NodeJob (List VoxelKey) :=
  (Job.interleave (σ.sub 0).here (plan.chunks.mapIdx
      (b.buildChunkJob32 (σ.sub 1) (ord.sub 1) memoryBudget cores chunkActualCounts files))).bind
    fun built =>
      let allChunkNodeKeys := (plan.chunks.zip built).flatMap fun e => e.2.map Prod.fst
      (b.mergeTopsJob32 (σ.sub 2) (ord.sub 2) memoryBudget (chunkRootKeys plan.chunks built) 0
        (buildConcurrencyAndBudget F memoryBudget cores).1
        (buildConcurrencyAndBudget F memoryBudget cores).2).bind fun merged =>
          .pure (allChunkNodeKeys ++ merged)

/-- Build the node map with everything that runs in parallel interleaved; the list is assembled when
the jobs are done. -/
def interleavedNodeMap32 (σ : Schedules) (ord : IterOrder) (memoryBudget cores : ℕ)
    (chunkedPlan : Option ChunkPlan) (chunkActualCounts : Option (List ℕ))
    (files : ℕ → List RawPoint) : Except BuildError (Store × List (VoxelKey × ℕ)) :=
  match chunkedPlan with
  | none => .error .noChunkPlan
  | some plan =>
    if plan.chunks.length = 0 then .ok (fun _ => [], [])
    else
      ((b.planJob32 σ ord memoryBudget cores plan chunkActualCounts files).run fun _ => []).map
        fun r => (r.1, assembleNodes32 r.1 r.2)

end OctreeBuilder

end CopcConverter
