import CopcConverter.Foundations.Interleave
import CopcConverter.Octree.NodeMap

/-!
# Builds as interleaved jobs

The node store is shared by everything that is built side by side: the nodes of one subtree are
written in parallel, so are the chunks, the sub-octants of a spilled chunk and the parents of a
merge batch.  Here a build is a job that reads and writes one node at a time, and what runs in
parallel is interleaved by a schedule.

No two of the jobs that run in parallel access the same node, so the schedules make no difference:
an interleaved build leaves what the build leaves that runs its jobs one after the other.
-/

namespace CopcConverter

open LevelTree Interleave TaggedSplit

variable {F : Type} [FloatArith F]

/-! ## Jobs -/

/-- What a build does to the node store. -/
abbrev NodeJob (ρ : Type) := Job VoxelKey (List RawPoint) BuildError ρ

/-- A schedule for every place of a run at which jobs run in parallel, a place being a path of
numbers. -/
def Schedules := List ℕ → List ℕ

namespace Schedules

/-- The schedules for the part of the run numbered `i`. -/
def sub (σ : Schedules) (i : ℕ) : Schedules := fun site => σ (i :: site)

/-- The schedule for this place. -/
def here (σ : Schedules) : List ℕ := σ []

/-- The schedules that run everything one after the other. -/
def sequential : Schedules := fun _ => []

end Schedules

namespace NodeJob

/-- Read some nodes. -/
def readEach (keys : List VoxelKey) : NodeJob (List (List RawPoint)) :=
  Job.sequence (keys.map fun k => .read k .pure)

/-- Write some nodes. -/
def writeEach : List (VoxelKey × List RawPoint) → NodeJob Unit
  | [] => .pure ()
  | e :: es => .write e.1 e.2 (writeEach es)

/-- Reading nodes returns what they hold. -/
lemma run_readEach (keys : List VoxelKey) (store : Store) :
    (readEach keys).run store = .ok (store, keys.map store) :=
  Job.run_sequence_const (fun _ => rfl) keys

/-- Writing nodes writes them one after the other. -/
lemma run_writeEach (es : List (VoxelKey × List RawPoint)) (store : Store) :
    (writeEach es).run store = .ok (es.foldl (fun st e => Store.write st e.1 e.2) store, ()) := by
  induction es generalizing store with
  | nil => rfl
  | cons e es ih => exact ih _

variable {fp : VoxelKey → Prop}

lemma readEach_confined {keys : List VoxelKey} (h : ∀ k ∈ keys, fp k) :
    (readEach keys).Confined fp fun _ => True := by
  refine (Job.Confined.sequence (Q := fun _ => True) fun t ht => ?_).mono (fun _ hk => hk)
    fun _ _ => trivial
  obtain ⟨k, hk, rfl⟩ := List.mem_map.mp ht
  exact ⟨h k hk, fun v => Job.Confined.pure trivial⟩

lemma writeEach_confined {es : List (VoxelKey × List RawPoint)} (h : ∀ e ∈ es, fp e.1) :
    (writeEach es).Confined fp fun _ => True := by
  induction es with
  | nil => exact Job.Confined.pure trivial
  | cons e es ih =>
    exact ⟨h e List.mem_cons_self, ih fun u hu => h u (List.mem_cons_of_mem _ hu)⟩

end NodeJob

namespace OctreeBuilder

variable (b : OctreeBuilder F)

/-! ## Subtrees -/

/-- The in-memory loop, with the writing of its nodes in parallel. -/
def bottomUpJob (σ : Schedules) (ord : IterOrder) (nodes : Nodes) (actualMaxDepth minLevel : ℕ) :
    NodeJob (List (VoxelKey × ℕ)) :=
  let nodes := b.bottomUpLoop (ord.sub 0) minLevel (actualMaxDepth - minLevel) nodes
  (Job.interleave σ.here
      (((ord.sub 1).list nodes.keys).map fun k => .write k (nodes.get k) (.pure ()))).bind fun _ =>
    .pure (((ord.sub 2).list nodes.pairs).filterMap fun e =>
      if e.2.isEmpty then none else some (e.1, e.2.length))

/-- The build of a subtree in memory. -/
def subtreeJob (σ : Schedules) (ord : IterOrder) (root : VoxelKey) (points : List RawPoint)
    (estPoints : ℕ) : NodeJob (List (VoxelKey × ℕ)) :=
  let leafDepth := root.level + chunkLocalExtraLevels F estPoints
  let leaves := b.leavesAt points leafDepth
  if leaves.keys.isEmpty then .pure []
  else
    let s := b.subdivide (ord.sub 0) (chunkDepthCap + 1) (leaves, leafDepth)
    b.bottomUpJob σ (ord.sub 1) s.1 s.2 root.level

/-! ## Merging -/

/-- Merge one parent. -/
def mergeParentJob (t : VoxelKey × List VoxelKey) : NodeJob Unit :=
  (NodeJob.readEach t.2).bind fun vals =>
    if (tagged vals).isEmpty then .pure ()
    else
      let r := b.gridSample t.1 (tagged vals) t.2.length
      (NodeJob.writeEach (t.2.zip r.2)).bind fun _ =>
        if r.1.isEmpty then .pure () else .write t.1 r.1 (.pure ())

/-- What a merge keeps in memory between its batches. -/
structure MergeKeys where
  keysByLevel : BucketMap ℕ VoxelKey
  newParents : List VoxelKey

/-- What the merge keeps in memory in a state. -/
def MergeKeys.of (s : MergeState) : MergeKeys := ⟨s.keysByLevel, s.newParents⟩

/-- The state of a merge over a store. -/
def MergeKeys.over (m : MergeKeys) (store : Store) : MergeState :=
  ⟨store, m.keysByLevel, m.newParents⟩

/-- Merge the parents of one batch in parallel. -/
def mergeBatchJob (σ : Schedules) (ord : IterOrder) (d : ℕ) (m : MergeKeys)
    (batch : List MergeTask) : NodeJob MergeKeys :=
  (Job.interleave σ.here
      ((ord.list batch).map fun t => b.mergeParentJob (t.parent, t.children))).bind fun _ =>
    .pure
      { keysByLevel := batch.foldl (fun m t => insertKey m d t.parent) m.keysByLevel
        newParents := m.newParents ++ batch.map MergeTask.parent }

/-- Merge the batches of one level, one after the other. -/
def mergeBatchesJob (σ : Schedules) (ord : IterOrder) (d : ℕ) :
    List (List MergeTask) → MergeKeys → NodeJob MergeKeys
  | [], m => .pure m
  | batch :: rest, m =>
    (b.mergeBatchJob (σ.sub rest.length) (ord.sub rest.length) d m batch).bind
      (mergeBatchesJob σ ord d rest)

/-- Estimate the memory cost of one parent. -/
def estimateJob (t : VoxelKey × List VoxelKey) : NodeJob MergeTask :=
  (NodeJob.readEach t.2).bind fun vals =>
    .pure ⟨t.1, t.2, saturatingMul (vals.map List.length).sum b.memPerPoint⟩

/-- The groups of level `d`. -/
def groupsAt (ord : IterOrder) (m : MergeKeys) (d : ℕ) : List (VoxelKey × List VoxelKey) :=
  mergeGroups ord (m.over fun _ => []) d

/-- One level of the merge: produce the parents at level `d`. -/
def mergeLevelJob (σ : Schedules) (ord : IterOrder) (memoryBudget batchCap : ℕ) (m : MergeKeys)
    (d : ℕ) : NodeJob MergeKeys :=
  let oomThreshold := max memoryBudget mergeParentOomFloorBytes
  (Job.sequence ((groupsAt ord m d).map b.estimateJob)).bind fun tasks =>
    match tasks.find? fun t => t.estMem > oomThreshold with
    | some t => .done (.error
      (.mergeTooLarge t.parent t.children.length (t.estMem / 1048576) (oomThreshold / 1048576)))
    | none =>
      let small := tasks.mergeSort fun s t => decide (t.estMem ≤ s.estMem)
      b.mergeBatchesJob σ (ord.sub 2) d (batches batchCap small.length small) m

/-- The loop over the levels `stop + n - 1` down to `stop`. -/
def mergeLoopJob (σ : Schedules) (ord : IterOrder) (memoryBudget batchCap stop : ℕ) :
    ℕ → MergeKeys → NodeJob MergeKeys
  | 0, m => .pure m
  | n + 1, m =>
    (b.mergeLevelJob (σ.sub (stop + n)) (ord.sub (stop + n)) memoryBudget batchCap m
      (stop + n)).bind (mergeLoopJob σ ord memoryBudget batchCap stop n)

/-- Merge a set of root keys upward, level by level, down to `stopLevel`. -/
def mergeTopsJob (σ : Schedules) (ord : IterOrder) (memoryBudget : ℕ)
    (chunkRootKeys : List VoxelKey) (stopLevel buildConcurrency perParentBudget : ℕ) :
    NodeJob (List VoxelKey) :=
  if chunkRootKeys.isEmpty then .pure []
  else
    let keys := keysByLevel chunkRootKeys
    let maxChunkLevel := keys.keys.foldl max 0
    let batchCap := saturatingMul buildConcurrency perParentBudget
    (b.mergeLoopJob σ ord memoryBudget batchCap stopLevel (maxChunkLevel - stopLevel)
      ⟨keys, []⟩).bind fun m => .pure m.newParents

/-! ## Chunks -/

/-- Build one sub-octant from its spill file. -/
def subOctantJob (σ : Schedules) (ord : IterOrder) (files : ℕ → List RawPoint) (idx : ℕ)
    (subRoot : VoxelKey) : NodeJob (List (VoxelKey × ℕ)) :=
  b.subtreeJob (σ.sub idx) (ord.sub idx) subRoot (files idx) (files idx).length

/-- Build a chunk through spill files: the sub-octants in parallel, then their merge. -/
def spilledJob (σ : Schedules) (ord : IterOrder) (memoryBudget : ℕ) (chunk : PlannedChunk)
    (points : List RawPoint) (chunkMemBudget : ℕ) : NodeJob (List (VoxelKey × ℕ)) :=
  let splitLevel := b.splitLevelOf (ord.sub 0) chunk points chunkMemBudget
  let s := b.spillOf ord chunk points chunkMemBudget
  (Job.interleave (σ.sub 0).here
      (s.subRoots.mapIdx (b.subOctantJob (σ.sub 1) (ord.sub 3) s.files))).bind fun built =>
    let allNodes := built.flatten
    let subRootKeys := built.flatMap (keysAt splitLevel)
    if subRootKeys.isEmpty then .pure allNodes
    else
      (b.mergeTopsJob (σ.sub 2) (ord.sub 4) memoryBudget subRootKeys chunk.level 1
        chunkMemBudget).bind fun merged => .pure (allNodes ++ merged.map fun k => (k, 0))

/-- Build a single chunk's sub-octree, in memory or through spill files. -/
def chunkJob (σ : Schedules) (ord : IterOrder) (memoryBudget : ℕ)
    (chunkActualCounts : Option (List ℕ)) (files : ℕ → List RawPoint) (chunkMemBudget : ℕ)
    (chunkIdx : ℕ) (chunk : PlannedChunk) : NodeJob (List (VoxelKey × ℕ)) :=
  let actualPoints := match chunkActualCounts with
    | some counts => counts.getD chunkIdx 0
    | none => (files chunkIdx).length
  if saturatingMul actualPoints perChunkBytesPerPointBuild ≤ chunkMemBudget then
    b.subtreeJob σ ord chunk.key (files chunkIdx) actualPoints
  else b.spilledJob σ ord memoryBudget chunk (files chunkIdx) chunkMemBudget

/-- Build one chunk of the plan, within the budget of one slot. -/
def buildChunkJob (σ : Schedules) (ord : IterOrder) (memoryBudget cores : ℕ)
    (chunkActualCounts : Option (List ℕ)) (files : ℕ → List RawPoint) (chunkIdx : ℕ)
    (chunk : PlannedChunk) : NodeJob (List (VoxelKey × ℕ)) :=
  b.chunkJob (σ.sub chunkIdx) (ord.sub chunkIdx) memoryBudget chunkActualCounts files
    (buildConcurrencyAndBudget F memoryBudget cores).2 chunkIdx chunk

/-- Build the nodes of a plan: the chunks in parallel, then the merge of their roots.  The keys of
all nodes are returned. -/
def planJob (σ : Schedules) (ord : IterOrder) (memoryBudget cores : ℕ) (plan : ChunkPlan)
    (chunkActualCounts : Option (List ℕ)) (files : ℕ → List RawPoint) : NodeJob (List VoxelKey) :=
  (Job.interleave (σ.sub 0).here (plan.chunks.mapIdx
      (b.buildChunkJob (σ.sub 1) (ord.sub 1) memoryBudget cores chunkActualCounts files))).bind
    fun built =>
      let allChunkNodeKeys := (plan.chunks.zip built).flatMap fun e => e.2.map Prod.fst
      (b.mergeTopsJob (σ.sub 2) (ord.sub 2) memoryBudget (chunkRootKeys plan.chunks built) 0
        (buildConcurrencyAndBudget F memoryBudget cores).1
        (buildConcurrencyAndBudget F memoryBudget cores).2).bind fun merged =>
          .pure (allChunkNodeKeys ++ merged)

/-- Build the node map with everything that runs in parallel interleaved; the list is assembled when
the jobs are done. -/
def interleavedNodeMap (σ : Schedules) (ord : IterOrder) (memoryBudget cores : ℕ)
    (chunkedPlan : Option ChunkPlan) (chunkActualCounts : Option (List ℕ))
    (files : ℕ → List RawPoint) : Except BuildError (Store × List (VoxelKey × ℕ)) :=
  match chunkedPlan with
  | none => .error .noChunkPlan
  | some plan =>
    if plan.chunks.length = 0 then .ok (fun _ => [], [])
    else
      ((b.planJob σ ord memoryBudget cores plan chunkActualCounts files).run fun _ => []).map
        fun r => (r.1, assembleNodes r.1 r.2)

/-! ## Running a job -/

/-- Writing different nodes in parallel. -/
lemma run_interleave_writes {keys : List VoxelKey} (hnodup : keys.Nodup)
    (vals : VoxelKey → List RawPoint) (schedule : List ℕ) (store : Store) :
    ∃ rs, (Job.interleave schedule (keys.map fun k =>
        (Job.write k (vals k) (.pure ()) : NodeJob Unit))).run store =
      .ok (keys.foldl (fun st k => Store.write st k (vals k)) store, rs) := by
  have hapart : (keys.map fun k => (Job.write k (vals k) (.pure ()) : NodeJob Unit)).Pairwise
      Job.Apart := by
    refine List.pairwise_map.mpr (hnodup.imp fun {k j} hne i hk hj => ?_)
    rcases hk with rfl | hk
    · rcases hj with rfl | hj
      · exact hne rfl
      · exact hj
    · exact hk
  obtain ⟨rs, hrs⟩ := Job.run_sequence_map (f := fun st k => Store.write st k (vals k))
    (g := fun _ _ => ()) (J := fun k => (Job.write k (vals k) (.pure ()) : NodeJob Unit))
    (fun k st => rfl) keys store
  exact ⟨rs, by rw [Job.run_interleave hapart, hrs]⟩

lemma run_bottomUpJob (σ : Schedules) (ord : IterOrder) (nodes : Nodes) (max min : ℕ)
    (store : Store) :
    (b.bottomUpJob σ ord nodes max min).run store =
      .ok (b.bottomUpLevels ord store nodes max min) := by
  obtain ⟨rs, hrs⟩ := run_interleave_writes
    (((ord.sub 1).list_perm _).nodup_iff.mpr
      (AList.keys_nodup (b.bottomUpLoop (ord.sub 0) min (max - min) nodes)))
    (BucketMap.get (b.bottomUpLoop (ord.sub 0) min (max - min) nodes)) σ.here store
  exact Job.run_bind_ok hrs

/-- The job of a subtree builds the subtree. -/
lemma run_subtreeJob (σ : Schedules) (ord : IterOrder) (root : VoxelKey) (points : List RawPoint)
    (estPoints : ℕ) (store : Store) :
    (b.subtreeJob σ ord root points estPoints).run store =
      .ok (b.buildSubtree ord store root points estPoints) := by
  unfold subtreeJob buildSubtree finishSubtree
  simp only
  split_ifs
  · rfl
  · exact b.run_bottomUpJob _ _ _ _ _ _

/-- The job of a parent merges the parent. -/
lemma run_mergeParentJob (t : VoxelKey × List VoxelKey) (store : Store) :
    (b.mergeParentJob t).run store = .ok (b.mergeParent store t, ()) := by
  unfold mergeParentJob
  rw [Job.run_bind_ok (NodeJob.run_readEach t.2 store)]
  unfold mergeParent
  simp only
  split_ifs
  · rfl
  · rw [Job.run_bind_ok (NodeJob.run_writeEach _ store)]
    rfl
  · rw [Job.run_bind_ok (NodeJob.run_writeEach _ store)]
    rfl

/-- A parent's job accesses the parent and its children. -/
lemma mergeParentJob_confined (t : VoxelKey × List VoxelKey) :
    (b.mergeParentJob t).Confined (Grouped.footprint t) fun _ => True := by
  refine (NodeJob.readEach_confined fun k hk => Or.inr hk).bind fun vals _ => ?_
  split_ifs
  · exact Job.Confined.pure trivial
  · refine (NodeJob.writeEach_confined fun e he => Or.inr (List.of_mem_zip he).1).bind
      fun _ _ => ?_
    split_ifs
    · exact Job.Confined.pure trivial
    · exact ⟨Or.inl rfl, Job.Confined.pure trivial⟩

/-- Parents with disjoint groups are merged without interference. -/
lemma mergeParentJob_apart {t u : VoxelKey × List VoxelKey}
    (h : Footprint.Apart Grouped.footprint t u) :
    Job.Apart (b.mergeParentJob t) (b.mergeParentJob u) :=
  Job.apart_of_confined (b.mergeParentJob_confined t) (b.mergeParentJob_confined u) h

/-! ## Running a merge -/

/-- The groups of the tasks of a batch have no place in common. -/
def ApartTasks (batch : List MergeTask) : Prop :=
  batch.Pairwise fun t u =>
    Footprint.Apart Grouped.footprint (t.parent, t.children) (u.parent, u.children)

lemma run_mergeBatchJob (σ : Schedules) (ord : IterOrder) (d : ℕ) {batch : List MergeTask}
    (h : ApartTasks batch) (s : MergeState) :
    (b.mergeBatchJob σ ord d (MergeKeys.of s) batch).run s.store =
      .ok ((b.mergeBatch ord d s batch).store, MergeKeys.of (b.mergeBatch ord d s batch)) := by
  have hsymm : ∀ {t u : MergeTask},
      Footprint.Apart Grouped.footprint (t.parent, t.children) (u.parent, u.children) →
        Footprint.Apart Grouped.footprint (u.parent, u.children) (t.parent, t.children) :=
    fun htu k hu ht => htu k ht hu
  have hapart : ((ord.list batch).map fun t => b.mergeParentJob (t.parent, t.children)).Pairwise
      Job.Apart :=
    List.pairwise_map.mpr ((((ord.list_perm batch).pairwise_iff hsymm).mpr h).imp
      b.mergeParentJob_apart)
  obtain ⟨rs, hrs⟩ := Job.run_sequence_map
    (fun t st => b.run_mergeParentJob (MergeTask.parent t, MergeTask.children t) st)
    (ord.list batch) s.store
  rw [← Job.run_interleave hapart σ.here] at hrs
  exact Job.run_bind_ok hrs

lemma run_mergeBatchesJob (σ : Schedules) (ord : IterOrder) (d : ℕ) {bs : List (List MergeTask)}
    (h : ApartTasks bs.flatten) (s : MergeState) :
    (b.mergeBatchesJob σ ord d bs (MergeKeys.of s)).run s.store =
      .ok ((b.mergeBatches ord d bs s).store, MergeKeys.of (b.mergeBatches ord d bs s)) := by
  induction bs generalizing s with
  | nil => rfl
  | cons batch rest ih =>
    obtain ⟨hbatch, hrest, -⟩ := List.pairwise_append.mp h
    exact (Job.run_bind_ok (b.run_mergeBatchJob _ _ d hbatch s)).trans (ih hrest _)

omit [FloatArith F] in
/-- The estimates read the children. -/
lemma run_estimateJobs (groups : List (VoxelKey × List VoxelKey)) (store : Store) :
    (Job.sequence (groups.map b.estimateJob)).run store = .ok (store, groups.map fun t =>
      ⟨t.1, t.2, saturatingMul (t.2.map fun ck => (store ck).length).sum b.memPerPoint⟩) := by
  refine Job.run_sequence_const (fun t => ?_) groups
  rw [estimateJob, Job.run_bind_ok (NodeJob.run_readEach t.2 store), List.map_map]
  rfl

/-- The job of a level merges the level. -/
lemma run_mergeLevelJob (σ : Schedules) (ord : IterOrder) (memoryBudget batchCap : ℕ)
    {s : MergeState} (h : Levelled s.keysByLevel) (d : ℕ) :
    (b.mergeLevelJob σ ord memoryBudget batchCap (MergeKeys.of s) d).run s.store =
      (b.mergeLevel ord memoryBudget batchCap s d).map fun s => (s.store, MergeKeys.of s) := by
  unfold mergeLevelJob mergeLevel
  simp only
  rw [Job.run_bind_ok (b.run_estimateJobs _ s.store)]
  have hsame : groupsAt ord (MergeKeys.of s) d = mergeGroups ord s d := rfl
  rw [hsame]
  set tasks := (mergeGroups ord s d).map fun t => (⟨t.1, t.2, saturatingMul
    (t.2.map fun ck => (s.store ck).length).sum b.memPerPoint⟩ : MergeTask) with htasks
  cases hfind : tasks.find? fun t => t.estMem > max memoryBudget mergeParentOomFloorBytes with
  | some t => rfl
  | none =>
    refine b.run_mergeBatchesJob σ (ord.sub 2) d ?_ s
    rw [flatten_batches batchCap le_rfl]
    have hpairs : ApartTasks tasks := by
      apply List.pairwise_map.mpr
      exact (mergeGroups_grouped h ord d).pairwise_apart
    refine ((List.mergeSort_perm tasks _).pairwise_iff fun {t u} htu => ?_).mpr hpairs
    exact fun k hu ht => htu k ht hu

/-- The job of the loop runs the loop. -/
lemma run_mergeLoopJob (σ : Schedules) (ord : IterOrder) (memoryBudget batchCap stop n : ℕ)
    {s : MergeState} (h : Levelled s.keysByLevel) :
    (b.mergeLoopJob σ ord memoryBudget batchCap stop n (MergeKeys.of s)).run s.store =
      (b.mergeLoop ord memoryBudget batchCap stop n s).map fun s => (s.store, MergeKeys.of s) := by
  induction n generalizing s with
  | zero => rfl
  | succ n ih =>
    rw [mergeLoopJob, Job.run_bind, b.run_mergeLevelJob _ _ memoryBudget batchCap h, mergeLoop]
    cases hl : b.mergeLevel (ord.sub (stop + n)) memoryBudget batchCap s (stop + n) with
    | error e => rfl
    | ok s' =>
      have hgroups := mergeGroups_grouped h (ord.sub (stop + n)) (stop + n)
      exact ih ((b.mergeLevel_ok hl).tracked (fun t ht => hgroups.level t.1 t.2 ht) h).1

/-- The job of a merge merges. -/
lemma run_mergeTopsJob (σ : Schedules) (ord : IterOrder) (memoryBudget : ℕ)
    (rootKeys : List VoxelKey) (stop conc perParent : ℕ) (store : Store) :
    (b.mergeTopsJob σ ord memoryBudget rootKeys stop conc perParent).run store =
      b.mergeChunkTops ord memoryBudget store rootKeys stop conc perParent := by
  unfold mergeTopsJob mergeChunkTops
  split_ifs
  · rfl
  · simp only
    rw [Job.run_bind]
    have hloop := b.run_mergeLoopJob σ ord memoryBudget (saturatingMul conc perParent) stop
      ((keysByLevel rootKeys).keys.foldl max 0 - stop) (s := ⟨store, keysByLevel rootKeys, []⟩)
      (levelled_keysByLevel rootKeys)
    refine (congrArg (fun x => Except.bind x _) hloop).trans ?_
    cases b.mergeLoop ord memoryBudget (saturatingMul conc perParent) stop
      ((keysByLevel rootKeys).keys.foldl max 0 - stop) ⟨store, keysByLevel rootKeys, []⟩ <;> rfl

end OctreeBuilder

end CopcConverter
