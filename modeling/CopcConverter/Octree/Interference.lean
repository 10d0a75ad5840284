import CopcConverter.Octree.NodeJobs

/-!
# Parallel builds do not interfere

Every stage of a build stays inside the subtree of its root: the build of a subtree below its root,
a merge below the voxel that all its roots lie in, the build of a chunk below the chunk.  What a job
may touch is part of its description, `Job.Confined`, and follows the structure of the job.

The chunks of a plan are unrelated voxels, the sub-octants of a spilled chunk are, and so are the
groups that are merged at one level.  The jobs that run in parallel are therefore apart, and an
interleaved build leaves the store of the build that takes them one after the other.  With this,
what was proved of the build in some order holds for every interleaving of its reads and writes.
-/

namespace CopcConverter

open LevelTree Interleave

variable {F : Type} [FloatArith F]

namespace OctreeBuilder

variable (b : OctreeBuilder F)

/-- The listed nodes are in the subtree of `top`. -/
def ListedBelow (top : VoxelKey) (nodes : List (VoxelKey × ℕ)) : Prop :=
  ∀ e ∈ nodes, IsAncestor top e.1

/-! ## Subtrees -/

/-- Points of one voxel are all inside of it. -/
lemma coe_eq_inside {points : List RawPoint} {root : VoxelKey}
    (h : ∀ p ∈ points, b.keyOf p root.level = root) :
    (↑points : Multiset RawPoint) = inside b.addressing ↑points root := by
  rw [inside_eq_filter]
  exact (Multiset.filter_eq_self.mpr h).symm

/-- The in-memory loop writes and lists the nodes it ends up with. -/
lemma bottomUpJob_within (σ : Schedules) (ord : IterOrder) {P : VoxelKey → Prop} {nodes : Nodes}
    {maxDepth minLevel : ℕ}
    (h : ∀ k ∈ b.bottomUpLoop (ord.sub 0) minLevel (maxDepth - minLevel) nodes, P k) :
    (b.bottomUpJob σ ord nodes maxDepth minLevel).Confined P fun listed =>
      ∀ e ∈ listed, P e.1 := by
  refine (Job.Confined.interleave (Q := fun _ => True) (fun t ht => ?_) _).bind fun _ _ =>
    Job.Confined.pure fun e he => ?_
  · obtain ⟨k, hk, rfl⟩ := List.mem_map.mp ht
    exact ⟨h k (AList.mem_keys.mpr (IterOrder.mem_list.mp hk)), Job.Confined.pure trivial⟩
  · obtain ⟨⟨k, pts⟩, hmem, hk⟩ := List.mem_filterMap.mp he
    simp only at hk
    split_ifs at hk
    obtain rfl := Option.some.inj hk
    exact h k (BucketMap.mem_pairs.mp (IterOrder.mem_list.mp hmem)).1

/-- The loop over the levels of a subtree writes nodes of the subtree. -/
lemma bottomUpJob_confined (σ : Schedules) (ord : IterOrder) {root : VoxelKey} {nodes : Nodes}
    (h : ∀ k ∈ nodes, IsAncestor root k) (maxDepth : ℕ) :
    (b.bottomUpJob σ ord nodes maxDepth root.level).Confined (IsAncestor root)
      (ListedBelow root) :=
  b.bottomUpJob_within σ ord fun _ => b.below_bottomUpLoop le_rfl h

/-- The build of a subtree stays below its root. -/
lemma subtreeJob_confined (σ : Schedules) (ord : IterOrder) {root : VoxelKey}
    {points : List RawPoint} (h : ∀ p ∈ points, b.keyOf p root.level = root) (estPoints : ℕ) :
    (b.subtreeJob σ ord root points estPoints).Confined (IsAncestor root) (ListedBelow root) := by
  unfold subtreeJob
  simp only
  split_ifs
  · exact Job.Confined.pure fun e he => by cases he
  · have hleaves := leaves_leavesAt (b.coe_eq_inside h)
      (Nat.le_add_right root.level (chunkLocalExtraLevels F estPoints))
    exact b.bottomUpJob_confined σ _
      (hleaves.subdivide (ord.sub 0) (chunkDepthCap + 1)).cut.below _

/-! ## Merges -/

/-- Parents of members are members, down to level `stop`. -/
def ClosedUp (P : VoxelKey → Prop) (stop : ℕ) : Prop :=
  ∀ k q, P k → k.parent = some q → stop ≤ q.level → P q

/-- A subtree is closed down to the level of its root. -/
lemma closedUp_isAncestor (top : VoxelKey) : ClosedUp (IsAncestor top) top.level :=
  fun _ _ hk hq hstop => hk.of_level_le
    (VoxelKey.isChild_iff.mpr hq).isProperAncestor.isAncestor hstop

/-- The keys of a merge are in a set of keys. -/
structure MergeKeys.Within (P : VoxelKey → Prop) (m : MergeKeys) : Prop where
  levelled : Levelled m.keysByLevel
  tracked : ∀ l, ∀ k ∈ m.keysByLevel.get l, P k
  parents : ∀ k ∈ m.newParents, P k

/-- A task of level `d` whose parent and children are in a set of keys. -/
structure TaskWithin (P : VoxelKey → Prop) (d : ℕ) (t : VoxelKey × List VoxelKey) : Prop where
  level : t.1.level = d
  within : ∀ k, Grouped.footprint t k → P k

variable {b} {P : VoxelKey → Prop} {d stop : ℕ} {m : MergeKeys}

/-- A merge starts from the keys of its roots. -/
lemma MergeKeys.Within.start {rootKeys : List VoxelKey} (h : ∀ k ∈ rootKeys, P k) :
    MergeKeys.Within P ⟨OctreeBuilder.keysByLevel rootKeys, []⟩ := by
  refine ⟨levelled_keysByLevel rootKeys, fun l k hk => h k ?_, fun k hk => by cases hk⟩
  obtain rfl := (levelled_keysByLevel rootKeys).level l k hk
  exact mem_keysByLevel.mp hk

/-- Recording the parents of a batch. -/
lemma MergeKeys.Within.record (h : m.Within P) {parents : List VoxelKey}
    (hp : ∀ k ∈ parents, k.level = d ∧ P k) :
    MergeKeys.Within P ⟨parents.foldl (fun m k => insertKey m d k) m.keysByLevel,
      m.newParents ++ parents⟩ := by
  have hown : parents.foldl (fun m k => insertKey m d k) m.keysByLevel =
      parents.foldl (fun m k => insertKey m k.level k) m.keysByLevel :=
    List.foldl_ext _ _ _ fun m k hk => by rw [(hp k hk).1]
  have hlev : Levelled (parents.foldl (fun m k => insertKey m d k) m.keysByLevel) := by
    rw [hown]
    exact h.levelled.foldl parents
  refine ⟨hlev, fun l k hk => ?_, fun k hk => ?_⟩
  · obtain rfl := hlev.level l k hk
    rw [hown, mem_foldl_insertKey] at hk
    rcases hk with hk | hk
    · exact h.tracked _ k hk
    · exact (hp k hk).2
  · rcases List.mem_append.mp hk with hk | hk
    · exact h.parents k hk
    · exact (hp k hk).2

/-- The groups of a level down to which the set is closed are in the set. -/
lemma MergeKeys.Within.task (h : m.Within P) (hP : ClosedUp P stop) (hstop : stop ≤ d)
    {ord : IterOrder} {t : VoxelKey × List VoxelKey} (ht : t ∈ groupsAt ord m d) :
    TaskWithin P d t := by
  have hg := mergeGroups_grouped (s := m.over fun _ => []) h.levelled ord d
  have hchild : ∀ c ∈ t.2, IsChild t.1 c ∧ P c := fun c hc => by
    obtain ⟨hc, hct⟩ := ((hg.children t.1 t.2 ht).2 c).mp hc
    exact ⟨hc, h.tracked _ c hct⟩
  refine ⟨hg.level t.1 t.2 ht, fun k hk => ?_⟩
  rcases hk with rfl | hk
  · obtain ⟨c, hc⟩ := List.exists_mem_of_ne_nil _ (hg.inhabited t.1 t.2 ht)
    obtain ⟨hqc, hc⟩ := hchild c hc
    exact hP c t.1 hc (VoxelKey.isChild_iff.mp hqc) (hstop.trans (hg.level t.1 t.2 ht).ge)
  · exact (hchild k hk).2

variable (b)

lemma mergeBatchJob_confined (σ : Schedules) (ord : IterOrder) (hm : m.Within P)
    {batch : List MergeTask} (h : ∀ t ∈ batch, TaskWithin P d (t.parent, t.children)) :
    (b.mergeBatchJob σ ord d m batch).Confined P (MergeKeys.Within P) := by
  refine (Job.Confined.interleave (Q := fun _ => True) (fun t ht => ?_) _).bind fun _ _ =>
    Job.Confined.pure ?_
  · obtain ⟨u, hu, rfl⟩ := List.mem_map.mp ht
    exact (b.mergeParentJob_confined _).mono (h u (IterOrder.mem_list.mp hu)).within
      fun _ hr => hr
  · have hrecord := @MergeKeys.Within.record P d m hm (batch.map MergeTask.parent) fun k hk => by
      obtain ⟨t, ht, rfl⟩ := List.mem_map.mp hk
      exact ⟨(h t ht).level, (h t ht).within _ (Or.inl rfl)⟩
    rwa [List.foldl_map] at hrecord

lemma mergeBatchesJob_confined (σ : Schedules) (ord : IterOrder) {bs : List (List MergeTask)}
    (hm : m.Within P) (h : ∀ t ∈ bs.flatten, TaskWithin P d (t.parent, t.children)) :
    (b.mergeBatchesJob σ ord d bs m).Confined P (MergeKeys.Within P) := by
  induction bs generalizing m with
  | nil => exact Job.Confined.pure hm
  | cons batch rest ih =>
    refine (b.mergeBatchJob_confined _ _ hm fun t ht => h t ?_).bind fun m hm => ih hm fun t ht =>
      h t ?_
    · exact List.mem_append_left _ ht
    · exact List.mem_append_right _ ht

omit [FloatArith F] in
/-- The tasks of a level are in the set, whatever the estimates are. -/
lemma estimateJobs_confined (hm : m.Within P) (hP : ClosedUp P stop) (hstop : stop ≤ d)
    (ord : IterOrder) :
    (Job.sequence ((groupsAt ord m d).map b.estimateJob)).Confined P fun tasks =>
      ∀ t ∈ tasks, TaskWithin P d (t.parent, t.children) := by
  refine Job.Confined.sequence fun t ht => ?_
  obtain ⟨u, hu, rfl⟩ := List.mem_map.mp ht
  have htask := hm.task hP hstop hu
  exact (NodeJob.readEach_confined fun k hk => htask.within k (Or.inr hk)).bind fun _ _ =>
    Job.Confined.pure htask

/-- One level of a merge stays in the set. -/
lemma mergeLevelJob_confined (σ : Schedules) (ord : IterOrder) (memoryBudget batchCap : ℕ)
    (hm : m.Within P) (hP : ClosedUp P stop) (hstop : stop ≤ d) :
    (b.mergeLevelJob σ ord memoryBudget batchCap m d).Confined P (MergeKeys.Within P) := by
  refine (b.estimateJobs_confined hm hP hstop ord).bind fun tasks h => ?_
  simp only
  split
  · exact fun x hx => nomatch hx
  · refine b.mergeBatchesJob_confined σ (ord.sub 2) hm fun t ht => h t ?_
    rw [flatten_batches batchCap le_rfl] at ht
    exact (List.mergeSort_perm tasks _).mem_iff.mp ht

lemma mergeLoopJob_confined (σ : Schedules) (ord : IterOrder) (memoryBudget batchCap : ℕ)
    (hP : ClosedUp P stop) (n : ℕ) (hm : m.Within P) :
    (b.mergeLoopJob σ ord memoryBudget batchCap stop n m).Confined P (MergeKeys.Within P) := by
  induction n generalizing m with
  | zero => exact Job.Confined.pure hm
  | succ n ih =>
    exact (b.mergeLevelJob_confined _ _ memoryBudget batchCap hm hP
      (Nat.le_add_right stop n)).bind fun m hm => ih hm

/-- A merge of roots in a set that is closed down to the stop level stays in the set. -/
lemma mergeTopsJob_confined (σ : Schedules) (ord : IterOrder) (memoryBudget : ℕ)
    (hP : ClosedUp P stop) {rootKeys : List VoxelKey} (h : ∀ k ∈ rootKeys, P k)
    (conc perParent : ℕ) :
    (b.mergeTopsJob σ ord memoryBudget rootKeys stop conc perParent).Confined P
      fun parents => ∀ k ∈ parents, P k := by
  unfold mergeTopsJob
  split_ifs
  · exact Job.Confined.pure fun k hk => by cases hk
  · refine (b.mergeLoopJob_confined σ ord memoryBudget _ hP _ (.start h)).bind fun m hm => ?_
    exact Job.Confined.pure hm.parents

/-! ## Chunks -/

variable {chunk : PlannedChunk} {points : List RawPoint}

/-- The points of a chunk file that are in the voxel of the chunk are spilled into the files of
their sub-octants. -/
lemma spilled_subOctants (ord : IterOrder) (chunkMemBudget : ℕ)
    (h : ∀ p ∈ points, b.keyOf p chunk.level = chunk.key) :
    SubOctants b ↑points chunk.key (b.splitLevelOf (ord.sub 0) chunk points chunkMemBudget)
      (b.spillOf ord chunk points chunkMemBudget) :=
  spillOf_subOctants ord chunkMemBudget (b.coe_eq_inside h)

/-- The build of a sub-octant stays below the sub-octant. -/
lemma subOctantJob_confined (σ : Schedules) (ord : IterOrder) {chunkRoot : VoxelKey}
    {pts : Multiset RawPoint} {splitLevel : ℕ} {s : SpillState}
    (h : SubOctants b pts chunkRoot splitLevel s) {i : ℕ} {r : VoxelKey}
    (hr : s.subRoots[i]? = some r) :
    (b.subOctantJob σ ord s.files i r).Confined (IsAncestor r) (ListedBelow r) := by
  refine b.subtreeJob_confined _ _ (fun p hp => ?_) _
  rw [← Multiset.mem_coe, h.file i r hr] at hp
  exact (mem_inside.mp hp).2

/-- The sub-octants of a chunk are built without interference. -/
lemma subOctantJobs_apart (σ : Schedules) (ord : IterOrder) {chunkRoot : VoxelKey}
    {pts : Multiset RawPoint} {splitLevel : ℕ} {s : SpillState}
    (h : SubOctants b pts chunkRoot splitLevel s) :
    (s.subRoots.mapIdx (b.subOctantJob σ ord s.files)).Pairwise Job.Apart := by
  refine Job.pairwise_mapIdx fun i j r t hij hr ht => ?_
  refine Job.apart_of_confined (b.subOctantJob_confined σ ord h hr)
    (b.subOctantJob_confined σ ord h ht) fun k => h.unrelated.disjoint hij ?_ ?_
  · rwa [List.map_id]
  · rwa [List.map_id]

/-- A spilled build stays below its chunk. -/
lemma spilledJob_confined (σ : Schedules) (ord : IterOrder) (memoryBudget chunkMemBudget : ℕ)
    (h : ∀ p ∈ points, b.keyOf p chunk.level = chunk.key) :
    (b.spilledJob σ ord memoryBudget chunk points chunkMemBudget).Confined
      (IsAncestor chunk.key) (ListedBelow chunk.key) := by
  have hsub := b.spilled_subOctants ord chunkMemBudget h
  have hbuilt : (Job.interleave (σ.sub 0).here ((b.spillOf ord chunk points
      chunkMemBudget).subRoots.mapIdx (b.subOctantJob (σ.sub 1) (ord.sub 3)
        (b.spillOf ord chunk points chunkMemBudget).files))).Confined (IsAncestor chunk.key)
      fun built => ∀ nodes ∈ built, ListedBelow chunk.key nodes := by
    refine Job.Confined.interleave (fun t ht => ?_) _
    obtain ⟨i, hi, rfl⟩ := List.mem_mapIdx.mp ht
    have hbelow := hsub.below _ (List.getElem_mem hi)
    exact (b.subOctantJob_confined _ _ hsub (List.getElem?_eq_getElem hi)).mono
      (fun k hk => hbelow.trans hk) fun nodes hn e he => hbelow.trans (hn e he)
  unfold spilledJob
  refine hbuilt.bind fun built hb => ?_
  have hall : ListedBelow chunk.key built.flatten := fun e he => by
    obtain ⟨nodes, hn, he⟩ := List.mem_flatten.mp he
    exact hb nodes hn e he
  simp only
  split_ifs
  · exact Job.Confined.pure hall
  · refine (b.mergeTopsJob_confined _ _ memoryBudget (closedUp_isAncestor chunk.key)
      (fun k hk => ?_) 1 chunkMemBudget).bind fun merged hm => Job.Confined.pure fun e he => ?_
    · obtain ⟨nodes, hn, hk⟩ := List.mem_flatMap.mp hk
      obtain ⟨e, he, rfl⟩ := List.mem_map.mp (mem_keysAt.mp hk).1
      exact hb nodes hn e he
    · rcases List.mem_append.mp he with he | he
      · exact hall e he
      · obtain ⟨k, hk, rfl⟩ := List.mem_map.mp he
        exact hm k hk

/-- The build of a chunk stays below the chunk, whichever path it takes. -/
lemma chunkJob_confined (σ : Schedules) (ord : IterOrder) (memoryBudget : ℕ)
    (chunkActualCounts : Option (List ℕ)) {files : ℕ → List RawPoint} (chunkMemBudget : ℕ)
    {chunkIdx : ℕ} (h : ∀ p ∈ files chunkIdx, b.keyOf p chunk.level = chunk.key) :
    (b.chunkJob σ ord memoryBudget chunkActualCounts files chunkMemBudget chunkIdx chunk).Confined
      (IsAncestor chunk.key) (ListedBelow chunk.key) := by
  unfold chunkJob
  simp only
  split_ifs
  · exact @subtreeJob_confined F _ b σ ord chunk.key _ h _
  · exact b.spilledJob_confined σ ord memoryBudget chunkMemBudget h

/-! ## Running a chunk -/

/-- Sub-octants that are built side by side leave what they leave one after the other. -/
lemma run_subOctantJobs (σ : Schedules) (ord ord' : IterOrder) {chunkRoot : VoxelKey}
    {pts : Multiset RawPoint} {splitLevel : ℕ} {s : SpillState}
    (h : SubOctants b pts chunkRoot splitLevel s) (schedule : List ℕ) (store : Store) :
    ∃ built, (Job.interleave schedule (s.subRoots.mapIdx
        (b.subOctantJob σ ord' s.files))).run store = .ok built ∧
      ord.runTasks (b.buildSubOctant ord' s.files) s.subRoots store = .ok built := by
  have hapart := b.subOctantJobs_apart σ ord' h
  have hrun : (fun i r st => (b.subOctantJob σ ord' s.files i r).run st) =
      b.buildSubOctant ord' s.files := by
    funext i r st
    exact b.run_subtreeJob (σ.sub i) (ord'.sub i) r (s.files i) (s.files i).length st
  have hok : ∃ built, (Job.sequence (s.subRoots.mapIdx (b.subOctantJob σ ord' s.files))).run store =
      .ok built := by
    refine Job.run_sequence_ok (fun t ht st => ?_) store
    obtain ⟨i, hi, rfl⟩ := List.mem_mapIdx.mp ht
    exact ⟨_, congrFun (congrFun (congrFun hrun i) _) st⟩
  obtain ⟨built, hbuilt⟩ := hok
  refine ⟨built, (Job.run_interleave hapart schedule store).trans hbuilt, ?_⟩
  rw [← hrun]
  exact (runTasks_iff hapart store built).mpr hbuilt

/-- The job of a spilled build is the spilled build. -/
lemma run_spilledJob (σ : Schedules) (ord : IterOrder) (memoryBudget chunkMemBudget : ℕ)
    (h : ∀ p ∈ points, b.keyOf p chunk.level = chunk.key) (store : Store) :
    (b.spilledJob σ ord memoryBudget chunk points chunkMemBudget).run store =
      b.buildChunkSpilled ord memoryBudget store chunk points chunkMemBudget := by
  obtain ⟨built, hjobs, htasks⟩ := b.run_subOctantJobs (σ.sub 1) (ord.sub 2) (ord.sub 3)
    (b.spilled_subOctants ord chunkMemBudget h) (σ.sub 0).here store
  unfold spilledJob buildChunkSpilled
  simp only
  rw [Job.run_bind_ok hjobs, htasks, ok_bind]
  split_ifs
  · rfl
  · rw [Job.run_bind, b.run_mergeTopsJob]
    rfl

/-- The job of a chunk builds the chunk. -/
lemma run_chunkJob (σ : Schedules) (ord : IterOrder) (memoryBudget : ℕ)
    (chunkActualCounts : Option (List ℕ)) {files : ℕ → List RawPoint} (chunkMemBudget : ℕ)
    {chunkIdx : ℕ} (h : ∀ p ∈ files chunkIdx, b.keyOf p chunk.level = chunk.key) (store : Store) :
    (b.chunkJob σ ord memoryBudget chunkActualCounts files chunkMemBudget chunkIdx chunk).run
        store =
      b.buildChunkInMemory ord memoryBudget chunkActualCounts files chunkMemBudget chunkIdx chunk
        store := by
  unfold chunkJob buildChunkInMemory
  cases chunkActualCounts
  all_goals
    simp only
    split_ifs
    · exact b.run_subtreeJob σ ord chunk.key _ _ store
    · exact b.run_spilledJob σ ord memoryBudget chunkMemBudget h store

/-! ## Plans -/

variable {plan : ChunkPlan} {files : ℕ → List RawPoint}

/-- The files hold points of the voxels of their chunks. -/
def RespectsChunks (plan : ChunkPlan) (files : ℕ → List RawPoint) : Prop :=
  ∀ i c, plan.chunks[i]? = some c → ∀ p ∈ files i, b.keyOf p c.level = c.key

/-- Two chunks of a plan are built without interference, each along either path. -/
lemma chunkJobs_apart (hun : Unrelated (plan.chunks.map PlannedChunk.key))
    (hroute : b.RespectsChunks plan files) {i j : ℕ} (hij : i ≠ j) {c d : PlannedChunk}
    (hc : plan.chunks[i]? = some c) (hd : plan.chunks[j]? = some d) (σ σ' : Schedules)
    (ord ord' : IterOrder) (memoryBudget memoryBudget' : ℕ) (counts counts' : Option (List ℕ))
    (chunkMemBudget chunkMemBudget' : ℕ) :
    Job.Apart (b.chunkJob σ ord memoryBudget counts files chunkMemBudget i c)
      (b.chunkJob σ' ord' memoryBudget' counts' files chunkMemBudget' j d) := by
  refine Job.apart_of_confined (b.chunkJob_confined _ _ _ _ _ (hroute i c hc))
    (b.chunkJob_confined _ _ _ _ _ (hroute j d hd)) fun k => hun.disjoint hij ?_ ?_
  · rw [List.getElem?_map, hc]
    rfl
  · rw [List.getElem?_map, hd]
    rfl

/-- The chunks of a plan that are built side by side leave what they leave one after the other. -/
lemma run_buildChunkJobs (hun : Unrelated (plan.chunks.map PlannedChunk.key))
    (hroute : b.RespectsChunks plan files) (σ : Schedules) (ord ord' : IterOrder)
    (memoryBudget cores : ℕ) (counts : Option (List ℕ)) (schedule : List ℕ) (store : Store)
    (x : Store × List (List (VoxelKey × ℕ))) :
    (Job.interleave schedule (plan.chunks.mapIdx
        (b.buildChunkJob σ ord' memoryBudget cores counts files))).run store = .ok x ↔
      ord.runTasks (b.buildChunkTask ord' memoryBudget cores counts files) plan.chunks store =
        .ok x := by
  have hapart : (plan.chunks.mapIdx
      (b.buildChunkJob σ ord' memoryBudget cores counts files)).Pairwise Job.Apart :=
    Job.pairwise_mapIdx fun i j c d hij hc hd =>
      b.chunkJobs_apart hun hroute hij hc hd _ _ _ _ _ _ _ _ _ _
  have htasks : ord.runTasks (b.buildChunkTask ord' memoryBudget cores counts files) plan.chunks =
      ord.runTasks (fun i c st =>
        (b.buildChunkJob σ ord' memoryBudget cores counts files i c).run st) plan.chunks :=
    IterOrder.runTasks_congr fun t ht st =>
      (b.run_chunkJob _ _ _ _ _ (hroute t.2 t.1 (List.mem_zipIdx_iff_getElem?.mp ht)) st).symm
  rw [Job.run_interleave hapart, htasks, runTasks_iff hapart]

/-- **Interleaving does not change what is built**: whatever runs in parallel, an interleaved build
succeeds when the build does, with the same store and the same list. -/
theorem interleavedNodeMap_iff (hun : Unrelated (plan.chunks.map PlannedChunk.key))
    (hroute : b.RespectsChunks plan files) (σ : Schedules) (ord : IterOrder)
    (memoryBudget cores : ℕ) (counts : Option (List ℕ)) (x : Store × List (VoxelKey × ℕ)) :
    b.interleavedNodeMap σ ord memoryBudget cores (some plan) counts files = .ok x ↔
      b.buildNodeMap ord memoryBudget cores (some plan) counts files = .ok x := by
  have hchunks := b.run_buildChunkJobs hun hroute (σ.sub 1) (ord.sub 0) (ord.sub 1) memoryBudget
    cores counts (σ.sub 0).here fun _ => []
  unfold interleavedNodeMap buildNodeMap planJob
  simp only
  split_ifs
  · exact Iff.rfl
  · rw [Job.run_bind]
    cases hrun : (ord.sub 0).runTasks
        (b.buildChunkTask (ord.sub 1) memoryBudget cores counts files) plan.chunks fun _ => [] with
    | ok built =>
      rw [(hchunks built).mpr hrun, ok_bind]
      change ((Job.bind _ _).run built.1).map _ = _ ↔ _
      rw [Job.run_bind, b.run_mergeTopsJob]
      cases b.mergeChunkTops (ord.sub 2) memoryBudget built.1 (chunkRootKeys plan.chunks built.2) 0
        (buildConcurrencyAndBudget F memoryBudget cores).1
        (buildConcurrencyAndBudget F memoryBudget cores).2 <;> exact Iff.rfl
    | error e =>
      cases hjobs : (Job.interleave (σ.sub 0).here (plan.chunks.mapIdx (b.buildChunkJob (σ.sub 1)
          (ord.sub 1) memoryBudget cores counts files))).run fun _ => [] with
      | ok built =>
        rw [(hchunks built).mp hjobs] at hrun
        cases hrun
      | error e' =>
        constructor
        · intro hx
          cases hx
        · intro hx
          cases hx

/-! ## The parallel phases -/

/-- The states that the loop of a merge reaches, starting from some roots. -/
inductive MergeReached (b : OctreeBuilder F) (memoryBudget batchCap : ℕ)
    (rootKeys : List VoxelKey) (store : Store) : MergeState → Prop
  | start : MergeReached b memoryBudget batchCap rootKeys store ⟨store, keysByLevel rootKeys, []⟩
  | level {ord : IterOrder} {d : ℕ} {s s' : MergeState} :
      MergeReached b memoryBudget batchCap rootKeys store s →
        b.mergeLevel ord memoryBudget batchCap s d = .ok s' →
          MergeReached b memoryBudget batchCap rootKeys store s'

variable {b}

/-- The keys of a merge are kept by level throughout. -/
lemma MergeReached.levelled {memoryBudget batchCap : ℕ} {rootKeys : List VoxelKey} {store : Store}
    {s : MergeState} (h : MergeReached b memoryBudget batchCap rootKeys store s) :
    Levelled s.keysByLevel := by
  induction h with
  | start => exact levelled_keysByLevel rootKeys
  | @level ord d s s' _ hl ih =>
    have hgroups := mergeGroups_grouped ih ord d
    exact ((b.mergeLevel_ok hl).tracked (fun t ht => hgroups.level t.1 t.2 ht) ih).1

variable (b)

/-- The parallel phases of a build do not interfere: two chunk builds access no node in common, nor
do the tasks of two parents of one merge level.  Sub-octants, parents and chunks may be interleaved
in any way: the store is the one of the build that takes them one after the other. -/
structure NoInterference (plan : ChunkPlan) (files : ℕ → List RawPoint) : Prop where
  chunks : ∀ i j c d, i ≠ j → plan.chunks[i]? = some c → plan.chunks[j]? = some d →
    ∀ σ σ' ord ord' memoryBudget memoryBudget' counts counts' chunkMemBudget chunkMemBudget',
      Job.Apart (b.chunkJob σ ord memoryBudget counts files chunkMemBudget i c)
        (b.chunkJob σ' ord' memoryBudget' counts' files chunkMemBudget' j d)
  parents : ∀ memoryBudget batchCap rootKeys store s,
    MergeReached b memoryBudget batchCap rootKeys store s → ∀ ord d,
      (mergeGroups ord s d).Pairwise fun t u =>
        Job.Apart (b.mergeParentJob t) (b.mergeParentJob u)
  spilled : ∀ i c, plan.chunks[i]? = some c → ∀ σ ord memoryBudget chunkMemBudget store,
    (b.spilledJob σ ord memoryBudget c (files i) chunkMemBudget).run store =
      b.buildChunkSpilled ord memoryBudget store c (files i) chunkMemBudget
  levels : ∀ memoryBudget batchCap rootKeys store s,
    MergeReached b memoryBudget batchCap rootKeys store s → ∀ σ ord d,
      (b.mergeLevelJob σ ord memoryBudget batchCap (MergeKeys.of s) d).run s.store =
        (b.mergeLevel ord memoryBudget batchCap s d).map fun s => (s.store, MergeKeys.of s)
  builds : ∀ σ ord memoryBudget cores counts store nodes,
    b.interleavedNodeMap σ ord memoryBudget cores (some plan) counts files = .ok (store, nodes) ↔
      b.buildNodeMap ord memoryBudget cores (some plan) counts files = .ok (store, nodes)

variable {grid : ℕ → UInt32} {gridDepth chunkTarget : ℕ}

/-- The parallel phases of the build of a merged plan do not interfere. -/
theorem planOf_noInterference
    (hroute : b.RespectsChunks (planOf grid gridDepth chunkTarget) files) :
    b.NoInterference (planOf grid gridDepth chunkTarget) files where
  chunks _ _ _ _ hij hc hd := b.chunkJobs_apart planOf_unrelated hroute hij hc hd
  parents _ _ _ _ _ hs ord d :=
    (mergeGroups_grouped hs.levelled ord d).pairwise_apart.imp b.mergeParentJob_apart
  spilled i c hc σ ord memoryBudget chunkMemBudget store :=
    b.run_spilledJob σ ord memoryBudget chunkMemBudget (hroute i c hc) store
  levels memoryBudget batchCap _ _ _ hs σ ord d :=
    b.run_mergeLevelJob σ ord memoryBudget batchCap hs.levelled d
  builds σ ord memoryBudget cores counts store nodes :=
    b.interleavedNodeMap_iff planOf_unrelated hroute σ ord memoryBudget cores counts (store, nodes)

end OctreeBuilder

end CopcConverter
