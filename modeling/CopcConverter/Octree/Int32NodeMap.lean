import CopcConverter.Octree.BuildProgress
import CopcConverter.Octree.Int32Pile

/-!
# What holds of the build over 32-bit keys

Within one level of a merge two parents never share a node, whatever the coordinates are: a key has
one parent, and parents are one level above their children.  The rest of what holds of the build
over unbounded keys is carried over by the agreement of both builds, so it needs the leaves to fit:
the chunk builds do not interfere, and nothing is stored below a voxel with few points.

What runs in parallel is compared with the run that takes it one after the other.  The last part is
about failures: the only error of a build is a parent of a merge that exceeds the memory limit, and
since the points of a parent are some of the points of the input, a limit that all points stay
within is never exceeded.
-/

namespace CopcConverter

open LevelTree Interleave TaggedSplit

variable {F : Type} [FloatArith F]

namespace OctreeBuilder

variable (b : OctreeBuilder F)

/-! ## The parents of a merge level -/

variable {m : MergeKeys} {ord : IterOrder} {d : ℕ}

omit [FloatArith F] in
/-- The children in a group have its parent. -/
lemma mem_groupsAt32 {t : VoxelKey × List VoxelKey} (ht : t ∈ groupsAt32 ord m d) :
    (∀ c ∈ t.2, c ∈ m.keysByLevel.get (d + 1) ∧ c.parent32 = some t.1) ∧
      ∃ c ∈ m.keysByLevel.get (d + 1), c.parent32 = some t.1 := by
  obtain ⟨hmem, hget⟩ := BucketMap.mem_pairs.mp (IterOrder.mem_list.mp ht)
  refine ⟨fun c hc => ?_, ?_⟩
  · rw [← hget, groupByParent32, BucketMap.get_groupBy] at hc
    obtain ⟨hc, hp⟩ := List.mem_filter.mp hc
    exact ⟨IterOrder.mem_list.mp hc, of_decide_eq_true hp⟩
  · obtain ⟨c, hc, hp⟩ := BucketMap.mem_groupBy hmem
    exact ⟨c, IterOrder.mem_list.mp hc, hp⟩

omit [FloatArith F] in
lemma level_of_mem_groupsAt32 (h : Levelled m.keysByLevel) {t : VoxelKey × List VoxelKey}
    (ht : t ∈ groupsAt32 ord m d) : t.1.level = d := by
  obtain ⟨-, c, hc, hp⟩ := mem_groupsAt32 ht
  have h1 := h.level _ c hc
  have h2 := VoxelKey.level_of_parent32 hp
  omega

omit [FloatArith F] in
/-- Different groups of a level have no node in common. -/
lemma groupsAt32_apart (h : Levelled m.keysByLevel) (ord : IterOrder) (d : ℕ) :
    (groupsAt32 ord m d).Pairwise (Footprint.Apart Grouped.footprint) := by
  have hnodup : ((groupsAt32 ord m d).map Prod.fst).Nodup := by
    unfold groupsAt32
    rw [(((ord.sub 1).list_perm _).map Prod.fst).nodup_iff, BucketMap.map_fst_pairs]
    exact AList.keys_nodup _
  refine (List.pairwise_map.mp hnodup).imp_of_mem fun {t u} ht hu hne k hkt hku => ?_
  have hlt := level_of_mem_groupsAt32 h ht
  have hlu := level_of_mem_groupsAt32 h hu
  have hchild : ∀ {v : VoxelKey × List VoxelKey}, v ∈ groupsAt32 ord m d → k ∈ v.2 →
      k.level = d + 1 ∧ k.parent32 = some v.1 := fun {v} hv hk => by
    obtain ⟨hk, hp⟩ := (mem_groupsAt32 hv).1 k hk
    exact ⟨h.level _ k hk, hp⟩
  rcases hkt with rfl | hkt
  · rcases hku with he | hku
    · exact hne he
    · have := (hchild hu hku).1
      omega
  · obtain ⟨hl, hp⟩ := hchild ht hkt
    rcases hku with rfl | hku
    · omega
    · exact hne (Option.some.inj (hp.symm.trans (hchild hu hku).2))

/-- A parent's job accesses the parent and its children. -/
lemma mergeParentJob32_confined (t : VoxelKey × List VoxelKey) :
    (b.mergeParentJob32 t).Confined (Grouped.footprint t) fun _ => True := by
  refine (NodeJob.readEach_confined fun k hk => Or.inr hk).bind fun vals _ => ?_
  split_ifs
  · exact Job.Confined.pure trivial
  · refine (NodeJob.writeEach_confined fun e he => Or.inr (List.of_mem_zip he).1).bind
      fun _ _ => ?_
    split_ifs
    · exact Job.Confined.pure trivial
    · exact ⟨Or.inl rfl, Job.Confined.pure trivial⟩

/-- Parents with disjoint groups are merged without interference. -/
lemma mergeParentJob32_apart {t u : VoxelKey × List VoxelKey}
    (h : Footprint.Apart Grouped.footprint t u) :
    Job.Apart (b.mergeParentJob32 t) (b.mergeParentJob32 u) :=
  Job.apart_of_confined (b.mergeParentJob32_confined t) (b.mergeParentJob32_confined u) h

/-- The parents of a batch may be merged in any interleaving. -/
lemma run_mergeBatchJob32 (σ σ' : Schedules) (ord : IterOrder) (d : ℕ) (m : MergeKeys)
    {batch : List MergeTask} (h : ApartTasks batch) (store : Store) :
    (b.mergeBatchJob32 σ ord d m batch).run store =
      (b.mergeBatchJob32 σ' ord d m batch).run store := by
  have hapart : ((ord.list batch).map fun t =>
      b.mergeParentJob32 (t.parent, t.children)).Pairwise Job.Apart := by
    refine List.pairwise_map.mpr ((((ord.list_perm batch).pairwise_iff ?_).mpr h).imp
      b.mergeParentJob32_apart)
    exact fun htu k hu ht => htu k ht hu
  refine Job.run_bind_congr ?_ fun _ _ => rfl
  rw [Job.run_interleave hapart, Job.run_interleave hapart]

lemma run_mergeBatchesJob32 (σ σ' : Schedules) (ord : IterOrder) (d : ℕ)
    {bs : List (List MergeTask)} (h : ApartTasks bs.flatten) (m : MergeKeys) (store : Store) :
    (b.mergeBatchesJob32 σ ord d bs m).run store =
      (b.mergeBatchesJob32 σ' ord d bs m).run store := by
  induction bs generalizing m store with
  | nil => rfl
  | cons batch rest ih =>
    obtain ⟨hbatch, hrest, -⟩ := List.pairwise_append.mp h
    exact Job.run_bind_congr (b.run_mergeBatchJob32 _ _ _ d m hbatch store) fun x _ =>
      ih hrest x.2 x.1

/-- A level of a merge may be interleaved in any way. -/
lemma run_mergeLevelJob32 (σ σ' : Schedules) (ord : IterOrder) (memoryBudget batchCap : ℕ)
    (h : Levelled m.keysByLevel) (d : ℕ) (store : Store) :
    (b.mergeLevelJob32 σ ord memoryBudget batchCap m d).run store =
      (b.mergeLevelJob32 σ' ord memoryBudget batchCap m d).run store := by
  refine Job.run_bind_congr rfl fun x hx => ?_
  rw [b.run_estimateJobs] at hx
  obtain rfl := Except.ok.inj hx
  simp only
  set tasks := (groupsAt32 ord m d).map fun t => (⟨t.1, t.2, saturatingMul
    (t.2.map fun ck => (store ck).length).sum b.memPerPoint⟩ : MergeTask)
  cases tasks.find? fun t => decide (t.estMem > max memoryBudget mergeParentOomFloorBytes) with
  | some t => rfl
  | none =>
    refine b.run_mergeBatchesJob32 σ σ' (ord.sub 2) d ?_ m store
    rw [flatten_batches batchCap le_rfl]
    have hpairs : ApartTasks tasks := List.pairwise_map.mpr (groupsAt32_apart h ord d)
    refine ((List.mergeSort_perm tasks _).pairwise_iff fun {t u} htu => ?_).mpr hpairs
    exact fun k hu ht => htu k ht hu

/-! ## The states of a merge -/

/-- The states that the loop of a merge reaches, starting from some roots over some store. -/
inductive MergeReached32 (b : OctreeBuilder F) (memoryBudget batchCap : ℕ)
    (rootKeys : List VoxelKey) : Store → MergeKeys → Prop
  | start (store : Store) :
      MergeReached32 b memoryBudget batchCap rootKeys store ⟨keysByLevel rootKeys, []⟩
  | level {σ : Schedules} {ord : IterOrder} {d : ℕ} {store store' : Store} {m m' : MergeKeys} :
      MergeReached32 b memoryBudget batchCap rootKeys store m →
        (b.mergeLevelJob32 σ ord memoryBudget batchCap m d).run store = .ok (store', m') →
          MergeReached32 b memoryBudget batchCap rootKeys store' m'

lemma mergeBatchesJob32_levelled (σ : Schedules) (ord : IterOrder) (h : Levelled m.keysByLevel)
    {bs : List (List MergeTask)} (hlevel : ∀ t ∈ bs.flatten, t.parent.level = d) :
    (b.mergeBatchesJob32 σ ord d bs m).Confined (fun _ => True)
      fun m => Levelled m.keysByLevel := by
  induction bs generalizing m with
  | nil => exact Job.Confined.pure h
  | cons batch rest ih =>
    have hbatch : (b.mergeBatchJob32 (σ.sub rest.length) (ord.sub rest.length) d m batch).Confined
        (fun _ => True) fun m => Levelled m.keysByLevel := by
      refine (Job.Confined.interleave (Q := fun _ => True) (fun t ht => ?_) _).bind fun _ _ =>
        Job.Confined.pure ?_
      · obtain ⟨u, -, rfl⟩ := List.mem_map.mp ht
        exact (b.mergeParentJob32_confined _).mono (fun _ _ => trivial) fun _ _ => trivial
      · have hown : batch.foldl (fun m t => insertKey m d t.parent) m.keysByLevel =
            batch.foldl (fun m t => insertKey m t.parent.level t.parent) m.keysByLevel :=
          List.foldl_ext _ _ _ fun m t ht => by rw [hlevel t (List.mem_append_left _ ht)]
        change Levelled (batch.foldl (fun m t => insertKey m d t.parent) m.keysByLevel)
        rw [hown, ← List.foldl_map (f := MergeTask.parent)
          (g := fun (m : BucketMap ℕ VoxelKey) k => insertKey m k.level k)]
        exact h.foldl _
    exact hbatch.bind fun m hm => ih hm fun t ht => hlevel t (List.mem_append_right _ ht)

/-- The keys of a merge are kept by level throughout. -/
lemma MergeReached32.levelled {memoryBudget batchCap : ℕ} {rootKeys : List VoxelKey}
    {store : Store} (h : MergeReached32 b memoryBudget batchCap rootKeys store m) :
    Levelled m.keysByLevel := by
  induction h with
  | start => exact levelled_keysByLevel rootKeys
  | @level σ ord d store store' m m' _ hrun ih =>
    refine @Job.Confined.of_run _ _ _ _ _ (fun _ => True) (fun m => Levelled m.keysByLevel) _ ?_
      _ _ hrun
    have htasks : (Job.sequence ((groupsAt32 ord m d).map b.estimateJob)).Confined
        (fun _ => True) fun tasks => ∀ t ∈ tasks, (MergeTask.parent t).level = d := by
      refine Job.Confined.sequence fun t ht => ?_
      obtain ⟨u, hu, rfl⟩ := List.mem_map.mp ht
      exact (NodeJob.readEach_confined fun _ _ => trivial).bind fun _ _ =>
        Job.Confined.pure (level_of_mem_groupsAt32 ih hu)
    refine htasks.bind fun tasks hlevel => ?_
    simp only
    split
    · exact fun x hx => nomatch hx
    · refine b.mergeBatchesJob32_levelled σ (ord.sub 2) ih fun t ht => hlevel t ?_
      rw [flatten_batches batchCap le_rfl] at ht
      exact (List.mergeSort_perm tasks _).mem_iff.mp ht

/-! ## The build of a plan -/

variable {grid : ℕ → UInt32} {gridDepth chunkTarget memoryBudget cores : ℕ}
  {chunkActualCounts : Option (List ℕ)} {files : ℕ → List RawPoint}

/-- The parallel phases of a build do not interfere: two chunk builds access no node in common, nor
do the tasks of two parents of one merge level.  Sub-octants, parents and chunks may be interleaved
in any way: the store is the one of the build that takes them one after the other. -/
structure NoInterference32 (b : OctreeBuilder F) (memoryBudget cores : ℕ)
    (chunkActualCounts : Option (List ℕ)) (plan : ChunkPlan) (files : ℕ → List RawPoint) :
    Prop where
  chunks : ∀ i j c d, i ≠ j → plan.chunks[i]? = some c → plan.chunks[j]? = some d →
    ∀ σ σ' ord ord',
      Job.Apart (b.buildChunkJob32 σ ord memoryBudget cores chunkActualCounts files i c)
        (b.buildChunkJob32 σ' ord' memoryBudget cores chunkActualCounts files j d)
  parents : ∀ limit batchCap rootKeys store m,
    MergeReached32 b limit batchCap rootKeys store m → ∀ ord d,
      (groupsAt32 ord m d).Pairwise fun t u =>
        Job.Apart (b.mergeParentJob32 t) (b.mergeParentJob32 u)
  spilled : ∀ i c, plan.chunks[i]? = some c → ∀ σ ord store,
    (b.buildChunkJob32 σ ord memoryBudget cores chunkActualCounts files i c).run store =
      (b.buildChunkJob32 .sequential ord memoryBudget cores chunkActualCounts files i c).run store
  levels : ∀ limit batchCap rootKeys store m,
    MergeReached32 b limit batchCap rootKeys store m → ∀ σ ord d,
      (b.mergeLevelJob32 σ ord limit batchCap m d).run store =
        (b.mergeLevelJob32 .sequential ord limit batchCap m d).run store
  builds : ∀ σ ord store nodes,
    b.interleavedNodeMap32 σ ord memoryBudget cores (some plan) chunkActualCounts files =
        .ok (store, nodes) ↔
      b.interleavedNodeMap32 .sequential ord memoryBudget cores (some plan) chunkActualCounts
        files = .ok (store, nodes)

/-- **Where the leaves fit, nothing that runs in parallel interferes** in the build of a merged
plan. -/
theorem planOf_noInterference32 (hgrid : gridDepth ≤ 9)
    (hroute : b.RespectsChunks (planOf grid gridDepth chunkTarget) files)
    (hfits : b.LeavesInRange memoryBudget cores (planOf grid gridDepth chunkTarget)
      chunkActualCounts files) :
    b.NoInterference32 memoryBudget cores chunkActualCounts (planOf grid gridDepth chunkTarget)
      files := by
  have hplan := hfits.planFits hgrid
  have hfree := b.planOf_noInterference hroute
  have hchunk : ∀ i c, (planOf grid gridDepth chunkTarget).chunks[i]? = some c → ∀ σ ord,
      b.buildChunkJob32 σ ord memoryBudget cores chunkActualCounts files i c =
        b.buildChunkJob σ ord memoryBudget cores chunkActualCounts files i c :=
    fun i c hi σ ord => (hplan i c hi).chunkJob32_eq _ _ _
  refine ⟨fun i j c d hij hi hj σ σ' ord ord' => ?_, fun _ _ _ _ _ hm ord d => ?_,
    fun i c hi σ ord store => ?_, fun _ _ _ _ _ hm σ ord d => ?_, fun σ ord store nodes => ?_⟩
  · rw [hchunk i c hi, hchunk j d hj]
    exact hfree.chunks i j c d hij hi hj _ _ _ _ _ _ _ _ _ _
  · exact (groupsAt32_apart (hm.levelled b) ord d).imp b.mergeParentJob32_apart
  · rw [hchunk i c hi, hchunk i c hi]
    exact (b.run_chunkJob _ _ _ _ _ (hroute i c hi) store).trans
      (b.run_chunkJob _ _ _ _ _ (hroute i c hi) store).symm
  · exact b.run_mergeLevelJob32 σ .sequential ord _ _ (hm.levelled b) d _
  · rw [interleavedNodeMap32_eq hgrid hfits, interleavedNodeMap32_eq hgrid hfits,
      hfree.builds σ, hfree.builds .sequential]

end OctreeBuilder

/-- Piles at two places in the lower half of the cube. -/
def lowerPiles : List RawPoint :=
  pilePoints (pointAt (-8) (-8) (-8)) ++ pilePoints (pointAt (-1) (-1) (-1))

/-- Six hundred million points at each of two places in the lower half of the cube are built without
interference: their leaves are at level 32, but fit. -/
theorem planOf_noInterference32_piles : ∃ files,
    Distributed unitBuilder (finePlan lowerPiles).chunks
      files ↑(lowerPiles) ∧
    unitBuilder.NoInterference32 (2 ^ 34) 1 none
      (finePlan lowerPiles) files := by
  obtain ⟨files, i, j, c, d, h⟩ := exists_twoPiles (p := pointAt (-8) (-8) (-8))
    (q := pointAt (-1) (-1) (-1)) (by decide +kernel) (by decide +kernel)
  refine ⟨files, h.distributed, OctreeBuilder.planOf_noInterference32 unitBuilder (by norm_num)
    h.distributed.routed (h.leavesInRange ?_ ?_)⟩
  · exact ⟨⟨by decide +kernel, by decide +kernel, by decide +kernel⟩, by decide +kernel,
      by decide +kernel, by decide +kernel⟩
  · exact ⟨⟨by decide +kernel, by decide +kernel, by decide +kernel⟩, by decide +kernel,
      by decide +kernel, by decide +kernel⟩

/-- Piles at the lower and at the upper corner of the cube. -/
def cornerPiles : List RawPoint :=
  pilePoints (pointAt (-8) (-8) (-8)) ++ pilePoints (pointAt 8 8 8)

/-- With the second place at the upper corner, its chunk writes the key of the chunk at the lower
corner. -/
theorem planOf_interference32 : ∃ files,
    Distributed unitBuilder (finePlan cornerPiles).chunks
      files ↑(cornerPiles) ∧
    unitBuilder.RespectsChunks (finePlan cornerPiles) files ∧
    (∃ i j c d, i ≠ j ∧
      (finePlan cornerPiles).chunks[i]? = some c ∧
      (finePlan cornerPiles).chunks[j]? = some d ∧
      (unitBuilder.buildChunkJob32 .sequential .listed (2 ^ 34) 1 none files i c).Touches c.key ∧
      (unitBuilder.buildChunkJob32 .sequential .listed (2 ^ 34) 1 none files j d).Touches c.key) ∧
    ¬ unitBuilder.NoInterference32 (2 ^ 34) 1 none
      (finePlan cornerPiles) files := by
  obtain ⟨files, i, j, c, d, h⟩ := exists_twoPiles (p := pointAt (-8) (-8) (-8))
    (q := pointAt 8 8 8) (by decide +kernel) (by decide +kernel)
  have hkey : c.key = ⟨15, 0, 0, 0⟩ := h.left.key.trans (by decide +kernel)
  have hti := h.left.touches (k := c.key) (hkey.symm ▸ by decide +kernel)
  have htj := h.right.touches (k := c.key) (hkey.symm ▸ by decide +kernel)
  exact ⟨files, h.distributed, h.distributed.routed,
    ⟨i, j, c, d, h.ne, h.left.planned, h.right.planned, hti, htj⟩,
    fun hfree => hfree.chunks i j c d h.ne h.left.planned h.right.planned _ _ _ _ _ hti htj⟩

/-! ## Depth and density -/

namespace OctreeBuilder

variable {b : OctreeBuilder F} {ord : IterOrder} {gridDepth chunkTarget memoryBudget cores : ℕ}
  {grid : ℕ → UInt32} {chunkActualCounts : Option (List ℕ)} {files : ℕ → List RawPoint}

variable {pts : Multiset RawPoint} {σ : Schedules} {store : Store}
  {nodes : List (VoxelKey × ℕ)}

/-- **Where the leaves fit, nothing is stored below a voxel that contains at most `maxLeafPoints`
points**, whatever runs in parallel. -/
theorem interleavedNodeMap32_compact (hgrid : gridDepth ≤ 9)
    (hd : Distributed b (planOf grid gridDepth chunkTarget).chunks files pts)
    (hfits : b.LeavesInRange memoryBudget cores (planOf grid gridDepth chunkTarget)
      chunkActualCounts files)
    (hok : b.interleavedNodeMap32 σ ord memoryBudget cores
      (some (planOf grid gridDepth chunkTarget)) chunkActualCounts files = .ok (store, nodes))
    (v : VoxelKey) (hv : pts.countP (fun p => b.keyOf32 p v.level = v) ≤ maxLeafPoints)
    (k : VoxelKey) (hk : IsProperAncestor32 v k) : store k = [] := by
  by_contra hne
  have hsmall := small_of_interleavedNodeMap32 hgrid hfits hok hne
  have hvk := hsmall.isProperAncestor32_iff.mp hk
  have hvsmall : v.Small := by
    rw [← hvk.2]
    exact (hsmall.iterate_up32_eq _).2
  have hcount : pts.countP (fun p => b.keyOf p v.level = v) ≤
      pts.countP fun p => b.keyOf32 p v.level = v := by
    rw [Multiset.countP_eq_card_filter, Multiset.countP_eq_card_filter]
    refine Multiset.card_le_card (Multiset.monotone_filter_right pts fun p hp => ?_)
    exact (b.keyOf32_of_small (hp.symm ▸ hvsmall)).trans hp
  have hbuild := (interleavedNodeMap32_iff hgrid hd.routed hfits σ ord (store, nodes)).mp hok
  exact hne (buildNodeMap_compact hd hbuild v (hcount.trans hv) k hvk)

end OctreeBuilder

/-- The leaf of a pile in the lower half of the cube holds points at level 32, and nothing is stored
in the upper half, which is empty. -/
theorem interleavedNodeMap32_compact_pile : ∃ files store nodes,
    Distributed unitBuilder (finePlan (pilePoints (pointAt (-1) (-1) (-1)))).chunks files
      ↑(pilePoints (pointAt (-1) (-1) (-1))) ∧
    unitBuilder.interleavedNodeMap32 .sequential .listed (2 ^ 34) 1
      (some (finePlan (pilePoints (pointAt (-1) (-1) (-1))))) none files = .ok (store, nodes) ∧
    store ⟨32, 1879048192, 1879048192, 1879048192⟩ ≠ [] ∧
    ∀ k, IsProperAncestor32 ⟨1, 1, 1, 1⟩ k → store k = [] := by
  obtain ⟨files, store, nodes, hd, hrun, hleaf, hfits⟩ := exists_pile_run (pointAt (-1) (-1) (-1))
  have hkey : unitBuilder.keyOf32 (pointAt (-1) (-1) (-1)) 32 =
      ⟨32, 1879048192, 1879048192, 1879048192⟩ := by decide +kernel
  have hsmall : (unitBuilder.keyOf (pointAt (-1) (-1) (-1)) 32).Small :=
    ⟨⟨by decide +kernel, by decide +kernel, by decide +kernel⟩, by decide +kernel,
      by decide +kernel, by decide +kernel⟩
  refine ⟨files, store, nodes, hd, hrun, hkey ▸ hleaf, fun k hk => ?_⟩
  refine OctreeBuilder.interleavedNodeMap32_compact (by norm_num) hd (hfits hsmall) hrun
    ⟨1, 1, 1, 1⟩ ?_ k hk
  rw [Multiset.coe_countP, pilePoints, List.countP_replicate, if_neg]
  · exact Nat.zero_le _
  · rw [decide_eq_true_eq]
    decide +kernel

/-- The leaf of a pile in the upper half of the cube is kept below a voxel at the lower corner that
has none of the points. -/
theorem interleavedNodeMap32_buried : ∃ files store nodes,
    Distributed unitBuilder (finePlan (pilePoints (pointAt 1 1 1))).chunks files
      ↑(pilePoints (pointAt 1 1 1)) ∧
    unitBuilder.interleavedNodeMap32 .sequential .listed (2 ^ 34) 1
      (some (finePlan (pilePoints (pointAt 1 1 1)))) none files = .ok (store, nodes) ∧
    ∃ v k, v.InOctree ∧
      (pilePoints (pointAt 1 1 1)).countP (fun p => unitBuilder.keyOf32 p v.level = v) = 0 ∧
      IsProperAncestor32 v k ∧ store k ≠ [] := by
  obtain ⟨files, store, nodes, hd, hrun, hleaf, -⟩ := exists_pile_run (pointAt 1 1 1)
  refine ⟨files, store, nodes, hd, hrun, ⟨1, 0, 0, 0⟩, unitBuilder.keyOf32 (pointAt 1 1 1) 32,
    ⟨by decide, by decide, by decide⟩, ?_, ⟨by decide, by decide +kernel⟩, hleaf⟩
  rw [pilePoints, List.countP_replicate, if_neg]
  rw [decide_eq_true_eq]
  decide +kernel

/-! ## Progress -/

/-- The error of a rejected parent: its children are estimated above the limit. -/
def RejectsParent (memoryBudget : ℕ) (e : BuildError) : Prop :=
  ∃ parent children estMem, mergeLimit memoryBudget < estMem ∧
    e = .mergeTooLarge parent children (estMem / 1048576) (mergeLimit memoryBudget / 1048576)

lemma NodeJob.readEach_failsOnly {E : BuildError → Prop} (keys : List VoxelKey) :
    (NodeJob.readEach keys).FailsOnly E := by
  refine Job.FailsOnly.sequence fun t ht => ?_
  obtain ⟨k, -, rfl⟩ := List.mem_map.mp ht
  exact fun v => Job.FailsOnly.pure v

lemma NodeJob.writeEach_failsOnly {E : BuildError → Prop} (es : List (VoxelKey × List RawPoint)) :
    (NodeJob.writeEach es).FailsOnly E := by
  induction es with
  | nil => exact Job.FailsOnly.pure ()
  | cons e es ih => exact ih

namespace OctreeBuilder

variable (b : OctreeBuilder F) {memoryBudget : ℕ}

lemma subtreeJob32_failsOnly {E : BuildError → Prop} (σ : Schedules) (ord : IterOrder)
    (root : VoxelKey) (points : List RawPoint) (estPoints : ℕ) :
    (b.subtreeJob32 σ ord root points estPoints).FailsOnly E := by
  unfold subtreeJob32 bottomUpJob32
  simp only
  split_ifs
  · exact Job.FailsOnly.pure _
  · refine (Job.FailsOnly.interleave (fun t ht => ?_) _).bind fun _ => Job.FailsOnly.pure _
    obtain ⟨k, -, rfl⟩ := List.mem_map.mp ht
    exact Job.FailsOnly.write (Job.FailsOnly.pure ())

lemma mergeParentJob32_failsOnly {E : BuildError → Prop} (t : VoxelKey × List VoxelKey) :
    (b.mergeParentJob32 t).FailsOnly E := by
  refine (NodeJob.readEach_failsOnly t.2).bind fun vals => ?_
  split_ifs
  · exact Job.FailsOnly.pure ()
  · refine (NodeJob.writeEach_failsOnly _).bind fun _ => ?_
    split_ifs
    · exact Job.FailsOnly.pure ()
    · exact Job.FailsOnly.write (Job.FailsOnly.pure ())

lemma mergeBatchesJob32_failsOnly {E : BuildError → Prop} (σ : Schedules) (ord : IterOrder)
    (d : ℕ) (bs : List (List MergeTask)) (m : MergeKeys) :
    (b.mergeBatchesJob32 σ ord d bs m).FailsOnly E := by
  induction bs generalizing m with
  | nil => exact Job.FailsOnly.pure m
  | cons batch rest ih =>
    refine Job.FailsOnly.bind ?_ ih
    refine (Job.FailsOnly.interleave (fun t ht => ?_) _).bind fun _ => Job.FailsOnly.pure _
    obtain ⟨u, -, rfl⟩ := List.mem_map.mp ht
    exact b.mergeParentJob32_failsOnly _

/-- A level of a merge fails only when it rejects a parent. -/
lemma mergeLevelJob32_failsOnly (σ : Schedules) (ord : IterOrder) (batchCap : ℕ) (m : MergeKeys)
    (d : ℕ) : (b.mergeLevelJob32 σ ord memoryBudget batchCap m d).FailsOnly
      (RejectsParent memoryBudget) := by
  refine (Job.FailsOnly.sequence fun t ht => ?_).bind fun tasks => ?_
  · obtain ⟨u, -, rfl⟩ := List.mem_map.mp ht
    exact (NodeJob.readEach_failsOnly _).bind fun _ => Job.FailsOnly.pure _
  · simp only
    split
    case h_1 t ht =>
      intro e he
      have hover := List.find?_some ht
      exact ⟨t.parent, t.children.length, t.estMem, of_decide_eq_true hover,
        (Except.error.inj he).symm⟩
    case h_2 => exact b.mergeBatchesJob32_failsOnly _ _ _ _ _

/-- A merge of roots fails only when it rejects a parent. -/
lemma mergeTopsJob32_failsOnly (σ : Schedules) (ord : IterOrder) (rootKeys : List VoxelKey)
    (stop conc perParent : ℕ) :
    (b.mergeTopsJob32 σ ord memoryBudget rootKeys stop conc perParent).FailsOnly
      (RejectsParent memoryBudget) := by
  have hloop : ∀ (n : ℕ) (m : MergeKeys), (b.mergeLoopJob32 σ ord memoryBudget
      (saturatingMul conc perParent) stop n m).FailsOnly (RejectsParent memoryBudget) := by
    intro n
    induction n with
    | zero => exact fun m => Job.FailsOnly.pure m
    | succ n ih => exact fun m => (b.mergeLevelJob32_failsOnly _ _ _ m _).bind ih
  unfold mergeTopsJob32
  simp only
  split_ifs
  · exact Job.FailsOnly.pure _
  · exact (hloop _ _).bind fun m => Job.FailsOnly.pure _

/-- A chunk build fails only when its merge rejects a parent. -/
lemma chunkJob32_failsOnly (σ : Schedules) (ord : IterOrder) (chunkActualCounts : Option (List ℕ))
    (files : ℕ → List RawPoint) (chunkMemBudget chunkIdx : ℕ) (chunk : PlannedChunk) :
    (b.chunkJob32 σ ord memoryBudget chunkActualCounts files chunkMemBudget chunkIdx
      chunk).FailsOnly (RejectsParent memoryBudget) := by
  unfold chunkJob32 spilledJob32
  simp only
  split_ifs
  · exact b.subtreeJob32_failsOnly _ _ _ _ _
  · refine (Job.FailsOnly.interleave (fun t ht => ?_) _).bind fun built => ?_
    · obtain ⟨i, hi, rfl⟩ := List.mem_mapIdx.mp ht
      exact b.subtreeJob32_failsOnly _ _ _ _ _
    · split_ifs
      · exact Job.FailsOnly.pure _
      · exact (b.mergeTopsJob32_failsOnly _ _ _ _ _ _).bind fun _ => Job.FailsOnly.pure _

/-- A build fails only when it rejects a parent, whatever the keys are and whatever runs in
parallel. -/
lemma interleavedNodeMap32_error {σ : Schedules} {ord : IterOrder} {cores : ℕ} {plan : ChunkPlan}
    {chunkActualCounts : Option (List ℕ)} {files : ℕ → List RawPoint} {e : BuildError}
    (h : b.interleavedNodeMap32 σ ord memoryBudget cores (some plan) chunkActualCounts files =
      .error e) : RejectsParent memoryBudget e := by
  have hjob : (b.planJob32 σ ord memoryBudget cores plan chunkActualCounts files).FailsOnly
      (RejectsParent memoryBudget) := by
    refine (Job.FailsOnly.interleave (fun t ht => ?_) _).bind fun built => ?_
    · obtain ⟨i, hi, rfl⟩ := List.mem_mapIdx.mp ht
      exact b.chunkJob32_failsOnly _ _ _ _ _ _ _
    · exact (b.mergeTopsJob32_failsOnly _ _ _ _ _ _).bind fun _ => Job.FailsOnly.pure _
  unfold interleavedNodeMap32 at h
  simp only at h
  split_ifs at h
  cases hrun : (b.planJob32 σ ord memoryBudget cores plan chunkActualCounts files).run
      fun _ => [] with
  | ok r =>
    rw [hrun] at h
    cases h
  | error e' =>
    rw [hrun] at h
    obtain rfl := Except.error.inj h
    exact hjob.of_run hrun

variable {b}

/-- **When the build succeeds**, where the leaves fit: whatever runs in parallel, the build of an
input within the limit of a merge succeeds, and a build fails only by rejecting a parent whose
children are above the limit. -/
theorem interleavedNodeMap32_succeeds {grid : ℕ → UInt32} {gridDepth chunkTarget cores : ℕ}
    {chunkActualCounts : Option (List ℕ)} {files : ℕ → List RawPoint} {pts : Multiset RawPoint}
    (hgrid : gridDepth ≤ 9)
    (hd : Distributed b (planOf grid gridDepth chunkTarget).chunks files pts)
    (hfits : b.LeavesInRange memoryBudget cores (planOf grid gridDepth chunkTarget)
      chunkActualCounts files) (σ : Schedules) (ord : IterOrder) :
    (pts.card * b.memPerPoint ≤ mergeLimit memoryBudget → ∃ store nodes,
      b.interleavedNodeMap32 σ ord memoryBudget cores (some (planOf grid gridDepth chunkTarget))
        chunkActualCounts files = .ok (store, nodes)) ∧
    ∀ e, b.interleavedNodeMap32 σ ord memoryBudget cores
        (some (planOf grid gridDepth chunkTarget)) chunkActualCounts files = .error e →
      RejectsParent memoryBudget e ∧ mergeLimit memoryBudget < pts.card * b.memPerPoint := by
  have hwithin : pts.card * b.memPerPoint ≤ mergeLimit memoryBudget → ∃ store nodes,
      b.interleavedNodeMap32 σ ord memoryBudget cores (some (planOf grid gridDepth chunkTarget))
        chunkActualCounts files = .ok (store, nodes) := fun hlimit => by
    obtain ⟨store, nodes, hok, -⟩ := exists_buildNodeMap hd hlimit ord cores chunkActualCounts
    exact ⟨store, nodes,
      (interleavedNodeMap32_iff hgrid hd.routed hfits σ ord (store, nodes)).mpr hok⟩
  refine ⟨hwithin, fun e he => ⟨b.interleavedNodeMap32_error he, Nat.not_le.mp fun hlimit => ?_⟩⟩
  obtain ⟨store, nodes, hok⟩ := hwithin hlimit
  rw [hok] at he
  cases he

end OctreeBuilder

/-- With half of the memory the chunk of the two piles is spilled, and its build succeeds. -/
theorem interleavedNodeMap32_succeeds_spilled :
    (buildConcurrencyAndBudget ℚ (2 ^ 27) 1).2 <
        saturatingMul (actualPoints none sampledFiles 0) perChunkBytesPerPointBuild ∧
      ∃ store nodes, unitBuilder.interleavedNodeMap32 .sequential .listed (2 ^ 27) 1
        (some (planOf sampledGrid 1 1000000)) none sampledFiles = .ok (store, nodes) := by
  have hbudget : buildConcurrencyAndBudget ℚ (2 ^ 27) 1 = (1, 60000000) := by decide +kernel
  refine ⟨?_, (OctreeBuilder.interleavedNodeMap32_succeeds (by norm_num) distributed_sampled
    (leavesInRange_sampled _) .sequential .listed).1 ?_⟩
  · change _ < saturatingMul (sampledFiles 0).length _
    rw [hbudget, length_sampledFiles]
    decide
  · rw [Multiset.coe_card, length_sampledFiles]
    exact le_trans (by decide) (le_max_right _ _)

end CopcConverter
