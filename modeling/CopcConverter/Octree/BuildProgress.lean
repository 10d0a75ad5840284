import CopcConverter.Foundations.Capacity
import CopcConverter.Octree.NodeMap

/-!
# When the build succeeds

The build of the node map fails in one place: a parent of a merge is rejected when the nodes of its
children hold too many points.  The node store never holds more points than the chunk files that
have been built (`AtMost`): a subtree holds what its file holds, and a merge moves points from
children to their parents, so that what was estimated for a parent is at most what all chunks of the
plan have between them.  Hence the build of an input that is no larger than the limit of a merge
succeeds, whatever the order of the chunks and of the parents, and leaves no more points than it was
given.
-/

namespace CopcConverter

open Capacity LevelTree

variable {F : Type} [FloatArith F]

/-- The numbers of points of the nodes. -/
def nodeSizes (store : Store) (k : VoxelKey) : ℕ := (store k).length

/-- What a merge parent may need: it is rejected above this. -/
def mergeLimit (memoryBudget : ℕ) : ℕ := max memoryBudget mergeParentOomFloorBytes

namespace OctreeBuilder

variable {b : OctreeBuilder F} {store : Store} {n memoryBudget : ℕ}

/-! ## Merging -/

/-- Merging a parent moves points up from its children; what the parent held may get lost. -/
lemma atMost_mergeParent (h : AtMost (nodeSizes store) n) {q : VoxelKey} {L : List VoxelKey}
    (hnodup : L.Nodup) (hq : q ∉ L) : AtMost (nodeSizes (b.mergeParent store (q, L))) n := by
  have hs := b.mergeParent_group hnodup hq store
  set store' := b.mergeParent store (q, L) with hstore
  refine h.regroup (insert q L.toFinset) (fun k hk => ?_) ?_
  · rw [Finset.mem_insert, List.mem_toFinset] at hk
    exact congrArg List.length (b.mergeParent_local.frame store (q, L) k hk)
  · have htotal := congrArg Multiset.cardHom hs.sampled.total
    rw [map_add, map_list_sum, List.map_map, List.map_map] at htotal
    have hgroup : (b.promoted store q L).length + (L.map fun k => nodeSizes store' k).sum =
        (L.map fun k => nodeSizes store k).sum := by
      refine htotal.trans ((Multiset.coe_card _).trans ?_)
      rw [List.length_flatten, List.map_map]
      rfl
    have hparent : nodeSizes store' q ≤ nodeSizes store q + (b.promoted store q L).length := by
      rw [nodeSizes, hs.parent, nodeSizes]
      split_ifs
      · exact Nat.le_add_right _ _
      · exact Nat.le_add_left _ _
    have hq' : q ∉ L.toFinset := by rwa [List.mem_toFinset]
    rw [Finset.sum_insert hq', Finset.sum_insert hq', List.sum_toFinset _ hnodup,
      List.sum_toFinset _ hnodup]
    omega

/-- Merging the parents of a level. -/
lemma atMost_foldl_mergeParent {P : List (VoxelKey × List VoxelKey)}
    (hP : ∀ q L, (q, L) ∈ P → L.Nodup ∧ q ∉ L) (h : AtMost (nodeSizes store) n) :
    AtMost (nodeSizes (P.foldl b.mergeParent store)) n := by
  induction P generalizing store with
  | nil => exact h
  | cons t P ih =>
    obtain ⟨hnodup, hq⟩ := hP t.1 t.2 List.mem_cons_self
    exact ih (fun q L hL => hP q L (List.mem_cons_of_mem _ hL)) (atMost_mergeParent h hnodup hq)

/-- No parent of a level is rejected when all points together are within the limit. -/
lemma mergeLevel_succeeds {s : MergeState} (h : AtMost (nodeSizes s.store) n)
    (hlevelled : Levelled s.keysByLevel) (hlimit : n * b.memPerPoint ≤ mergeLimit memoryBudget)
    (ord : IterOrder) (batchCap d : ℕ) :
    ∃ s', b.mergeLevel ord memoryBudget batchCap s d = .ok s' ∧ AtMost (nodeSizes s'.store) n ∧
      Levelled s'.keysByLevel := by
  have hg := mergeGroups_grouped hlevelled ord d
  have hP : ∀ q L, (q, L) ∈ mergeGroups ord s d → L.Nodup ∧ q ∉ L := by
    intro q L hL
    obtain ⟨hnodup, hchild⟩ := hg.children q L hL
    refine ⟨hnodup, fun hmem => ?_⟩
    have := VoxelKey.level_of_isChild ((hchild q).mp hmem).1
    omega
  obtain ⟨s', hs'⟩ : ∃ s', b.mergeLevel ord memoryBudget batchCap s d = .ok s' := by
    unfold mergeLevel
    simp only
    split
    case h_2 => exact ⟨_, rfl⟩
    case h_1 t ht =>
      obtain ⟨hover, hmem⟩ : _ ∧ _ := ⟨List.find?_some ht, List.mem_of_find?_eq_some ht⟩
      obtain ⟨⟨q, L⟩, hL, rfl⟩ := List.mem_map.mp hmem
      have hsum : (L.map (nodeSizes s.store)).sum ≤ n := h.sum_le (hP q L hL).1
      have hest : saturatingMul (L.map fun ck => (s.store ck).length).sum b.memPerPoint ≤
          max memoryBudget mergeParentOomFloorBytes :=
        (min_le_left _ _).trans ((Nat.mul_le_mul_right _ hsum).trans hlimit)
      exact absurd (of_decide_eq_true hover) (Nat.not_lt.mpr hest)
  have hmerged := b.mergeLevel_ok hs'
  obtain ⟨Q, hQ, hstore⟩ := hmerged.store
  refine ⟨s', hs', ?_, (hmerged.tracked (fun t ht => hg.level t.1 t.2 ht) hlevelled).1⟩
  rw [hstore]
  exact atMost_foldl_mergeParent (fun q L hL => hP q L (hQ.mem_iff.mp hL)) h

/-- The loop over the levels gets to its end. -/
lemma mergeLoop_succeeds {s : MergeState} (h : AtMost (nodeSizes s.store) n)
    (hlevelled : Levelled s.keysByLevel) (hlimit : n * b.memPerPoint ≤ mergeLimit memoryBudget)
    (ord : IterOrder) (batchCap stop levels : ℕ) :
    ∃ s', b.mergeLoop ord memoryBudget batchCap stop levels s = .ok s' ∧
      AtMost (nodeSizes s'.store) n := by
  induction levels generalizing s with
  | zero => exact ⟨s, rfl, h⟩
  | succ levels ih =>
    obtain ⟨s₁, hs₁, h₁, hlevelled₁⟩ :=
      mergeLevel_succeeds h hlevelled hlimit (ord.sub (stop + levels)) batchCap (stop + levels)
    obtain ⟨s', hs', h'⟩ := ih h₁ hlevelled₁
    refine ⟨s', ?_, h'⟩
    rw [mergeLoop, hs₁]
    exact hs'

/-- A merge of roots succeeds when all points together are within the limit. -/
lemma mergeChunkTops_succeeds (h : AtMost (nodeSizes store) n)
    (hlimit : n * b.memPerPoint ≤ mergeLimit memoryBudget) (ord : IterOrder)
    (rootKeys : List VoxelKey) (stop conc perParent : ℕ) :
    ∃ store' parents,
      b.mergeChunkTops ord memoryBudget store rootKeys stop conc perParent =
        .ok (store', parents) ∧ AtMost (nodeSizes store') n := by
  obtain ⟨s, hs, hend⟩ := @mergeLoop_succeeds F _ b n memoryBudget
    ⟨store, keysByLevel rootKeys, []⟩ h (levelled_keysByLevel rootKeys) hlimit ord
    (saturatingMul conc perParent) stop (mergeLevels rootKeys stop)
  refine ⟨s.store, s.newParents, ?_, hend⟩
  rw [(mergeChunkTops_eq ..).1, hs]
  rfl

/-! ## Building chunks -/

section Chunks

variable {pts : Multiset RawPoint}

/-- A subtree that is built over other nodes holds no more than before and what it holds alone. -/
lemma nodeSizes_buildSubtree_le (ord : IterOrder) (store : Store) (root : VoxelKey)
    (points : List RawPoint) (estPoints : ℕ) (k : VoxelKey) :
    nodeSizes (b.buildSubtree ord store root points estPoints).1 k ≤ nodeSizes store k +
      nodeSizes (b.buildSubtree ord (fun _ => []) root points estPoints).1 k := by
  by_cases h : (b.leavesAt points (root.level + chunkLocalExtraLevels F estPoints)).keys.isEmpty
  · have hsame : (b.buildSubtree ord store root points estPoints).1 = store := by
      rw [buildSubtree, finishSubtree, if_pos h]
    rw [hsame]
    exact Nat.le_add_right _ _
  · rw [b.buildSubtree_eq ord store root h, b.buildSubtree_eq ord (fun _ => []) root h]
    simp only [nodeSizes, bottomUpLevels_store]
    split_ifs
    · exact Nat.le_add_left _ _
    · exact Nat.le_add_right _ _

/-- A subtree holds no more than its points. -/
lemma atMost_buildSubtree_alone (ord : IterOrder) {root : VoxelKey} {points : List RawPoint}
    (hpts : (↑points : Multiset RawPoint) = inside b.addressing pts root) (estPoints : ℕ) :
    AtMost (nodeSizes (b.buildSubtree ord (fun _ => []) root points estPoints).1)
      points.length := by
  have hbuilt := buildSubtree_built
    (Conserved.invariant b.addressing maxLeafPoints pts b.HandsUp .free) ord hpts estPoints
    (WalkRules.free_allow ..) fun _ _ => rfl
  set r := b.buildSubtree ord (fun _ => []) root points estPoints
  intro places
  -- the listed nodes hold exactly the points, and no other node holds any
  have hconserved : Conserved b.addressing maxLeafPoints pts root (stored r.1) := hbuilt.holds
  have hsum : ∑ k ∈ (r.2.map Prod.fst).toFinset, stored r.1 k = inside b.addressing pts root :=
    hconserved.sum_eq_inside (fun k hk => hbuilt.under k (List.mem_toFinset.mp hk))
      fun k hk hne =>
        List.mem_toFinset.mpr (hbuilt.complete k hk fun h => hne (stored_eq_zero.mpr h))
  have hcard := congrArg Multiset.card hsum
  rw [Multiset.card_sum, ← hpts, Multiset.coe_card] at hcard
  rw [← hcard]
  refine Finset.sum_le_sum_of_ne_zero fun k _ hne => List.mem_toFinset.mpr ?_
  have hstored : r.1 k ≠ [] := fun h => hne (by rw [nodeSizes, h]; rfl)
  refine hbuilt.complete k ?_ hstored
  by_contra hk
  exact hstored (hbuilt.frame k hk)

/-- Building a subtree adds its points. -/
lemma atMost_buildSubtree (h : AtMost (nodeSizes store) n) (ord : IterOrder) {root : VoxelKey}
    {points : List RawPoint}
    (hpts : (↑points : Multiset RawPoint) = inside b.addressing pts root) (estPoints : ℕ) :
    AtMost (nodeSizes (b.buildSubtree ord store root points estPoints).1) (n + points.length) :=
  h.add (atMost_buildSubtree_alone ord hpts estPoints)
    (nodeSizes_buildSubtree_le ord store root points estPoints)

/-- The files of the sub-octants of a chunk together hold its points. -/
lemma sum_spill_files (ord : IterOrder) (splitLevel flushThreshold : ℕ) (points : List RawPoint) :
    let s := b.spill ord splitLevel flushThreshold points
    ((List.range s.subRoots.length).map fun i => (s.files i).length).sum = points.length := by
  obtain ⟨hnodup, hroots, hfiles⟩ := b.spill_files ord splitLevel flushThreshold points
  simp only
  generalize b.spill ord splitLevel flushThreshold points = s at hnodup hroots hfiles ⊢
  have hmap : ((List.range s.subRoots.length).map fun i => (s.files i).length) =
      s.subRoots.map fun k => (points.map fun p => b.keyOf p splitLevel).count k := by
    refine List.ext_getElem (by simp) fun i hi hi' => ?_
    have hlen : i < s.subRoots.length := by simpa using hi
    rw [List.getElem_map, List.getElem_map, List.getElem_range,
      hfiles i s.subRoots[i] (List.getElem?_eq_getElem hlen), List.count, List.countP_map,
      ← List.countP_eq_length_filter]
    refine List.countP_congr fun p _ => ?_
    simp
  have hset : s.subRoots.toFinset = (points.map fun p => b.keyOf p splitLevel).toFinset := by
    ext k
    rw [List.mem_toFinset, List.mem_toFinset, List.mem_map]
    exact hroots k
  rw [hmap, ← List.sum_toFinset _ hnodup, hset, List.sum_toFinset_count_eq_length, List.length_map]

/-- A spilled build succeeds within the limit. -/
lemma buildChunkSpilled_succeeds (h : AtMost (nodeSizes store) n) (ord : IterOrder)
    {chunk : PlannedChunk} {points : List RawPoint}
    (hpts : (↑points : Multiset RawPoint) = inside b.addressing pts chunk.key)
    (hlimit : (n + points.length) * b.memPerPoint ≤ mergeLimit memoryBudget)
    (chunkMemBudget : ℕ) :
    ∃ store' nodes, b.buildChunkSpilled ord memoryBudget store chunk points chunkMemBudget =
      .ok (store', nodes) ∧ AtMost (nodeSizes store') (n + points.length) := by
  have hsub := spillOf_subOctants ord chunkMemBudget hpts
  set s := b.spillOf ord chunk points chunkMemBudget with hs
  have hsum : ((List.range s.subRoots.length).map fun i => (s.files i).length).sum =
      points.length := b.sum_spill_files _ _ _ _
  obtain ⟨store₁, results, hrun, h₁⟩ : ∃ store₁ results,
      (ord.sub 2).runTasks (b.buildSubOctant (ord.sub 3) s.files) s.subRoots store =
        .ok (store₁, results) ∧ AtMost (nodeSizes store₁) (n + points.length) := by
    rw [← hsum]
    exact IterOrder.runTasks_succeeds (fun m st => AtMost (nodeSizes st) m)
      (fun i => (s.files i).length) (fun i r m st hr _ hm =>
        ⟨_, _, rfl, atMost_buildSubtree hm _ (hsub.file i r hr) _⟩) h
  set rootKeys := results.flatMap (keysAt (b.splitLevelOf (ord.sub 0) chunk points chunkMemBudget))
    with hrootKeys
  have hbuild : b.buildChunkSpilled ord memoryBudget store chunk points chunkMemBudget =
      if rootKeys.isEmpty then .ok (store₁, results.flatten)
      else (b.mergeChunkTops (ord.sub 4) memoryBudget store₁ rootKeys chunk.level 1
        chunkMemBudget).bind fun merged =>
          .ok (merged.1, results.flatten ++ merged.2.map fun k => (k, 0)) := by
    unfold buildChunkSpilled
    simp only [← hs, hrun]
    rfl
  rw [hbuild]
  split_ifs
  · exact ⟨_, _, rfl, h₁⟩
  · obtain ⟨store₂, parents, hmerge, h₂⟩ := mergeChunkTops_succeeds h₁ hlimit (ord.sub 4) rootKeys
      chunk.level 1 chunkMemBudget
    exact ⟨store₂, _, by rw [hmerge]; rfl, h₂⟩

/-- A chunk build succeeds within the limit, whichever path it takes. -/
lemma buildChunkInMemory_succeeds (h : AtMost (nodeSizes store) n) (ord : IterOrder)
    (chunkActualCounts : Option (List ℕ)) {files : ℕ → List RawPoint} {chunkIdx : ℕ}
    {chunk : PlannedChunk}
    (hpts : (↑(files chunkIdx) : Multiset RawPoint) = inside b.addressing pts chunk.key)
    (hlimit : (n + (files chunkIdx).length) * b.memPerPoint ≤ mergeLimit memoryBudget)
    (chunkMemBudget : ℕ) :
    ∃ store' nodes, b.buildChunkInMemory ord memoryBudget chunkActualCounts files chunkMemBudget
      chunkIdx chunk store = .ok (store', nodes) ∧
        AtMost (nodeSizes store') (n + (files chunkIdx).length) := by
  rw [buildChunkInMemory_eq]
  split_ifs
  · exact ⟨_, _, rfl, atMost_buildSubtree h ord hpts _⟩
  · exact buildChunkSpilled_succeeds h ord hpts hlimit chunkMemBudget

end Chunks

/-! ## The whole build -/

/-- The chunk files of a plan together hold the points. -/
lemma sum_chunkFiles {chunks : List PlannedChunk} {files : ℕ → List RawPoint}
    {pts : Multiset RawPoint} (hd : Distributed b chunks files pts) :
    ((List.range chunks.length).map fun i => (files i).length).sum = pts.card := by
  have hcard := congrArg Multiset.cardHom hd.total
  rw [map_list_sum, List.map_map] at hcard
  exact hcard

/-- The build of an input within the limit of a merge succeeds, and the store holds no more points
than the input. -/
lemma exists_buildNodeMap {pts : Multiset RawPoint} {grid : ℕ → UInt32}
    {gridDepth chunkTarget : ℕ} {files : ℕ → List RawPoint}
    (hd : Distributed b (planOf grid gridDepth chunkTarget).chunks files pts)
    (hlimit : pts.card * b.memPerPoint ≤ mergeLimit memoryBudget) (ord : IterOrder) (cores : ℕ)
    (chunkActualCounts : Option (List ℕ)) :
    ∃ store nodes, b.buildNodeMap ord memoryBudget cores (some (planOf grid gridDepth chunkTarget))
      chunkActualCounts files = .ok (store, nodes) ∧ AtMost (nodeSizes store) pts.card := by
  set plan := planOf grid gridDepth chunkTarget with hplan
  have hsum := sum_chunkFiles hd
  obtain ⟨store₁, results, hrun, h₁⟩ : ∃ store₁ results,
      (ord.sub 0).runTasks
        (b.buildChunkTask (ord.sub 1) memoryBudget cores chunkActualCounts files) plan.chunks
        (fun _ => []) = .ok (store₁, results) ∧ AtMost (nodeSizes store₁) pts.card := by
    have hempty : AtMost (nodeSizes fun _ => []) 0 := AtMost.zero
    rw [← hsum, ← Nat.zero_add (List.sum _)]
    refine IterOrder.runTasks_succeeds (fun m st => AtMost (nodeSizes st) m)
      (fun i => (files i).length) (fun i chunk m st hchunk hle hm => ?_) hempty
    refine buildChunkInMemory_succeeds hm _ chunkActualCounts
      (hd.file_eq planOf_unrelated hchunk) (le_trans (Nat.mul_le_mul_right _ ?_) hlimit) _
    rwa [Nat.zero_add, hsum] at hle
  obtain ⟨store₂, parents, hmerge, h₂⟩ := mergeChunkTops_succeeds h₁ hlimit (ord.sub 2)
    (chunkRootKeys plan.chunks results) 0 (buildConcurrencyAndBudget F memoryBudget cores).1
    (buildConcurrencyAndBudget F memoryBudget cores).2
  unfold buildNodeMap
  simp only
  split_ifs with hlen
  · exact ⟨_, _, rfl, AtMost.mono AtMost.zero (Nat.zero_le _)⟩
  · refine ⟨store₂, assembleNodes store₂
      (((plan.chunks.zip results).flatMap fun e => e.2.map Prod.fst) ++ parents), ?_, h₂⟩
    rw [hrun]
    change (b.mergeChunkTops (ord.sub 2) memoryBudget store₁ (chunkRootKeys plan.chunks results) 0
      _ _).bind _ = _
    rw [hmerge]
    rfl

end OctreeBuilder

end CopcConverter
