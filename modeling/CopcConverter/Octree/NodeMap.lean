import CopcConverter.Foundations.PyramidInvariants
import CopcConverter.Octree.BuildNodeMap

/-!
# What the node map guarantees

The plan of `merge_sparse_cells` has no related chunks, so a build of it finishes the subtree of the
global root, and the node map lists what is in there.  Reading this off for two invariants of the
pyramid gives the guarantees of the node map.  The first one is about conservation: no point is lost
or duplicated, every point is under a key of its own path, every listed count is right, and no key
is listed twice.  The second one is about compactness: nothing is stored below a voxel that has few
enough points for one node.

Both hold for any order of iteration, for any memory budget, and whether chunks are built in memory
or spilled.  The examples that the later modules use begin here: a cube around the origin, and two
piles of points that the root samples.
-/

namespace CopcConverter

open LevelTree

variable {F : Type} [FloatArith F]

/-! ## Planned chunks -/

/-- A voxel of the octree is below the global root. -/
lemma VoxelKey.InOctree.isAncestor_root {v : VoxelKey} (h : v.InOctree) :
    IsAncestor VoxelKey.root v := by
  refine VoxelKey.isAncestor_iff.mpr ⟨Nat.zero_le _, ?_, ?_, ?_⟩
  · exact (Nat.shiftRight_eq_div_pow _ _).trans (Nat.div_eq_of_lt h.1)
  · exact (Nat.shiftRight_eq_div_pow _ _).trans (Nat.div_eq_of_lt h.2.1)
  · exact (Nat.shiftRight_eq_div_pow _ _).trans (Nat.div_eq_of_lt h.2.2)

/-- The plan of a grid. -/
def planOf (grid : ℕ → UInt32) (gridDepth chunkTarget : ℕ) : ChunkPlan where
  gridSize := 2 ^ gridDepth
  gridDepth := gridDepth
  chunks := mergeSparseCells grid (2 ^ gridDepth) gridDepth chunkTarget

section Planned

variable {grid : ℕ → UInt32} {gridDepth chunkTarget : ℕ}

lemma planOf_unrelated :
    Unrelated ((planOf grid gridDepth chunkTarget).chunks.map PlannedChunk.key) :=
  unrelated_of_antichain (nodup_plan_keys grid gridDepth chunkTarget) fun _ _ => plan_antichain

/-- The planned voxels are the ones below an emitter, at its split depth. -/
lemma mem_planOf_keys {v : VoxelKey} :
    v ∈ (planOf grid gridDepth chunkTarget).chunks.map PlannedChunk.key ↔
      ∃ e, IsEmitter grid gridDepth chunkTarget e ∧ IsAncestor e v ∧
        v.level = e.level + emitDepth gridDepth chunkTarget (cellTotal grid gridDepth e) e :=
  mem_plan_keys

lemma planOf_below_root {c : PlannedChunk} (hc : c ∈ (planOf grid gridDepth chunkTarget).chunks) :
    IsAncestor VoxelKey.root c.key := by
  obtain ⟨e, he, hec, -⟩ := mem_planOf_keys.mp (List.mem_map_of_mem hc)
  exact he.1.isAncestor_root.trans hec

end Planned

/-! ## The guarantees -/

namespace OctreeBuilder

variable {b : OctreeBuilder F} {pts : Multiset RawPoint} {grid : ℕ → UInt32}
  {gridDepth chunkTarget : ℕ} {ord : IterOrder} {memoryBudget cores : ℕ}
  {chunkActualCounts : Option (List ℕ)} {files : ℕ → List RawPoint} {store : Store}
  {nodes : List (VoxelKey × ℕ)}

/-- A build conserves the points of the chunk files below the global root. -/
lemma buildNodeMap_conserved
    (hd : Distributed b (planOf grid gridDepth chunkTarget).chunks files pts)
    (hok : b.buildNodeMap ord memoryBudget cores (some (planOf grid gridDepth chunkTarget))
      chunkActualCounts files = .ok (store, nodes)) :
    Conserved b.addressing maxLeafPoints pts VoxelKey.root (stored store) ∧
      (∀ k, ¬ IsAncestor VoxelKey.root k → store k = []) ∧ Listing store nodes :=
  buildNodeMap_built
    (I := Conserved.invariant b.addressing maxLeafPoints pts b.HandsUp .free) hd planOf_unrelated
    (fun _ => planOf_below_root) (WalkRules.free_allow ..) hok

/-- The listed nodes hold the points, each under a key of its own path; every count is the number of
points under its key, no key is listed twice and every ancestor of a listed key is listed. -/
structure NodeMapOf (b : OctreeBuilder F) (pts : Multiset RawPoint) (store : Store)
    (nodes : List (VoxelKey × ℕ)) : Prop where
  union : (nodes.map fun e => (↑(store e.1) : Multiset RawPoint)).sum = pts
  placed : ∀ e ∈ nodes, ∀ p ∈ store e.1, b.keyOf p e.1.level = e.1
  counted : ∀ e ∈ nodes, e.2 = (store e.1).length
  distinct : (nodes.map Prod.fst).Nodup
  closed : ∀ k ∈ nodes.map Prod.fst, ∀ a, IsAncestor a k → a ∈ nodes.map Prod.fst

/-- What a build stores, stored below the global root. -/
lemma buildNodeMap_under_root
    (hd : Distributed b (planOf grid gridDepth chunkTarget).chunks files pts)
    (hok : b.buildNodeMap ord memoryBudget cores (some (planOf grid gridDepth chunkTarget))
      chunkActualCounts files = .ok (store, nodes)) {k : VoxelKey} (hne : store k ≠ []) :
    IsAncestor VoxelKey.root k := by
  obtain ⟨-, hout, -⟩ := buildNodeMap_conserved hd hok
  by_contra hk
  exact hne (hout k hk)

/-- The listed keys cover the store, so what they hold adds up to all points. -/
lemma buildNodeMap_sum
    (hd : Distributed b (planOf grid gridDepth chunkTarget).chunks files pts)
    (hok : b.buildNodeMap ord memoryBudget cores (some (planOf grid gridDepth chunkTarget))
      chunkActualCounts files = .ok (store, nodes)) :
    (nodes.map fun e => (↑(store e.1) : Multiset RawPoint)).sum = pts := by
  obtain ⟨hcons, -, hlist⟩ := buildNodeMap_conserved hd hok
  have hinside : inside b.addressing pts VoxelKey.root = pts := by
    rw [inside_eq_filter]
    exact Multiset.filter_eq_self.mpr fun p _ => b.keyOf_zero p
  have hkeys : ∀ k ∈ (nodes.map Prod.fst).toFinset, IsAncestor VoxelKey.root k := fun k hk => by
    obtain ⟨c, hc, hkc⟩ := hlist.supported k (List.mem_toFinset.mp hk)
    exact IsAncestor.of_level_le (buildNodeMap_under_root hd hok hc) hkc (Nat.zero_le _)
  have hsum := hcons.sum_eq_inside hkeys fun k _ hne =>
    List.mem_toFinset.mpr (hlist.complete k fun hnil => hne (stored_eq_zero.mpr hnil))
  rw [hinside, List.sum_toFinset _ hlist.nodup, List.map_map] at hsum
  exact hsum

/-- A point is stored under a listed key exactly when it is one of the points. -/
lemma buildNodeMap_mem_iff
    (hd : Distributed b (planOf grid gridDepth chunkTarget).chunks files pts)
    (hok : b.buildNodeMap ord memoryBudget cores (some (planOf grid gridDepth chunkTarget))
      chunkActualCounts files = .ok (store, nodes)) (p : RawPoint) :
    (∃ e ∈ nodes, p ∈ store e.1) ↔ p ∈ pts := by
  have hflat : (nodes.map fun e => (↑(store e.1) : Multiset RawPoint)).sum =
      ↑(nodes.flatMap fun e => store e.1) := Multiset.coe_bind nodes fun e => store e.1
  rw [← buildNodeMap_sum hd hok, hflat, Multiset.mem_coe, List.mem_flatMap]

/-- A build loses no point and duplicates none: what it lists is a node map of the points of the
chunk files. -/
theorem buildNodeMap_conserves
    (hd : Distributed b (planOf grid gridDepth chunkTarget).chunks files pts)
    (hok : b.buildNodeMap ord memoryBudget cores (some (planOf grid gridDepth chunkTarget))
      chunkActualCounts files = .ok (store, nodes)) : NodeMapOf b pts store nodes := by
  obtain ⟨hcons, -, hlist⟩ := buildNodeMap_conserved hd hok
  refine ⟨buildNodeMap_sum hd hok, fun e _ p hp => ?_, hlist.counts, hlist.nodup, hlist.closed⟩
  have hunder := buildNodeMap_under_root hd hok (List.ne_nil_of_mem hp)
  exact hcons.placed e.1 p hunder (Multiset.mem_coe.mpr hp)

/-- Nothing is stored below a voxel that contains at most `maxLeafPoints` points. -/
theorem buildNodeMap_compact
    (hd : Distributed b (planOf grid gridDepth chunkTarget).chunks files pts)
    (hok : b.buildNodeMap ord memoryBudget cores (some (planOf grid gridDepth chunkTarget))
      chunkActualCounts files = .ok (store, nodes)) (v : VoxelKey)
    (hv : pts.countP (fun p => b.keyOf p v.level = v) ≤ maxLeafPoints) (k : VoxelKey)
    (hk : IsProperAncestor v k) : store k = [] := by
  obtain ⟨hcons, hout, -⟩ := buildNodeMap_conserved hd hok
  by_cases hroot : IsAncestor VoxelKey.root v
  · refine stored_eq_zero.mp (hcons.compact v k hroot hk ?_)
    rwa [inside_eq_filter, ← Multiset.countP_eq_card_filter]
  · refine hout k fun hk' => hroot ?_
    exact IsAncestor.of_level_le hk' hk.isAncestor (Nat.zero_le _)

end OctreeBuilder

/-! ## Two points in one chunk -/

/-- The cube of half-size 8 around the origin, over exact arithmetic, with unit scale. -/
def unitBuilder : OctreeBuilder ℚ where
  cx := 0
  cy := 0
  cz := 0
  halfsize := 8
  scaleX := 1
  scaleY := 1
  scaleZ := 1
  offsetX := 0
  offsetY := 0
  offsetZ := 0
  numExtraBytes := 0

/-- A point with coordinates only. -/
def pointAt (x y z : Int32) : RawPoint :=
  ⟨x, y, z, 0, 0, 0, 0, 0, 0, 0, 0, 0, 0, 0, 0, []⟩

lemma budget_gib : buildConcurrencyAndBudget ℚ (2 ^ 30) 1 = (1, 429496729) := by decide +kernel

/-! ## A root with two piles -/

/-- Sixty thousand points in the first cell and as many in the last. -/
def sampledGrid (i : ℕ) : UInt32 := if i = 0 ∨ i = 7 then 60000 else 0

/-- The points are at two places, in the file of the only chunk. -/
def sampledFiles (i : ℕ) : List RawPoint :=
  if i = 0 then
    List.replicate 60000 (pointAt (-1) (-2) (-3)) ++ List.replicate 60000 (pointAt 1 2 3)
  else []

lemma planOf_sampled : planOf sampledGrid 1 1000000 = ⟨2, 1, [⟨0, 0, 0, 0, 120000⟩]⟩ := rfl

lemma length_sampledFiles : (sampledFiles 0).length = 120000 := by
  rw [sampledFiles, if_pos rfl, List.length_append, List.length_replicate, List.length_replicate]

lemma distributed_sampled : Distributed unitBuilder (planOf sampledGrid 1 1000000).chunks
    sampledFiles ↑(sampledFiles 0) where
  routed i c hc p _ := by
    rw [planOf_sampled] at hc
    obtain ⟨hi, rfl⟩ := List.getElem?_eq_some_iff.mp hc
    obtain rfl : i = 0 := by simpa using hi
    rfl
  total := by
    rw [planOf_sampled]
    exact add_zero _

/-- The points are built in memory: in two leaves with room for them, which the root samples. -/
lemma buildNodeMap_sampled : ∃ store nodes, unitBuilder.buildNodeMap .listed (2 ^ 30) 1
    (some (planOf sampledGrid 1 1000000)) none sampledFiles = .ok (store, nodes) := by
  have hfits : saturatingMul (sampledFiles 0).length perChunkBytesPerPointBuild ≤
      (buildConcurrencyAndBudget ℚ (2 ^ 30) 1).2 := by
    rw [length_sampledFiles, budget_gib]
    decide
  obtain ⟨nodes, hok⟩ := unitBuilder.buildNodeMap_single .listed 2 1 120000 hfits
  rw [← planOf_sampled] at hok
  exact ⟨_, nodes, hok⟩

/-- The build of the two piles conserves their points. -/
theorem buildNodeMap_conserves_sampled : ∃ store nodes, unitBuilder.buildNodeMap .listed (2 ^ 30) 1
    (some (planOf sampledGrid 1 1000000)) none sampledFiles = .ok (store, nodes) ∧
      unitBuilder.NodeMapOf ↑(sampledFiles 0) store nodes := by
  obtain ⟨store, nodes, hok⟩ := buildNodeMap_sampled
  exact ⟨store, nodes, hok, OctreeBuilder.buildNodeMap_conserves distributed_sampled hok⟩

end CopcConverter
