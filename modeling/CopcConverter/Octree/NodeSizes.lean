import CopcConverter.Octree.Subdivision
import CopcConverter.Octree.Thinning

/-!
# How many points a node holds

A reader that fetches one node should not get too many points.  A node gets its points as a leaf of
some subtree or as the parent of a `grid_sample` call, and from then on it only loses points, to its
own parent.  A leaf above the depth cap is small, since it was split otherwise; a parent of few
points is small; and the parent of many points has at most one of them for every grid cell.

So only leaves at the cap or deeper can be larger, and nothing is stored below these.  Nor does any
node have more points than there are in all, which is what bounds the leaves at the cap.  The bounds
go with every write of a node, through leaves, sampling, and both merges.
-/

namespace CopcConverter

open LevelTree TaggedSplit

variable {F : Type} [FloatArith F]

/-- The number of cells of a sampling grid. -/
def gridCells : ℕ := (gridCellsPerAxis ^ 3).toNat

example : gridCells = 2097152 := by decide

/-- The points of a node were produced by the sampling branch of `grid_sample`. -/
def SampledInto (b : OctreeBuilder F) (calls : List SampleCall) (k : VoxelKey) : Prop :=
  ∃ c ∈ calls, c.parent = k ∧ maxLeafPoints < (gathered (stored c.before) c.children).card ∧
    c.Promotes b

/-- What is known about the points of one node during a build: they are few, or a deep leaf, or
sampled; and there is a leaf at the node or below it. -/
structure NodeSize (b : OctreeBuilder F) (calls : List SampleCall) (Leaf : VoxelKey → Prop)
    (k : VoxelKey) (m : Multiset RawPoint) : Prop where
  size : m.card ≤ maxLeafPoints ∨ (Leaf k ∧ chunkDepthCap ≤ k.level) ∨
    (SampledInto b calls k ∧ m.card ≤ gridCells)
  above : m ≠ 0 → ∃ j, Leaf j ∧ IsAncestor k j

section Nodes

variable {b : OctreeBuilder F} {calls : List SampleCall} {Leaf : VoxelKey → Prop}

/-- A part of the points is not more. -/
lemma NodeSize.mono {k : VoxelKey} {m m' : Multiset RawPoint} (hle : m' ≤ m)
    (h : NodeSize b calls Leaf k m) : NodeSize b calls Leaf k m' where
  size := by
    have hcard := Multiset.card_le_card hle
    rcases h.size with hsmall | hleaf | ⟨hsampled, hcells⟩
    · exact Or.inl (hcard.trans hsmall)
    · exact Or.inr (Or.inl hleaf)
    · exact Or.inr (Or.inr ⟨hsampled, hcard.trans hcells⟩)
  above hne := h.above fun h0 => hne (Multiset.le_zero.mp (h0 ▸ hle))

lemma NodeSize.zero (k : VoxelKey) : NodeSize b calls Leaf k 0 where
  size := Or.inl (Nat.zero_le _)
  above hne := absurd rfl hne

/-- A leaf with many points is at the depth cap or deeper. -/
lemma NodeSize.leaf {k : VoxelKey} {m : Multiset RawPoint} (hleaf : Leaf k)
    (hcap : maxLeafPoints < m.card → chunkDepthCap ≤ k.level) : NodeSize b calls Leaf k m where
  size := (Nat.lt_or_ge maxLeafPoints m.card).elim (fun h => Or.inr (Or.inl ⟨hleaf, hcap h⟩)) Or.inl
  above _ := ⟨k, hleaf, IsAncestor.refl k⟩

/-- What a call hands to its parent. -/
lemma NodeSize.promoted {f : VoxelKey → List RawPoint} {q : VoxelKey} {L : List VoxelKey}
    (hcall : ⟨q, L, f⟩ ∈ calls) (hL : ∀ c ∈ L, IsChild q c)
    (h : ∀ c ∈ L, NodeSize b calls Leaf c (stored f c)) :
    NodeSize b calls Leaf q ↑(b.promoted f q L) := by
  have hs := b.gridSample_sampled q (L.map f)
  rw [List.length_map] at hs
  have hpart : (↑(b.promoted f q L) : Multiset RawPoint) ≤ gathered (stored f) L := by
    rw [gathered_stored, ← hs.total]
    exact Multiset.le_add_right _ _
  refine ⟨?_, fun hne => ?_⟩
  · rcases Nat.lt_or_ge maxLeafPoints (gathered (stored f) L).card with hmany | hfew
    · by_cases hnil : b.promoted f q L = []
      · rw [hnil]
        exact Or.inl (Nat.zero_le _)
      · refine Or.inr (Or.inr ⟨⟨_, hcall, rfl, hmany, hnil⟩, ?_⟩)
        rw [gathered_stored, Multiset.coe_card, ← map_snd_tagged, List.length_map] at hmany
        exact SampleGrid.length_sample_le _ hmany
    · exact Or.inl ((Multiset.card_le_card hpart).trans hfew)
  · obtain ⟨p, hp⟩ := Multiset.exists_mem_of_ne_zero hne
    obtain ⟨c, hc, hpc⟩ := mem_gathered.mp (Multiset.mem_of_le hpart hp)
    obtain ⟨j, hj, hcj⟩ := (h c hc).above fun h0 => Multiset.notMem_zero p (h0 ▸ hpc)
    exact ⟨j, hj, (hL c hc).isProperAncestor.isAncestor.trans hcj⟩

/-- Sampling the groups of a level. -/
lemma nodeSize_pass {d : ℕ} {present : VoxelKey → Prop} {P : List (VoxelKey × List VoxelKey)}
    (hg : Grouped d present P) {f f' : VoxelKey → List RawPoint}
    (hsampled : ∀ q L, (q, L) ∈ P → GroupSampled b f f' q L)
    (hpass : LevelPass b.HandsUp maxLeafPoints d present (stored f) (stored f'))
    (hcalls : ∀ c ∈ groupCalls f P, c ∈ calls)
    (h : ∀ k, NodeSize b calls Leaf k (stored f k)) (k : VoxelKey) :
    NodeSize b calls Leaf k (stored f' k) := by
  refine hpass.nodewise (Φ := NodeSize b calls Leaf) (fun _ _ _ hle => NodeSize.mono hle) h
    (fun q hq hne => ?_) k
  -- a parent that changes has gathered the present children of its group
  obtain ⟨L, hL, hstep, -⟩ := hpass.sampled q hq
  obtain ⟨c, hc⟩ := List.exists_mem_of_ne_nil L fun hnil => hne <|
    (hstep.idle (by rw [hnil, gathered_nil])).1
  obtain ⟨L', hL'⟩ := hg.complete q c hq ((hL c).mp hc).1 ((hL c).mp hc).2
  have hparent := (hsampled q L' hL').parent
  by_cases hnil : b.promoted f q L' = []
  · rw [if_pos hnil] at hparent
    exact absurd (congrArg Multiset.ofList hparent) hne
  · rw [if_neg hnil] at hparent
    rw [stored, hparent]
    exact NodeSize.promoted (hcalls _ (List.mem_map_of_mem hL'))
      (fun c hc => ((hg.children q L' hL').2 c |>.mp hc).1) fun c _ => h c

end Nodes

/-! ## The leaves of a build -/

namespace OctreeBuilder

variable (b : OctreeBuilder F)

/-- The leaves of a subtree build, after the adaptive subdivision. -/
def subtreeLeaves (ord : IterOrder) (root : VoxelKey) (points : List RawPoint) (estPoints : ℕ) :
    Nodes :=
  let leafDepth := root.level + chunkLocalExtraLevels F estPoints
  (b.subdivide (ord.sub 0) (chunkDepthCap + 1) (b.leavesAt points leafDepth, leafDepth)).1

/-- A leaf of a spilled build is one of some sub-octant. -/
def SpillLeaf (ord : IterOrder) (s : SpillState) (k : VoxelKey) : Prop :=
  ∃ i sub, s.subRoots[i]? = some sub ∧
    k ∈ b.subtreeLeaves (ord.sub i) sub (s.files i) (s.files i).length

/-- A leaf of a chunk build. -/
def ChunkLeaf (ord : IterOrder) (chunkActualCounts : Option (List ℕ))
    (files : ℕ → List RawPoint) (chunkMemBudget : ℕ) (chunkIdx : ℕ) (chunk : PlannedChunk)
    (k : VoxelKey) : Prop :=
  if saturatingMul (actualPoints chunkActualCounts files chunkIdx) perChunkBytesPerPointBuild ≤
      chunkMemBudget then
    k ∈ b.subtreeLeaves ord chunk.key (files chunkIdx)
      (actualPoints chunkActualCounts files chunkIdx)
  else b.SpillLeaf (ord.sub 3) (b.spillOf ord chunk (files chunkIdx) chunkMemBudget) k

/-- A leaf of a whole build. -/
def BuildLeaf (ord : IterOrder) (memoryBudget cores : ℕ) (plan : ChunkPlan)
    (chunkActualCounts : Option (List ℕ)) (files : ℕ → List RawPoint) (k : VoxelKey) : Prop :=
  ∃ i chunk, plan.chunks[i]? = some chunk ∧
    b.ChunkLeaf ((ord.sub 1).sub i) chunkActualCounts files
      (buildConcurrencyAndBudget F memoryBudget cores).2 i chunk k

variable {b} {pts : Multiset RawPoint} {ord : IterOrder}

/-- The leaves of a subtree cut it. -/
lemma subtreeLeaves_cut {root : VoxelKey} {points : List RawPoint}
    (hpts : (↑points : Multiset RawPoint) = inside b.addressing pts root) (estPoints : ℕ) :
    LeafCut b.addressing pts root (b.subtreeLeaves ord root points estPoints) :=
  ((leaves_leavesAt hpts (Nat.le_add_right _ _)).subdivide _ _).cut

/-- Leaves below some root none of which lies above another. -/
structure Antichain (root : VoxelKey) (Leaf : VoxelKey → Prop) : Prop where
  below : ∀ k, Leaf k → IsAncestor root k
  eq : ∀ a k, Leaf a → Leaf k → IsAncestor a k → a = k

/-- Antichains below unrelated roots are one antichain. -/
lemma antichain_of_unrelated {α : Type} {root : α → VoxelKey} {top : VoxelKey} {tasks : List α}
    (hun : Unrelated (tasks.map root)) (htop : ∀ t ∈ tasks, IsAncestor top (root t))
    {Leaf : ℕ → α → VoxelKey → Prop}
    (h : ∀ i t, tasks[i]? = some t → Antichain (root t) (Leaf i t)) :
    Antichain top fun k => ∃ i t, tasks[i]? = some t ∧ Leaf i t k where
  below := by
    rintro k ⟨i, t, ht, hk⟩
    exact (htop t (List.mem_of_getElem? ht)).trans ((h i t ht).below k hk)
  eq := by
    rintro a k ⟨i, t, ht, ha⟩ ⟨j, u, hu, hk⟩ hak
    have htk : IsAncestor (root t) k := ((h i t ht).below a ha).trans hak
    by_cases hij : i = j
    · subst hij
      obtain rfl := Option.some.inj (ht.symm.trans hu)
      exact (h i t ht).eq a k ha hk hak
    · refine absurd ((h j u hu).below k hk) (hun.disjoint hij ?_ ?_ htk)
      · rw [List.getElem?_map, ht]
        rfl
      · rw [List.getElem?_map, hu]
        rfl

lemma subtreeLeaves_antichain {root : VoxelKey} {points : List RawPoint}
    (hpts : (↑points : Multiset RawPoint) = inside b.addressing pts root) (estPoints : ℕ) :
    Antichain root (· ∈ b.subtreeLeaves ord root points estPoints) :=
  ⟨(subtreeLeaves_cut hpts estPoints).below, (subtreeLeaves_cut hpts estPoints).antichain⟩

lemma chunkLeaf_antichain {chunkActualCounts : Option (List ℕ)} {files : ℕ → List RawPoint}
    {chunkMemBudget chunkIdx : ℕ} {chunk : PlannedChunk}
    (hpts : (↑(files chunkIdx) : Multiset RawPoint) = inside b.addressing pts chunk.key) :
    Antichain chunk.key
      (b.ChunkLeaf ord chunkActualCounts files chunkMemBudget chunkIdx chunk) := by
  unfold ChunkLeaf
  split_ifs
  · exact subtreeLeaves_antichain hpts _
  · have hsub := spillOf_subOctants ord chunkMemBudget hpts
    exact antichain_of_unrelated hsub.unrelated hsub.below fun i r hr =>
      subtreeLeaves_antichain (hsub.file i r hr) _

lemma buildLeaf_antichain {memoryBudget cores : ℕ} {plan : ChunkPlan}
    {chunkActualCounts : Option (List ℕ)} {files : ℕ → List RawPoint}
    (hd : Distributed b plan.chunks files pts) (hun : Unrelated (plan.chunks.map PlannedChunk.key))
    (hroot : ∀ c ∈ plan.chunks, IsAncestor VoxelKey.root c.key) :
    Antichain VoxelKey.root
      (b.BuildLeaf ord memoryBudget cores plan chunkActualCounts files) :=
  antichain_of_unrelated hun hroot fun _ _ hc => chunkLeaf_antichain (hd.file_eq hun hc)

/-! ## The sizes during a build -/

/-- The sizes of all nodes of a store. -/
def StoreSizes (b : OctreeBuilder F) (calls : List SampleCall) (Leaf : VoxelKey → Prop)
    (f : VoxelKey → List RawPoint) : Prop :=
  ∀ k, NodeSize b calls Leaf k (stored f k)

variable {calls : List SampleCall} {Leaf : VoxelKey → Prop} {store store' : Store}

/-- The loop over the levels of a subtree. -/
lemma StoreSizes.bottomUpLoop {min n : ℕ} {nodes : Nodes}
    (h : StoreSizes b calls Leaf nodes.get)
    (hcalls : ∀ c ∈ b.bottomUpCalls ord min n nodes, c ∈ calls) :
    StoreSizes b calls Leaf (BucketMap.get (b.bottomUpLoop ord min n nodes)) := by
  induction n generalizing nodes with
  | zero => exact h
  | succ n ih =>
    refine ih (nodeSize_pass (parentGroups_grouped (ord.sub (min + n)) nodes (min + n))
      (fun q L => b.levelStep_group _ _ _) (b.levelStep_levelPass _ _ _)
      (fun c hc => hcalls c (List.mem_append_left _ hc)) h) fun c hc => ?_
    exact hcalls c (List.mem_append_right _ hc)

/-- A subtree build. -/
lemma StoreSizes.buildSubtree {root : VoxelKey} {points : List RawPoint} {estPoints : ℕ}
    (h : StoreSizes b calls Leaf store)
    (hpts : (↑points : Multiset RawPoint) = inside b.addressing pts root)
    (hleaf : ∀ k ∈ b.subtreeLeaves ord root points estPoints, Leaf k)
    (hcalls : ∀ c ∈ b.subtreeCalls ord root points estPoints, c ∈ calls) :
    StoreSizes b calls Leaf (b.buildSubtree ord store root points estPoints).1 := by
  unfold OctreeBuilder.buildSubtree finishSubtree
  unfold subtreeCalls finishCalls at hcalls
  simp only at hcalls ⊢
  split_ifs at hcalls ⊢ with hnil
  · exact h
  · set leafDepth := root.level + chunkLocalExtraLevels F estPoints
    have hstart : b.Leaves pts root (b.leavesAt points leafDepth, leafDepth) :=
      leaves_leavesAt hpts (Nat.le_add_right _ _)
    have hleaves : StoreSizes b calls Leaf
        (BucketMap.get (b.subtreeLeaves ord root points estPoints)) := by
      intro k
      by_cases hk : k ∈ b.subtreeLeaves ord root points estPoints
      · exact NodeSize.leaf (hleaf k hk) fun hmany =>
          (atFront_leavesAt points leafDepth).capped hstart _ (Nat.lt_succ_self _) ⟨hk, hmany⟩
      · rw [stored, BucketMap.get_eq_nil_of_notMem hk]
        exact NodeSize.zero k
    intro k
    rw [stored, b.bottomUpLevels_store]
    split_ifs
    · exact hleaves.bottomUpLoop hcalls k
    · exact h k

/-- Tasks over one store. -/
lemma StoreSizes.runTasks {α : Type} {tasks : List α}
    {f : ℕ → α → Store → Except BuildError (Store × List (VoxelKey × ℕ))}
    {g : ℕ → α → Store → List SampleCall} {results : List (List (VoxelKey × ℕ))}
    (h : StoreSizes b calls Leaf store)
    (hstep : ∀ i t s s' nodes, tasks[i]? = some t → f i t s = .ok (s', nodes) →
      (∀ c ∈ g i t s, c ∈ calls) → StoreSizes b calls Leaf s → StoreSizes b calls Leaf s')
    (hok : ord.runTasks f tasks store = .ok (store', results))
    (hcalls : ∀ c ∈ ord.tasksTrace f g tasks store, c ∈ calls) :
    StoreSizes b calls Leaf store' := by
  obtain ⟨-, -, -, hall, -⟩ := IterOrder.runTasks_ok (g := g)
    (fun _ s _ tr => (∀ c ∈ tr, c ∈ calls) → StoreSizes b calls Leaf s) hok (fun _ => h)
    fun done t s s' nodes res tr ht _ hf hs htr =>
      hstep t.2 t.1 s s' nodes (List.mem_zipIdx_iff_getElem?.mp ht) hf
        (fun c hc => htr c (List.mem_append_right _ hc))
        (hs fun c hc => htr c (List.mem_append_left _ hc))
  exact hall hcalls

/-- The loop over the levels of a merge. -/
lemma StoreSizes.mergeLoop {memoryBudget batchCap stop n : ℕ} {s s' : MergeState}
    (h : StoreSizes b calls Leaf s.store) (hlevelled : Levelled s.keysByLevel)
    (hok : b.mergeLoop ord memoryBudget batchCap stop n s = .ok s')
    (hcalls : ∀ c ∈ b.mergeLoopCalls ord memoryBudget batchCap stop n s, c ∈ calls) :
    StoreSizes b calls Leaf s'.store := by
  induction n generalizing s with
  | zero =>
    obtain rfl := Except.ok.inj hok
    exact h
  | succ n ih =>
    rw [OctreeBuilder.mergeLoop] at hok
    rw [mergeLoopCalls] at hcalls
    cases hl : b.mergeLevel (ord.sub (stop + n)) memoryBudget batchCap s (stop + n) with
    | error e =>
      rw [hl] at hok
      cases hok
    | ok s₁ =>
      rw [hl] at hok hcalls
      have hm := b.mergeLevel_ok hl
      have hg := mergeGroups_grouped hlevelled (ord.sub (stop + n)) (stop + n)
      obtain ⟨hsampled, hframe⟩ := hm.sampled hg
      refine ih (nodeSize_pass hg hsampled (hg.levelPass hsampled hframe)
        (fun c hc => hcalls c (List.mem_append_left _ hc)) h)
        (hm.tracked (fun t ht => hg.level t.1 t.2 ht) hlevelled).1 hok fun c hc => ?_
      exact hcalls c (List.mem_append_right _ hc)

/-- A merge. -/
lemma StoreSizes.mergeChunkTops {memoryBudget stop conc perParent : ℕ}
    {rootKeys parents : List VoxelKey} (h : StoreSizes b calls Leaf store)
    (hok : b.mergeChunkTops ord memoryBudget store rootKeys stop conc perParent =
      .ok (store', parents))
    (hcalls : ∀ c ∈ b.mergeCalls ord memoryBudget store rootKeys stop conc perParent, c ∈ calls) :
    StoreSizes b calls Leaf store' := by
  obtain ⟨s, hloop, rfl, -⟩ := mergeChunkTops_ok hok
  rw [(mergeChunkTops_eq ..).2] at hcalls
  exact StoreSizes.mergeLoop h (levelled_keysByLevel rootKeys) hloop hcalls

/-- A chunk build. -/
lemma StoreSizes.buildChunkInMemory {memoryBudget chunkMemBudget chunkIdx : ℕ}
    {chunkActualCounts : Option (List ℕ)} {files : ℕ → List RawPoint} {chunk : PlannedChunk}
    {nodes : List (VoxelKey × ℕ)} (h : StoreSizes b calls Leaf store)
    (hpts : (↑(files chunkIdx) : Multiset RawPoint) = inside b.addressing pts chunk.key)
    (hleaf : ∀ k, b.ChunkLeaf ord chunkActualCounts files chunkMemBudget chunkIdx chunk k → Leaf k)
    (hok : b.buildChunkInMemory ord memoryBudget chunkActualCounts files chunkMemBudget chunkIdx
      chunk store = .ok (store', nodes))
    (hcalls : ∀ c ∈ b.chunkCalls ord memoryBudget chunkActualCounts files chunkMemBudget chunkIdx
      chunk store, c ∈ calls) :
    StoreSizes b calls Leaf store' := by
  rw [buildChunkInMemory_eq] at hok
  change ∀ c ∈ (if saturatingMul (actualPoints chunkActualCounts files chunkIdx)
    perChunkBytesPerPointBuild ≤ chunkMemBudget then _ else _), c ∈ calls at hcalls
  unfold ChunkLeaf at hleaf
  split_ifs at hok hcalls hleaf
  · have hbuilt := h.buildSubtree hpts hleaf hcalls
    rwa [Except.ok.inj hok] at hbuilt
  · obtain ⟨built, parents, hrun, hm, -⟩ := buildChunkSpilled_ok hok
    unfold spilledCalls at hcalls
    simp only [hrun] at hcalls
    have hsub := spillOf_subOctants ord chunkMemBudget hpts
    have hbuilt : StoreSizes b calls Leaf built.1 := by
      refine h.runTasks (fun i r st st' nodes hr hf hc hst => ?_) hrun fun c hc =>
        hcalls c (List.mem_append_left _ hc)
      have hsubtree := hst.buildSubtree (hsub.file i r hr)
        (fun k hk => hleaf k ⟨i, r, hr, hk⟩) hc
      rwa [Except.ok.inj hf] at hsubtree
    exact hbuilt.mergeChunkTops hm fun c hc => hcalls c (List.mem_append_right _ hc)

/-- A whole build. -/
lemma StoreSizes.buildNodeMap {memoryBudget cores : ℕ} {plan : ChunkPlan}
    {chunkActualCounts : Option (List ℕ)} {files : ℕ → List RawPoint}
    {nodes : List (VoxelKey × ℕ)} (hd : Distributed b plan.chunks files pts)
    (hun : Unrelated (plan.chunks.map PlannedChunk.key))
    (hleaf : ∀ k, b.BuildLeaf ord memoryBudget cores plan chunkActualCounts files k → Leaf k)
    (hok : b.buildNodeMap ord memoryBudget cores (some plan) chunkActualCounts files =
      .ok (store, nodes))
    (hcalls : ∀ c ∈ b.buildCalls ord memoryBudget cores plan chunkActualCounts files, c ∈ calls) :
    StoreSizes b calls Leaf store := by
  obtain ⟨built, parents, hrun, hm, -⟩ := buildNodeMap_ok hok
  unfold buildCalls at hcalls
  simp only [hrun] at hcalls
  have hstart : StoreSizes b calls Leaf fun _ => [] := fun k => NodeSize.zero k
  have hbuilt := hstart.runTasks (fun i c st st' nodes hc hf hcs hst =>
    hst.buildChunkInMemory (hd.file_eq hun hc) (fun k hk => hleaf k ⟨i, c, hc, hk⟩) hf hcs) hrun
    fun c hc => hcalls c (List.mem_append_left _ hc)
  exact hbuilt.mergeChunkTops hm fun c hc => hcalls c (List.mem_append_right _ hc)

/-- A leaf of a build with more points than a leaf should have; it is at the depth cap or deeper,
and no listed node is below it. -/
structure DeepLeaf (Leaf : VoxelKey → Prop) (nodes : List (VoxelKey × ℕ))
    (k : VoxelKey) : Prop where
  leaf : Leaf k
  deep : chunkDepthCap ≤ k.level
  lowest : ∀ e ∈ nodes, ¬ IsProperAncestor k e.1

/-- The bounds on the number of points of a listed node. -/
structure SizedNode (b : OctreeBuilder F) (calls : List SampleCall) (Leaf : VoxelKey → Prop)
    (nodes : List (VoxelKey × ℕ)) (e : VoxelKey × ℕ) : Prop where
  cells : e.1.level < chunkDepthCap → e.2 ≤ gridCells
  few : e.1.level < chunkDepthCap → ¬ SampledInto b calls e.1 → e.2 ≤ maxLeafPoints
  aboveCells : gridCells < e.2 → DeepLeaf Leaf nodes e.1
  aboveFew : maxLeafPoints < e.2 → ¬ SampledInto b calls e.1 → DeepLeaf Leaf nodes e.1

lemma maxLeafPoints_le_gridCells : maxLeafPoints ≤ gridCells := by decide

/-- Below a leaf of a build nothing is listed. -/
lemma lowest_of_leaf {root : VoxelKey} {nodes : List (VoxelKey × ℕ)} {k : VoxelKey}
    (hanti : Antichain root Leaf) (hlist : Listing store nodes)
    (hsizes : StoreSizes b calls Leaf store) (hleaf : Leaf k) :
    ∀ e ∈ nodes, ¬ IsProperAncestor k e.1 := by
  intro e he hke
  obtain ⟨c, hc, hec⟩ := hlist.supported e.1 (List.mem_map_of_mem he)
  obtain ⟨j, hj, hcj⟩ := (hsizes c).above fun h0 => hc (stored_eq_zero.mp h0)
  have hkj : IsProperAncestor k j := hke.trans_isAncestor (hec.trans hcj)
  have heq := hanti.eq k j hleaf hj hkj.isAncestor
  subst heq
  exact absurd hkj.1 (lt_irrefl _)

/-- The sizes of a store bound the sizes of the listed nodes. -/
lemma StoreSizes.sizedNode {root : VoxelKey} {nodes : List (VoxelKey × ℕ)}
    (hsizes : StoreSizes b calls Leaf store) (hanti : Antichain root Leaf)
    (hlist : Listing store nodes) {e : VoxelKey × ℕ} (he : e ∈ nodes) :
    SizedNode b calls Leaf nodes e := by
  have hcount : e.2 = (stored store e.1).card := hlist.counts e he
  have hdeep : Leaf e.1 ∧ chunkDepthCap ≤ e.1.level → DeepLeaf Leaf nodes e.1 := fun h =>
    ⟨h.1, h.2, lowest_of_leaf hanti hlist hsizes h.1⟩
  have hfew := maxLeafPoints_le_gridCells
  rcases (hsizes e.1).size with hsmall | hleaf | ⟨hsampled, hcells⟩
  · rw [← hcount] at hsmall
    exact ⟨fun _ => hsmall.trans hfew, fun _ _ => hsmall,
      fun h => absurd (hsmall.trans hfew) (Nat.not_le.mpr h),
      fun h => absurd hsmall (Nat.not_le.mpr h)⟩
  · exact ⟨fun h => absurd hleaf.2 (Nat.not_le.mpr h), fun h => absurd hleaf.2 (Nat.not_le.mpr h),
      fun _ => hdeep hleaf, fun _ _ => hdeep hleaf⟩
  · rw [← hcount] at hcells
    exact ⟨fun _ => hcells, fun _ h => absurd hsampled h,
      fun h => absurd hcells (Nat.not_le.mpr h), fun _ h => absurd hsampled h⟩

/-- A listed node above the depth cap holds no more points than a sampling grid has cells, and no
more than a leaf should have unless sampling filled it; only deep leaves hold more. -/
theorem buildNodeMap_sized {grid : ℕ → UInt32} {gridDepth chunkTarget memoryBudget cores : ℕ}
    {chunkActualCounts : Option (List ℕ)} {files : ℕ → List RawPoint}
    {nodes : List (VoxelKey × ℕ)}
    (hd : Distributed b (planOf grid gridDepth chunkTarget).chunks files pts)
    (hok : b.buildNodeMap ord memoryBudget cores (some (planOf grid gridDepth chunkTarget))
      chunkActualCounts files = .ok (store, nodes)) :
    ∀ e ∈ nodes, SizedNode b
      (b.buildCalls ord memoryBudget cores (planOf grid gridDepth chunkTarget) chunkActualCounts
        files)
      (b.BuildLeaf ord memoryBudget cores (planOf grid gridDepth chunkTarget) chunkActualCounts
        files) nodes e := by
  obtain ⟨-, -, hlist⟩ := buildNodeMap_conserved hd hok
  have hsizes := StoreSizes.buildNodeMap hd planOf_unrelated (fun _ hk => hk) hok fun _ hc => hc
  have hanti : Antichain VoxelKey.root (b.BuildLeaf ord memoryBudget cores
      (planOf grid gridDepth chunkTarget) chunkActualCounts files) :=
    buildLeaf_antichain hd planOf_unrelated fun _ => planOf_below_root
  exact fun e he => hsizes.sizedNode hanti hlist he

end OctreeBuilder

/-- The build of the two piles lists nodes of bounded size. -/
theorem buildNodeMap_sized_sampled : ∃ store nodes, unitBuilder.buildNodeMap .listed (2 ^ 30) 1
    (some (planOf sampledGrid 1 1000000)) none sampledFiles = .ok (store, nodes) ∧
      ∀ e ∈ nodes, OctreeBuilder.SizedNode unitBuilder
        (unitBuilder.buildCalls .listed (2 ^ 30) 1 (planOf sampledGrid 1 1000000) none sampledFiles)
        (unitBuilder.BuildLeaf .listed (2 ^ 30) 1 (planOf sampledGrid 1 1000000) none sampledFiles)
        nodes e := by
  obtain ⟨store, nodes, hok⟩ := buildNodeMap_sampled
  exact ⟨store, nodes, hok, OctreeBuilder.buildNodeMap_sized distributed_sampled hok⟩

end CopcConverter
