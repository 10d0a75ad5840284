import CopcConverter.Foundations.LeafCut
import CopcConverter.Octree.BottomUp

/-!
# Building a subtree in memory

A subtree is built in memory from the points of a chunk, or from those of a sub-octant of a spilled
chunk.  The points are classified into leaves at one depth, which is estimated from their number;
`finish_subtree` splits oversized leaves and then takes the leaves up to the root of the subtree,
level by level, sampling the points of every parent from its children.

A subtree build leaves a finished subtree in the store: the nodes below its root satisfy whichever
invariant of pyramids is asked for, no other node is touched, and the nodes that are listed are
below the root and include all that hold points.  This is `Built`, which the spilled builds and the
merges establish as well, so that the later modules only speak of it.
-/

namespace CopcConverter

open LevelTree

variable {F : Type} [FloatArith F]

/-! ## The walk up -/

/-- What a build below `top` does to the store, and the nodes it lists. -/
structure Built {A : Addressing RawPoint VoxelKey} {cap : ℕ} {pts : Multiset RawPoint}
    {HandsUp : VoxelKey → List VoxelKey → (VoxelKey → Multiset RawPoint) → Multiset RawPoint → Prop}
    {W : WalkRules VoxelKey} (I : PyramidInvariant A cap pts HandsUp W) (top : VoxelKey)
    (store store' : Store) (listed : List VoxelKey) : Prop where
  holds : I.Holds top (stored store')
  frame : ∀ k, ¬ IsAncestor top k → store' k = store k
  under : ∀ k ∈ listed, IsAncestor top k
  complete : ∀ k, IsAncestor top k → store' k ≠ [] → k ∈ listed

section Loop

variable {b : OctreeBuilder F} {pts : Multiset RawPoint}
  {W : WalkRules VoxelKey}
  {I : PyramidInvariant b.addressing maxLeafPoints pts b.HandsUp W} {top : VoxelKey}
  {R : VoxelKey → Prop} {σ₀ : VoxelKey → Multiset RawPoint}

/-- The state of the loop before it produces the parents at level `d - 1`. -/
structure LoopState (I : PyramidInvariant b.addressing maxLeafPoints pts b.HandsUp W)
    (top : VoxelKey) (R : VoxelKey → Prop) (σ₀ : VoxelKey → Multiset RawPoint) (d : ℕ)
    (nodes : Nodes) : Prop where
  frontier : Frontier I top R σ₀ d (· ∈ nodes) (stored nodes.get)
  tight : nodes.Tight
  shallow : ∀ k ∈ nodes, k.level < d → R k
  below : ∀ k ∈ nodes, IsAncestor top k

/-- One round of the loop. -/
lemma LoopState.levelStep (hroots : Roots I top R σ₀) {d : ℕ} {nodes : Nodes}
    (h : LoopState I top R σ₀ (d + 1) nodes) (htop : top.level ≤ d) (ord : IterOrder) :
    LoopState I top R σ₀ d (b.levelStep ord nodes d) where
  frontier := by
    refine h.frontier.next hroots (b.levelStep_levelPass ord nodes d) (fun c hc hl => ?_)
      (fun c _ _ _ hc => ?_) htop
    · rcases b.mem_levelStep ord nodes d hc with hc | ⟨-, hc⟩
      · exact Or.inl (h.shallow c hc (by rw [← VoxelKey.level_eq, hl]; exact Nat.lt_succ_self d))
      · exact Or.inr hc
    · exact stored_eq_zero.mpr (BucketMap.get_eq_nil_of_notMem hc)
  tight := b.tight_levelStep ord d h.tight
  shallow k hk hl := by
    rcases b.mem_levelStep ord nodes d hk with hk | ⟨hd, -⟩
    · exact h.shallow k hk (by omega)
    · omega
  below _ := b.below_levelStep htop h.below

/-- The whole loop. -/
lemma LoopState.bottomUpLoop (hroots : Roots I top R σ₀) (ord : IterOrder) {min n : ℕ}
    {nodes : Nodes} (h : LoopState I top R σ₀ (min + n) nodes) (htop : top.level ≤ min) :
    LoopState I top R σ₀ min (b.bottomUpLoop ord min n nodes) := by
  induction n generalizing nodes with
  | zero => exact h
  | succ n ih => exact ih (h.levelStep hroots (htop.trans (Nat.le_add_right _ _)) _)

end Loop

/-- Writing every node of a map to the store. -/
lemma foldl_write_eq (nodes : Nodes) {keys : List VoxelKey} (store : Store) (k : VoxelKey) :
    keys.foldl (fun st k => st.write k (nodes.get k)) store k =
      if k ∈ keys then nodes.get k else store k := by
  induction keys generalizing store with
  | nil => simp
  | cons a keys ih =>
    rw [List.foldl_cons, ih]
    by_cases hk : k ∈ keys
    · simp [hk]
    · by_cases ha : k = a
      · simp [ha, Store.write]
      · simp [hk, ha, Store.write]

/-- The nodes of a map that are listed: those with points. -/
lemma mem_listing {ord : IterOrder} {nodes : Nodes} {k : VoxelKey} :
    k ∈ ((ord.list nodes.pairs).filterMap fun e =>
        if e.2.isEmpty then none else some (e.1, e.2.length)).map Prod.fst ↔
      k ∈ nodes ∧ nodes.get k ≠ [] := by
  simp only [List.mem_map, List.mem_filterMap, IterOrder.mem_list]
  constructor
  · rintro ⟨e, ⟨⟨k', l⟩, hmem, he⟩, rfl⟩
    obtain ⟨hk, hl⟩ := BucketMap.mem_pairs.mp hmem
    simp only at he
    split_ifs at he with hempty
    obtain rfl := Option.some.inj he
    exact ⟨hk, by rw [hl]; simpa using hempty⟩
  · rintro ⟨hk, hne⟩
    refine ⟨(k, (nodes.get k).length), ⟨(k, nodes.get k), BucketMap.mem_pairs.mpr ⟨hk, rfl⟩, ?_⟩,
      rfl⟩
    rw [if_neg (by simpa using hne)]

/-- No node is listed twice. -/
lemma nodup_listing (ord : IterOrder) (nodes : Nodes) :
    (((ord.list nodes.pairs).filterMap fun e =>
        if e.2.isEmpty then none else some (e.1, e.2.length)).map Prod.fst).Nodup := by
  have hkeys : ((ord.list nodes.pairs).map Prod.fst).Nodup := by
    rw [((ord.list_perm nodes.pairs).map Prod.fst).nodup_iff, BucketMap.map_fst_pairs]
    exact AList.keys_nodup nodes
  refine List.Sublist.nodup ?_ hkeys
  induction ord.list nodes.pairs with
  | nil => exact List.Sublist.refl _
  | cons e l ih =>
    rw [List.filterMap_cons]
    split_ifs
    · exact ih.cons _
    · exact ih.cons_cons _

namespace OctreeBuilder

variable (b : OctreeBuilder F)

/-- The nodes that `bottom_up_levels` leaves in the store. -/
lemma bottomUpLevels_store (ord : IterOrder) (store : Store) (nodes : Nodes) (max min : ℕ)
    (k : VoxelKey) : (b.bottomUpLevels ord store nodes max min).1 k =
      if k ∈ b.bottomUpLoop (ord.sub 0) min (max - min) nodes
      then BucketMap.get (b.bottomUpLoop (ord.sub 0) min (max - min) nodes) k else store k := by
  refine (foldl_write_eq _ _ _).trans ?_
  simp only [IterOrder.mem_list, AList.mem_keys]

/-- The nodes that `bottom_up_levels` lists. -/
lemma mem_bottomUpLevels {ord : IterOrder} {store : Store} {nodes : Nodes} {max min : ℕ}
    {k : VoxelKey} : k ∈ (b.bottomUpLevels ord store nodes max min).2.map Prod.fst ↔
      k ∈ b.bottomUpLoop (ord.sub 0) min (max - min) nodes ∧
        BucketMap.get (b.bottomUpLoop (ord.sub 0) min (max - min) nodes) k ≠ [] :=
  mem_listing

/-- Where the store was empty and below a cut, `bottom_up_levels` leaves the nodes of its loop. -/
lemma bottomUpLevels_get (ord : IterOrder) {store : Store} (nodes : Nodes) (max min : ℕ)
    {k : VoxelKey} (hk : store k = []) : (b.bottomUpLevels ord store nodes max min).1 k =
      BucketMap.get (b.bottomUpLoop (ord.sub 0) min (max - min) nodes) k := by
  rw [b.bottomUpLevels_store]
  split_ifs with hmem
  · rfl
  · rw [hk, BucketMap.get_eq_nil_of_notMem hmem]

/-- The loop may start from a cut. -/
lemma loopState_of_cut {pts : Multiset RawPoint} {W : WalkRules VoxelKey}
    {I : PyramidInvariant b.addressing maxLeafPoints pts b.HandsUp W} {root : VoxelKey}
    {leaves : Nodes} {maxDepth : ℕ} (hcut : LeafCut b.addressing pts root leaves)
    (hroots : Roots I root (· ∈ leaves) (stored leaves.get))
    (hdepth : ∀ k ∈ leaves, k.level ≤ maxDepth) (hroot : root.level ≤ maxDepth) :
    LoopState I root (· ∈ leaves) (stored leaves.get) (root.level + (maxDepth - root.level))
      leaves := by
  rw [Nat.add_sub_cancel' hroot]
  exact ⟨.start hroots hdepth (fun c hc _ => hc) (fun c hc _ hnc => absurd hc hnc),
    hcut.tight, fun k hk _ => hk, hcut.below⟩

/-- Taking a cut of the subtree of `root` up to it builds the subtree. -/
theorem bottomUpLevels_built {pts : Multiset RawPoint} {W : WalkRules VoxelKey}
    {I : PyramidInvariant b.addressing maxLeafPoints pts b.HandsUp W} (ord : IterOrder)
    {store : Store} {root : VoxelKey} {leaves : Nodes} {maxDepth : ℕ}
    (hcut : LeafCut b.addressing pts root leaves)
    (hroots : Roots I root (· ∈ leaves) (stored leaves.get))
    (hdepth : ∀ k ∈ leaves, k.level ≤ maxDepth) (hroot : root.level ≤ maxDepth)
    (hempty : ∀ k, IsAncestor root k → store k = []) :
    Built I root store (b.bottomUpLevels ord store leaves maxDepth root.level).1
      ((b.bottomUpLevels ord store leaves maxDepth root.level).2.map Prod.fst) := by
  have hend := (b.loopState_of_cut hcut hroots hdepth hroot).bottomUpLoop hroots (ord.sub 0) le_rfl
  set nodes := b.bottomUpLoop (ord.sub 0) root.level (maxDepth - root.level) leaves
  have hstore : ∀ k, (b.bottomUpLevels ord store leaves maxDepth root.level).1 k =
      if k ∈ nodes then nodes.get k else store k :=
    b.bottomUpLevels_store ord store leaves maxDepth root.level
  have hunder : ∀ k, IsAncestor root k →
      (b.bottomUpLevels ord store leaves maxDepth root.level).1 k = nodes.get k := fun k hk =>
    b.bottomUpLevels_get ord leaves maxDepth root.level (hempty k hk)
  refine ⟨?_, fun k hk => ?_, fun k hk => ?_, fun k hk hne => ?_⟩
  · refine I.congr (fun k hk => congrArg Multiset.ofList (hunder k hk)) ?_
    exact hend.frontier.holds_top hcut.below
  · rw [hstore, if_neg fun hmem => hk (hend.below k hmem)]
  · exact hend.below k (b.mem_bottomUpLevels.mp hk).1
  · rw [hunder k hk] at hne
    exact b.mem_bottomUpLevels.mpr ⟨BucketMap.mem_of_get_ne_nil hne, hne⟩

end OctreeBuilder

/-! ## Adaptive leaf subdivision -/

/-- Depth at which subdivision gives up and accepts the residual overflow. -/
def chunkDepthCap : ℕ := 20

/-- The loop of `chunk_local_extra_levels`, from depth `d` on. -/
def extraLevelsFrom (F : Type) [FloatArith F] (pointCount : ℕ) : ℕ → ℕ → ℕ
  | 0, d => d
  | fuel + 1, d =>
    if FloatArith.gt (FloatArith.lit (F := F) pointCount / FloatArith.lit (8 ^ d))
        (FloatArith.lit maxLeafPoints) then
      if d + 1 > 12 then d + 1 else extraLevelsFrom F pointCount fuel (d + 1)
    else d

/-- How many extra octree levels a chunk needs to subdivide internally so its leaves hold about
`maxLeafPoints` on average. -/
def chunkLocalExtraLevels (F : Type) [FloatArith F] (pointCount : ℕ) : ℕ :=
  if pointCount ≤ maxLeafPoints then 0 else extraLevelsFrom F pointCount 13 0

namespace OctreeBuilder

variable (b : OctreeBuilder F)

/-- Classify one point into its leaf voxel and push it there. -/
def pushIntoLeaf (leaves : Nodes) (raw : RawPoint) (leafDepth : ℕ) : Nodes :=
  leaves.push (b.keyOf raw leafDepth) raw

/-- The leaves with more than `maxLeafPoints` points. -/
def oversized (ord : IterOrder) (leaves : Nodes) : List VoxelKey :=
  (ord.list leaves.keys).filter fun k => maxLeafPoints < (leaves.get k).length

/-- Replace one oversized leaf by leaves one level deeper, tracking the deepest level. -/
def splitOversized (s : Nodes × ℕ) (key : VoxelKey) : Nodes × ℕ :=
  let newLevel := key.level + 1
  ((s.1.get key).foldl (fun leaves raw => b.pushIntoLeaf leaves raw newLevel) (s.1.erase key),
    if newLevel > s.2 then newLevel else s.2)

/-- The subdivision loop: the leaves and the effective maximal depth. -/
def subdivide (ord : IterOrder) : ℕ → Nodes × ℕ → Nodes × ℕ
  | 0, s => s
  | fuel + 1, s =>
    let large := oversized (ord.sub fuel) s.1
    if large.isEmpty then s
    else if large.any fun k => chunkDepthCap ≤ k.level then s
    else subdivide ord fuel (large.foldl b.splitOversized s)

/-- Shared subtree finisher: adaptive leaf subdivision and bottom-up grid-sample down to the level
of `root`. -/
def finishSubtree (ord : IterOrder) (store : Store) (root : VoxelKey) (leaves : Nodes)
    (leafDepth : ℕ) : Store × List (VoxelKey × ℕ) :=
  if leaves.keys.isEmpty then (store, [])
  else
    let s := b.subdivide (ord.sub 0) (chunkDepthCap + 1) (leaves, leafDepth)
    b.bottomUpLevels (ord.sub 1) store s.1 s.2 root.level

/-- The `grid_sample` calls of `finish_subtree`. -/
def finishCalls (ord : IterOrder) (root : VoxelKey) (leaves : Nodes) (leafDepth : ℕ) :
    List SampleCall :=
  if leaves.keys.isEmpty then []
  else
    let s := b.subdivide (ord.sub 0) (chunkDepthCap + 1) (leaves, leafDepth)
    b.bottomUpCalls ((ord.sub 1).sub 0) root.level (s.2 - root.level) s.1

/-- The leaves of some points at one depth. -/
def leavesAt (points : List RawPoint) (leafDepth : ℕ) : Nodes :=
  points.foldl (fun leaves raw => b.pushIntoLeaf leaves raw leafDepth) ∅

/-- Build the sub-octree rooted at `root` from a list of points; `estPoints` seeds the initial leaf
depth. -/
def buildSubtree (ord : IterOrder) (store : Store) (root : VoxelKey) (points : List RawPoint)
    (estPoints : ℕ) : Store × List (VoxelKey × ℕ) :=
  let leafDepth := root.level + chunkLocalExtraLevels F estPoints
  b.finishSubtree ord store root (b.leavesAt points leafDepth) leafDepth

/-- The `grid_sample` calls of a subtree build. -/
def subtreeCalls (ord : IterOrder) (root : VoxelKey) (points : List RawPoint) (estPoints : ℕ) :
    List SampleCall :=
  let leafDepth := root.level + chunkLocalExtraLevels F estPoints
  b.finishCalls ord root (b.leavesAt points leafDepth) leafDepth

/-! ## The subdivision loop -/

/-- Splitting an oversized leaf replaces it by its children. -/
lemma splitOversized_fst (s : Nodes × ℕ) (key : VoxelKey) :
    (b.splitOversized s key).1 = splitLeaf b.addressing s.1 key := rfl

/-- The leaves of the loop cut the subtree of `root`, and none is deeper than the tracked depth. -/
structure Leaves (pts : Multiset RawPoint) (root : VoxelKey) (s : Nodes × ℕ) : Prop where
  cut : LeafCut b.addressing pts root s.1
  depth : ∀ k ∈ s.1, k.level ≤ s.2
  root_le : root.level ≤ s.2

variable {b} {pts : Multiset RawPoint} {root : VoxelKey} {s : Nodes × ℕ}

lemma mem_splitOversized {key k : VoxelKey} (h : k ∈ (b.splitOversized s key).1) :
    (k ≠ key ∧ k ∈ s.1) ∨ k.level = key.level + 1 := by
  rw [splitOversized_fst, splitLeaf, BucketMap.mem_pushAll, AList.mem_erase] at h
  rcases h with h | ⟨p, -, rfl⟩
  · exact Or.inl h
  · exact Or.inr rfl

lemma Leaves.splitOversized (h : b.Leaves pts root s) (key : VoxelKey) :
    b.Leaves pts root (b.splitOversized s key) := by
  have hmax : (b.splitOversized s key).2 = max s.2 (key.level + 1) := by
    change (if key.level + 1 > s.2 then key.level + 1 else s.2) = _
    split_ifs <;> omega
  refine ⟨?_, fun k hk => ?_, ?_⟩
  · by_cases hkey : key ∈ s.1
    · exact h.cut.split hkey
    · -- a key that is not a leaf has no points to move
      have hsame : (b.splitOversized s key).1 = s.1 := by
        rw [splitOversized_fst, splitLeaf, BucketMap.get_eq_nil_of_notMem hkey]
        apply AList.ext
        change List.kerase key s.1.entries = s.1.entries
        exact List.kerase_of_notMem_keys hkey
      rw [hsame]
      exact h.cut
  · rw [hmax]
    rcases mem_splitOversized hk with ⟨-, hk⟩ | hk
    · exact (h.depth k hk).trans (le_max_left _ _)
    · exact hk.le.trans (le_max_right _ _)
  · rw [hmax]
    exact h.root_le.trans (le_max_left _ _)

lemma Leaves.foldl (h : b.Leaves pts root s) (keys : List VoxelKey) :
    b.Leaves pts root (keys.foldl b.splitOversized s) := by
  induction keys generalizing s with
  | nil => exact h
  | cons k keys ih => exact ih (h.splitOversized k)

/-- Subdividing keeps a cut. -/
lemma Leaves.subdivide (h : b.Leaves pts root s) (ord : IterOrder) (fuel : ℕ) :
    b.Leaves pts root (b.subdivide ord fuel s) := by
  induction fuel generalizing s with
  | zero => exact h
  | succ fuel ih =>
    rw [OctreeBuilder.subdivide]
    split_ifs
    · exact h
    · exact h
    · exact ih (h.foldl _)

/-- Points inside the subtree of `root`, classified at one depth, are leaves of it. -/
lemma leaves_leavesAt {points : List RawPoint} {leafDepth : ℕ}
    (hpts : (↑points : Multiset RawPoint) = inside b.addressing pts root)
    (hroot : root.level ≤ leafDepth) :
    b.Leaves pts root (b.leavesAt points leafDepth, leafDepth) := by
  refine ⟨LeafCut.ofLevel hpts hroot, fun k hk => ?_, hroot⟩
  rcases BucketMap.mem_pushAll.mp hk with hk | ⟨p, -, rfl⟩
  · exact absurd hk (AList.notMem_empty k)
  · exact le_rfl

/-- A leaf that is larger than `maxLeafPoints`. -/
def IsOversized (leaves : Nodes) (k : VoxelKey) : Prop :=
  k ∈ leaves ∧ maxLeafPoints < (leaves.get k).length

lemma mem_oversized {ord : IterOrder} {leaves : Nodes} {k : VoxelKey} :
    k ∈ oversized ord leaves ↔ IsOversized leaves k := by
  rw [oversized, List.mem_filter, IterOrder.mem_list, ← AList.mem_keys, decide_eq_true_eq]
  rfl

lemma mem_foldl_splitOversized {keys : List VoxelKey} {k : VoxelKey}
    (h : k ∈ (keys.foldl b.splitOversized s).1) :
    (k ∈ s.1 ∧ k ∉ keys) ∨ ∃ j ∈ keys, k.level = j.level + 1 := by
  induction keys generalizing s with
  | nil => exact Or.inl ⟨h, List.not_mem_nil⟩
  | cons a keys ih =>
    rcases ih h with ⟨hk, hkeys⟩ | ⟨j, hj, hl⟩
    · rcases mem_splitOversized hk with ⟨hne, hk⟩ | hl
      · exact Or.inl ⟨hk, fun hmem => (List.mem_cons.mp hmem).elim hne hkeys⟩
      · exact Or.inr ⟨a, List.mem_cons_self, hl⟩
    · exact Or.inr ⟨j, List.mem_cons_of_mem _ hj, hl⟩

/-- After a round, an oversized leaf is one level below a leaf that was oversized before. -/
lemma Leaves.isOversized_foldl (h : b.Leaves pts root s) {keys : List VoxelKey} {k : VoxelKey}
    (hkeys : ∀ k, IsOversized s.1 k → k ∈ keys)
    (hk : IsOversized (keys.foldl b.splitOversized s).1 k) :
    ∃ j ∈ keys, k.level = j.level + 1 := by
  refine (mem_foldl_splitOversized hk.1).resolve_left fun ⟨hks, hnot⟩ => hnot (hkeys k ⟨hks, ?_⟩)
  -- a leaf that stays keeps exactly the points of its voxel
  have hbefore := congrArg Multiset.card (h.cut.exact k hks)
  have hafter := congrArg Multiset.card ((h.foldl keys).cut.exact k hk.1)
  rw [Multiset.coe_card] at hbefore hafter
  have := hk.2
  omega

/-- The loop stops here: no leaf is oversized, or an oversized leaf is at the depth cap. -/
def Settled (s : Nodes × ℕ) : Prop :=
  (∀ k, ¬ IsOversized s.1 k) ∨ ∃ k, IsOversized s.1 k ∧ chunkDepthCap ≤ k.level

/-- One more unit of fuel is one round, unless the loop stops. -/
lemma subdivide_succ (ord : IterOrder) (fuel : ℕ) (s : Nodes × ℕ) :
    (Settled s ∧ b.subdivide ord (fuel + 1) s = s) ∨
      ((∃ k, IsOversized s.1 k) ∧ (∀ k, IsOversized s.1 k → k.level < chunkDepthCap) ∧
        b.subdivide ord (fuel + 1) s =
          b.subdivide ord fuel ((oversized (ord.sub fuel) s.1).foldl b.splitOversized s)) := by
  rw [subdivide]
  split_ifs with hnone hcap
  · refine Or.inl ⟨Or.inl fun k hk => ?_, rfl⟩
    rw [← mem_oversized, List.isEmpty_iff.mp hnone] at hk
    cases hk
  · obtain ⟨k, hk, hl⟩ := List.any_eq_true.mp hcap
    exact Or.inl ⟨Or.inr ⟨k, mem_oversized.mp hk, by simpa using hl⟩, rfl⟩
  · refine Or.inr ⟨?_, fun k hk => ?_, rfl⟩
    · obtain ⟨k, hk⟩ := List.exists_mem_of_ne_nil _ (mt List.isEmpty_iff.mpr hnone)
      exact ⟨k, mem_oversized.mp hk⟩
    · by_contra hl
      exact hcap (List.any_eq_true.mpr ⟨k, mem_oversized.mpr hk, by simpa using hl⟩)

/-- The subdivision loop stops because no leaf is oversized or one is at the depth cap, and never
because it runs out of rounds. -/
theorem Leaves.subdivide_settled (h : b.Leaves pts root s) (ord : IterOrder) {fuel : ℕ}
    (hfuel : chunkDepthCap < fuel) : Settled (b.subdivide ord fuel s) := by
  have hrounds : ∀ n s, b.Leaves pts root s →
      (∀ k, IsOversized s.1 k → chunkDepthCap ≤ k.level + n) →
      Settled (b.subdivide ord (n + 1) s) := by
    intro n
    induction n with
    | zero =>
      intro s _ hdeep
      rcases subdivide_succ (b := b) ord 0 s with ⟨hsettled, heq⟩ | ⟨⟨k, hk⟩, hshallow, -⟩
      · rw [heq]
        exact hsettled
      · have hle := hdeep k hk
        have hlt := hshallow k hk
        omega
    | succ n ih =>
      intro s hs hdeep
      rcases subdivide_succ (b := b) ord (n + 1) s with ⟨hsettled, heq⟩ | ⟨-, -, heq⟩
      · rw [heq]
        exact hsettled
      · rw [heq]
        refine ih _ (hs.foldl _) fun k hk => ?_
        obtain ⟨j, hj, hl⟩ := hs.isOversized_foldl (fun k hk => mem_oversized.mpr hk) hk
        have hle := hdeep j (mem_oversized.mp hj)
        omega
  obtain ⟨n, rfl⟩ := Nat.exists_eq_succ_of_ne_zero (Nat.ne_of_gt ((Nat.zero_le _).trans_lt hfuel))
  exact hrounds n s h fun k _ => (Nat.lt_succ_iff.mp hfuel).trans (Nat.le_add_left _ _)

/-- The oversized leaves are at the tracked depth, and so is some leaf if there is one at all. -/
structure AtFront (s : Nodes × ℕ) : Prop where
  oversized : ∀ k, IsOversized s.1 k → k.level = s.2
  attained : (∃ k, k ∈ s.1) → ∃ k ∈ s.1, k.level = s.2

/-- Splitting leaves of the tracked depth makes it one level deeper. -/
lemma foldl_splitOversized_snd {keys : List VoxelKey} (hne : keys ≠ [])
    (hkeys : ∀ k ∈ keys, k.level = s.2) : (keys.foldl b.splitOversized s).2 = s.2 + 1 := by
  have hsplit : ∀ (t : Nodes × ℕ) (key : VoxelKey),
      (b.splitOversized t key).2 = max t.2 (key.level + 1) := by
    intro t key
    change (if key.level + 1 > t.2 then key.level + 1 else t.2) = _
    split_ifs <;> omega
  have hstay : ∀ (ks : List VoxelKey) (t : Nodes × ℕ), t.2 = s.2 + 1 →
      (∀ k ∈ ks, k.level = s.2) → (ks.foldl b.splitOversized t).2 = s.2 + 1 := by
    intro ks
    induction ks with
    | nil => exact fun t ht _ => ht
    | cons k ks ih =>
      intro t ht hks
      refine ih _ ?_ fun j hj => hks j (List.mem_cons_of_mem k hj)
      rw [hsplit, ht, hks k List.mem_cons_self, max_self]
  obtain ⟨k, ks, rfl⟩ := List.exists_cons_of_ne_nil hne
  refine hstay ks _ ?_ fun j hj => hkeys j (List.mem_cons_of_mem k hj)
  rw [hsplit, hkeys k List.mem_cons_self]
  omega

/-- A round keeps the oversized leaves at the deepest level. -/
lemma AtFront.round (h : AtFront s) (hs : b.Leaves pts root s) {keys : List VoxelKey}
    (hkeys : ∀ k, k ∈ keys ↔ IsOversized s.1 k) (hne : keys ≠ []) :
    AtFront (keys.foldl b.splitOversized s) := by
  have hlevel : ∀ k ∈ keys, k.level = s.2 := fun k hk => h.oversized k ((hkeys k).mp hk)
  have hdepth := foldl_splitOversized_snd (b := b) hne hlevel
  refine ⟨fun k hk => ?_, fun _ => ?_⟩
  · obtain ⟨j, hj, hl⟩ := hs.isOversized_foldl (fun k hk => (hkeys k).mpr hk) hk
    rw [hdepth, hl, hlevel j hj]
  · -- the points of a leaf that was split are in leaves one level deeper
    obtain ⟨j, hj⟩ := List.exists_mem_of_ne_nil keys hne
    obtain ⟨hjs, hlarge⟩ := (hkeys j).mp hj
    obtain ⟨p, hp⟩ := List.exists_mem_of_ne_nil _ (hs.cut.tight j hjs)
    have hin : p ∈ pts ∧ b.addressing.Inside p j := by
      rw [← mem_inside, ← hs.cut.exact j hjs]
      exact hp
    obtain ⟨k, hk, hpk⟩ := (hs.foldl keys).cut.covers p hin.1 (hin.2.mono (hs.cut.below j hjs))
    refine ⟨k, hk, ?_⟩
    rcases mem_foldl_splitOversized hk with ⟨hks, hnot⟩ | ⟨i, hi, hl⟩
    · exact absurd (hs.cut.eq_of_inside hks hjs hpk hin.2 ▸ hj) hnot
    · rw [hdepth, hl, hlevel i hi]

/-- Subdividing keeps the oversized leaves at the deepest level. -/
lemma AtFront.subdivide (h : AtFront s) (hs : b.Leaves pts root s) (ord : IterOrder) (fuel : ℕ) :
    AtFront (b.subdivide ord fuel s) := by
  induction fuel generalizing s with
  | zero => exact h
  | succ fuel ih =>
    rcases subdivide_succ (b := b) ord fuel s with ⟨-, heq⟩ | ⟨⟨k, hk⟩, -, heq⟩
    · rw [heq]
      exact h
    · rw [heq]
      refine ih (h.round hs (fun k => mem_oversized) ?_) (hs.foldl _)
      exact List.ne_nil_of_mem (mem_oversized.mpr hk)

/-- Leaves at one level. -/
lemma atFront_leavesAt (points : List RawPoint) (leafDepth : ℕ) :
    AtFront (b.leavesAt points leafDepth, leafDepth) := by
  have hlevel : ∀ k ∈ b.leavesAt points leafDepth, k.level = leafDepth := by
    intro k hk
    rcases BucketMap.mem_pushAll.mp hk with hk | ⟨p, -, rfl⟩
    · exact absurd hk (AList.notMem_empty k)
    · rfl
  exact ⟨fun k hk => hlevel k hk.1, fun ⟨k, hk⟩ => ⟨k, hk, hlevel k hk⟩⟩

/-- A leaf that is still oversized after the loop is at the depth cap or deeper. -/
lemma AtFront.capped (h : AtFront s) (hs : b.Leaves pts root s) (ord : IterOrder) {fuel : ℕ}
    (hfuel : chunkDepthCap < fuel) {k : VoxelKey} (hk : IsOversized (b.subdivide ord fuel s).1 k) :
    chunkDepthCap ≤ k.level := by
  -- all oversized leaves are at one level, and one of them is at the cap
  have hfront := h.subdivide hs ord fuel
  rcases hs.subdivide_settled ord hfuel with hnone | ⟨j, hj, hcap⟩
  · exact absurd hk (hnone k)
  · rwa [hfront.oversized k hk, ← hfront.oversized j hj]

/-- The loop makes the tracked depth no shallower, and no deeper than the cap unless it was. -/
lemma subdivide_snd (ord : IterOrder) (fuel : ℕ) (s : Nodes × ℕ) (hfront : AtFront s)
    (h : b.Leaves pts root s) : s.2 ≤ (b.subdivide ord fuel s).2 ∧
      (b.subdivide ord fuel s).2 ≤ max chunkDepthCap s.2 := by
  induction fuel generalizing s with
  | zero => exact ⟨le_rfl, le_max_right _ _⟩
  | succ fuel ih =>
    rcases subdivide_succ (b := b) ord fuel s with ⟨-, heq⟩ | ⟨⟨k, hk⟩, hshallow, heq⟩
    · rw [heq]
      exact ⟨le_rfl, le_max_right _ _⟩
    · have hkeys : ∀ j, j ∈ oversized (ord.sub fuel) s.1 ↔ IsOversized s.1 j := fun j =>
        mem_oversized
      have hne := List.ne_nil_of_mem ((hkeys k).mpr hk)
      have hnext := foldl_splitOversized_snd (b := b) hne fun j hj =>
        hfront.oversized j ((hkeys j).mp hj)
      have hcap : s.2 < chunkDepthCap := hfront.oversized k hk ▸ hshallow k hk
      rw [heq]
      obtain ⟨hlow, hhigh⟩ := ih _ (hfront.round h hkeys hne) (h.foldl _)
      rw [hnext] at hlow hhigh
      omega

/-! ## Subtree builds -/

/-- The level from which on the leaves of a subtree build are not split, for a subtree at a level
whose first leaves are as deep as an estimated number of points takes them. -/
def leafFloor (F : Type) [FloatArith F] (rootLevel estPoints : ℕ) : ℕ :=
  max chunkDepthCap (rootLevel + chunkLocalExtraLevels F estPoints)

/-- The leaves that the subdivision loop ends with are roots from which a walk up can start. -/
lemma Leaves.roots {W : WalkRules VoxelKey}
    (I : PyramidInvariant b.addressing maxLeafPoints pts b.HandsUp W) (ord : IterOrder)
    (h : b.Leaves pts root s) (hfront : AtFront s)
    (hallow : W.Allow b.addressing maxLeafPoints pts root fun k =>
      max chunkDepthCap s.2 ≤ k.level) :
    Roots I root (· ∈ (b.subdivide ord (chunkDepthCap + 1) s).1)
      (stored (BucketMap.get (b.subdivide ord (chunkDepthCap + 1) s).1)) := by
  have hs := h.subdivide ord (chunkDepthCap + 1)
  obtain ⟨hlow, hhigh⟩ := subdivide_snd ord (chunkDepthCap + 1) s hfront h
  refine hs.cut.roots I (fun k hk => hallow.leaf k (hs.cut.below k hk) ?_)
    fun q hq hne habove => hallow.inner q hq hne fun hdeep => ?_
  · rcases Nat.lt_or_ge maxLeafPoints (inside b.addressing pts k).card with hmany | hfew
    · -- a leaf that is still oversized is at the cap, and no shallower than the first leaves
      have hover : IsOversized (b.subdivide ord (chunkDepthCap + 1) s).1 k := by
        refine ⟨hk, ?_⟩
        rwa [← hs.cut.exact k hk, Multiset.coe_card] at hmany
      have hcap := hfront.capped h ord (Nat.lt_succ_self _) hover
      have hlevel := (hfront.subdivide h ord (chunkDepthCap + 1)).oversized k hover
      exact Or.inr (max_le hcap (hlevel ▸ hlow))
    · exact Or.inl hfew
  · -- a voxel with points is above one of the leaves unless it is below one
    obtain ⟨p, hp⟩ := Multiset.exists_mem_of_ne_zero hne
    obtain ⟨hpts, hin⟩ := mem_inside.mp hp
    obtain ⟨k, hk, hpk⟩ := hs.cut.covers p hpts (hin.mono hq)
    have hlevel := hs.depth k hk
    refine habove k hk (hpk.isAncestor hin ?_)
    rw [VoxelKey.level_eq, VoxelKey.level_eq]
    omega

/-- `finish_subtree` builds the subtree its leaves cut. -/
theorem finishSubtree_built {W : WalkRules VoxelKey}
    (I : PyramidInvariant b.addressing maxLeafPoints pts b.HandsUp W) (ord : IterOrder)
    {store : Store} (h : b.Leaves pts root s) (hfront : AtFront s)
    (hallow : W.Allow b.addressing maxLeafPoints pts root fun k =>
      max chunkDepthCap s.2 ≤ k.level) (hempty : ∀ k, IsAncestor root k → store k = []) :
    Built I root store (b.finishSubtree ord store root s.1 s.2).1
      ((b.finishSubtree ord store root s.1 s.2).2.map Prod.fst) := by
  unfold finishSubtree
  split_ifs with hnil
  · -- without leaves there is no point in the subtree
    have hnone : ∀ k, k ∉ s.1 := fun k hk => by
      rw [AList.mem_keys, List.isEmpty_iff.mp hnil] at hk
      cases hk
    have hin : inside b.addressing pts root = 0 := by
      refine Multiset.eq_zero_of_forall_notMem fun p hp => ?_
      obtain ⟨k, hk, -⟩ := h.cut.covers p (mem_inside.mp hp).1 (mem_inside.mp hp).2
      exact hnone k hk
    refine ⟨I.leaf (fun hne => absurd hin hne) ?_ fun k hk =>
      stored_eq_zero.mpr (hempty k hk.isAncestor), fun _ _ => rfl,
      fun k hk => absurd hk List.not_mem_nil, fun k hk hne => absurd (hempty k hk) hne⟩
    rw [hin, stored_eq_zero]
    exact hempty root (IsAncestor.refl root)
  · have hs := h.subdivide (ord.sub 0) (chunkDepthCap + 1)
    exact b.bottomUpLevels_built (ord.sub 1) hs.cut (h.roots I (ord.sub 0) hfront hallow) hs.depth
      hs.root_le hempty

/-- The build of a subtree that has leaves. -/
lemma buildSubtree_eq (b : OctreeBuilder F) (ord : IterOrder) (store : Store) (root : VoxelKey)
    {points : List RawPoint} {estPoints : ℕ}
    (h : ¬ (b.leavesAt points (root.level + chunkLocalExtraLevels F estPoints)).keys.isEmpty) :
    b.buildSubtree ord store root points estPoints =
      let s := b.subdivide (ord.sub 0) (chunkDepthCap + 1)
        (b.leavesAt points (root.level + chunkLocalExtraLevels F estPoints),
          root.level + chunkLocalExtraLevels F estPoints)
      b.bottomUpLevels (ord.sub 1) store s.1 s.2 root.level := if_neg h

/-- Building a subtree from exactly its points. -/
theorem buildSubtree_built {W : WalkRules VoxelKey}
    (I : PyramidInvariant b.addressing maxLeafPoints pts b.HandsUp W) (ord : IterOrder)
    {store : Store} {points : List RawPoint}
    (hpts : (↑points : Multiset RawPoint) = inside b.addressing pts root) (estPoints : ℕ)
    (hallow : W.Allow b.addressing maxLeafPoints pts root fun k =>
      leafFloor F root.level estPoints ≤ k.level)
    (hempty : ∀ k, IsAncestor root k → store k = []) :
    Built I root store (b.buildSubtree ord store root points estPoints).1
      ((b.buildSubtree ord store root points estPoints).2.map Prod.fst) :=
  finishSubtree_built I ord (leaves_leavesAt hpts (Nat.le_add_right _ _))
    (atFront_leavesAt points _) hallow hempty

end OctreeBuilder

end CopcConverter
