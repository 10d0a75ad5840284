import CopcConverter.Chunking.MergeSparseCells
import CopcConverter.Foundations.Footprint
import CopcConverter.Octree.Subtrees

/-!
# Building one chunk

The memory budget is divided into slots, one for each chunk that is built at a time.  A chunk that
fits its slot is built as one subtree.  A larger one is spilled: a split level is chosen, its points
are routed into one file for every sub-octant at that level, every sub-octant is built from its own
file, and the sub-octant roots are merged up to the chunk root.

Either way the chunk's subtree is finished and nothing outside of it is touched.  For a spilled
chunk this comes from three things: the files hold the points of the sub-octants, the sub-octants
are unrelated, and a merge of finished subtrees is one.  The numbers of the spill files are not
bounded here; the source keeps them in `u32`.
-/

namespace CopcConverter

open LevelTree

variable {F : Type} [FloatArith F]

/-! ## Budgets -/

/-- Estimated peak working-set bytes per point during a single chunk's in-memory build. -/
def perChunkBytesPerPointBuild : ℕ := 600

/-- Smallest per-chunk in-memory budget the working-set pool is split into. -/
def minBuildSlotBytes : ℕ := 512 * 1024 * 1024

/-- Hard cap on concurrent build slots. -/
def maxBuildConcurrency : ℕ := 16

/-- Compute the build concurrency and the per-chunk in-memory budget. -/
def buildConcurrencyAndBudget (F : Type) [FloatArith F] (memoryBudget cores : ℕ) : ℕ × ℕ :=
  let pool := FloatArith.toU64 (FloatArith.lit (F := F) memoryBudget * FloatArith.lit (4 / 10))
  let byMemory := max (pool / minBuildSlotBytes) 1
  let concurrency := min (min byMemory (max cores 1)) maxBuildConcurrency
  let minPerChunk := saturatingMul maxLeafPoints perChunkBytesPerPointBuild
  (concurrency, max (pool / concurrency) minPerChunk)

/-! ## The split level -/

/-- Numbers counted under voxel keys. -/
abbrev KeyCounts := AList fun _ : VoxelKey => ℕ

/-- Add to the number under a key. -/
def KeyCounts.add (m : KeyCounts) (k : VoxelKey) (n : ℕ) : KeyCounts :=
  m.insert k ((m.lookup k).getD 0 + n)

/-- Deepest extra depth below the chunk root at which a chunk may be split. -/
def spillDepthCap : ℕ := 12

/-- The densest sub-octant at a level, from the counts at a deeper level. -/
def densestAt (ord : IterOrder) (deepCounts : KeyCounts) (deepest level : ℕ) : ℕ :=
  let shift := deepest - level
  let levelCounts := (ord.list deepCounts.entries).foldl (fun m e =>
    KeyCounts.add m ⟨level, e.1.x >>> shift, e.1.y >>> shift, e.1.z >>> shift⟩ e.2) ∅
  (levelCounts.entries.map fun e => e.2).foldl max 0

/-- Walk from the level `s` below the root to the deepest candidate, `n` levels further down, and
stop at the first level that fits. -/
def splitLevelFrom (densest : ℕ → ℕ) (rootLevel maxPoints : ℕ) : ℕ → ℕ → ℕ × ℕ
  | 0, s => (rootLevel + s, densest (rootLevel + s))
  | n + 1, s =>
    if densest (rootLevel + s) ≤ maxPoints then (rootLevel + s, densest (rootLevel + s))
    else splitLevelFrom densest rootLevel maxPoints n (s + 1)

/-! ## Routing into sub-octant files -/

/-- The state of the routing pass: the sub-octants with their numbers, the spill files and the
points that wait to be appended to them. -/
structure SpillState where
  subIndex : AList fun _ : VoxelKey => ℕ
  subRoots : List VoxelKey
  files : ℕ → List RawPoint
  pending : BucketMap ℕ RawPoint
  pendingPoints : ℕ

/-- Append every pending group to its file. -/
def SpillState.drain (ord : IterOrder) (s : SpillState) : SpillState :=
  { s with
    files := (ord.list s.pending.pairs).foldl
      (fun files e => Function.update files e.1 (files e.1 ++ e.2)) s.files
    pending := ∅
    pendingPoints := 0 }

/-- The number of a sub-octant, which gets the next one when it is new. -/
def SpillState.indexOf (s : SpillState) (sub : VoxelKey) : ℕ × SpillState :=
  match s.subIndex.lookup sub with
  | some i => (i, s)
  | none =>
    let i := s.subRoots.length
    (i, { s with subIndex := s.subIndex.insert sub i, subRoots := s.subRoots ++ [sub] })

/-- Queue one point for the file of its sub-octant. -/
def SpillState.enqueue (s : SpillState) (sub : VoxelKey) (raw : RawPoint) : SpillState :=
  let r := s.indexOf sub
  { r.2 with
    pending := r.2.pending.push r.1 raw
    pendingPoints := r.2.pendingPoints + 1 }

namespace OctreeBuilder

variable (b : OctreeBuilder F)

/-- Choose the shallowest sub-octant split level whose densest sub-octant holds at most `maxPoints`
points. -/
def chooseSplitLevel (ord : IterOrder) (points : List RawPoint) (chunkRoot : VoxelKey)
    (maxPoints : ℕ) : ℕ × ℕ :=
  let deepest := chunkRoot.level + spillDepthCap
  let deepCounts := points.foldl (fun m raw => KeyCounts.add m (b.keyOf raw deepest) 1) ∅
  if deepCounts.entries.isEmpty then (chunkRoot.level + 1, 0)
  else
    splitLevelFrom (fun level => densestAt (ord.sub level) deepCounts deepest level)
      chunkRoot.level maxPoints (spillDepthCap - 1) 1

/-- Route one point, appending the pending groups once there are enough points. -/
def routePoint (ord : IterOrder) (splitLevel flushThreshold : ℕ) (s : SpillState)
    (raw : RawPoint) : SpillState :=
  let s := s.enqueue (b.keyOf raw splitLevel) raw
  if s.pendingPoints ≥ flushThreshold then s.drain ord else s

/-- Route the points of a chunk file, then append what is still pending. -/
def routePoints (ord : IterOrder) (splitLevel flushThreshold : ℕ) :
    List RawPoint → SpillState → SpillState
  | [], s => s.drain (ord.sub 0)
  | raw :: rest, s =>
    routePoints ord splitLevel flushThreshold rest
      (b.routePoint (ord.sub (rest.length + 1)) splitLevel flushThreshold s raw)

/-- The sub-octants of a chunk and their files. -/
def spill (ord : IterOrder) (splitLevel flushThreshold : ℕ) (points : List RawPoint) : SpillState :=
  b.routePoints ord splitLevel flushThreshold points ⟨∅, [], fun _ => [], ∅, 0⟩

/-! ## The build of a chunk -/

/-- Build one sub-octant from its spill file. -/
def buildSubOctant (ord : IterOrder) (files : ℕ → List RawPoint) (idx : ℕ) (subRoot : VoxelKey)
    (store : Store) : Except BuildError (Store × List (VoxelKey × ℕ)) :=
  .ok (b.buildSubtree (ord.sub idx) store subRoot (files idx) (files idx).length)

/-- The split level of a spilled chunk. -/
def splitLevelOf (ord : IterOrder) (chunk : PlannedChunk) (points : List RawPoint)
    (chunkMemBudget : ℕ) : ℕ :=
  let maxPointsInBudget := max (chunkMemBudget / perChunkBytesPerPointBuild) 1
  (b.chooseSplitLevel ord points chunk.key maxPointsInBudget).1

/-- The sub-octants of a spilled chunk. -/
def spillOf (ord : IterOrder) (chunk : PlannedChunk) (points : List RawPoint)
    (chunkMemBudget : ℕ) : SpillState :=
  let splitLevel := b.splitLevelOf (ord.sub 0) chunk points chunkMemBudget
  let flushThreshold := max (chunkMemBudget / 4 / RawPoint.recordSize b.numExtraBytes) 1
  b.spill (ord.sub 1) splitLevel flushThreshold points

/-- Build a chunk through spill files: route, build the sub-octants, merge their roots. -/
def buildChunkSpilled (ord : IterOrder) (memoryBudget : ℕ) (store : Store) (chunk : PlannedChunk)
    (points : List RawPoint) (chunkMemBudget : ℕ) :
    Except BuildError (Store × List (VoxelKey × ℕ)) := do
  let splitLevel := b.splitLevelOf (ord.sub 0) chunk points chunkMemBudget
  let s := b.spillOf ord chunk points chunkMemBudget
  let built ← (ord.sub 2).runTasks (b.buildSubOctant (ord.sub 3) s.files) s.subRoots store
  let allNodes := built.2.flatten
  let subRootKeys := built.2.flatMap (keysAt splitLevel)
  if subRootKeys.isEmpty then .ok (built.1, allNodes)
  else
    let merged ← b.mergeChunkTops (ord.sub 4) memoryBudget built.1 subRootKeys chunk.level 1
      chunkMemBudget
    .ok (merged.1, allNodes ++ merged.2.map fun k => (k, 0))

/-- Build a single chunk's sub-octree, in memory or through spill files. -/
def buildChunkInMemory (ord : IterOrder) (memoryBudget : ℕ) (chunkActualCounts : Option (List ℕ))
    (files : ℕ → List RawPoint) (chunkMemBudget : ℕ) (chunkIdx : ℕ) (chunk : PlannedChunk)
    (store : Store) : Except BuildError (Store × List (VoxelKey × ℕ)) :=
  let actualPoints := match chunkActualCounts with
    | some counts => counts.getD chunkIdx 0
    | none => (files chunkIdx).length
  if saturatingMul actualPoints perChunkBytesPerPointBuild ≤ chunkMemBudget then
    .ok (b.buildSubtree ord store chunk.key (files chunkIdx) actualPoints)
  else b.buildChunkSpilled ord memoryBudget store chunk (files chunkIdx) chunkMemBudget

end OctreeBuilder

/-- The number of points of a chunk that its build goes by. -/
def actualPoints (chunkActualCounts : Option (List ℕ)) (files : ℕ → List RawPoint)
    (chunkIdx : ℕ) : ℕ :=
  match chunkActualCounts with
  | some counts => counts.getD chunkIdx 0
  | none => (files chunkIdx).length

namespace OctreeBuilder

variable (b : OctreeBuilder F)

/-- The two ways to build a chunk. -/
lemma buildChunkInMemory_eq (ord : IterOrder) (memoryBudget : ℕ)
    (chunkActualCounts : Option (List ℕ)) (files : ℕ → List RawPoint) (chunkMemBudget chunkIdx : ℕ)
    (chunk : PlannedChunk) (store : Store) :
    b.buildChunkInMemory ord memoryBudget chunkActualCounts files chunkMemBudget chunkIdx chunk
        store =
      if saturatingMul (actualPoints chunkActualCounts files chunkIdx)
          perChunkBytesPerPointBuild ≤ chunkMemBudget then
        .ok (b.buildSubtree ord store chunk.key (files chunkIdx)
          (actualPoints chunkActualCounts files chunkIdx))
      else b.buildChunkSpilled ord memoryBudget store chunk (files chunkIdx) chunkMemBudget := rfl

/-! ## The calls of a chunk build -/

/-- The `grid_sample` calls of a sub-octant build. -/
def subOctantCalls (ord : IterOrder) (files : ℕ → List RawPoint) (idx : ℕ) (subRoot : VoxelKey)
    (_ : Store) : List SampleCall :=
  b.subtreeCalls (ord.sub idx) subRoot (files idx) (files idx).length

/-- The `grid_sample` calls of a spilled build. -/
def spilledCalls (ord : IterOrder) (memoryBudget : ℕ) (store : Store) (chunk : PlannedChunk)
    (points : List RawPoint) (chunkMemBudget : ℕ) : List SampleCall :=
  let splitLevel := b.splitLevelOf (ord.sub 0) chunk points chunkMemBudget
  let s := b.spillOf ord chunk points chunkMemBudget
  (ord.sub 2).tasksTrace (b.buildSubOctant (ord.sub 3) s.files)
      (b.subOctantCalls (ord.sub 3) s.files) s.subRoots store ++
    match (ord.sub 2).runTasks (b.buildSubOctant (ord.sub 3) s.files) s.subRoots store with
    | .error _ => []
    | .ok built => b.mergeCalls (ord.sub 4) memoryBudget built.1
      (built.2.flatMap (keysAt splitLevel)) chunk.level 1 chunkMemBudget

/-- The `grid_sample` calls of a chunk build. -/
def chunkCalls (ord : IterOrder) (memoryBudget : ℕ) (chunkActualCounts : Option (List ℕ))
    (files : ℕ → List RawPoint) (chunkMemBudget : ℕ) (chunkIdx : ℕ) (chunk : PlannedChunk)
    (store : Store) : List SampleCall :=
  let actualPoints := match chunkActualCounts with
    | some counts => counts.getD chunkIdx 0
    | none => (files chunkIdx).length
  if saturatingMul actualPoints perChunkBytesPerPointBuild ≤ chunkMemBudget then
    b.subtreeCalls ord chunk.key (files chunkIdx) actualPoints
  else b.spilledCalls ord memoryBudget store chunk (files chunkIdx) chunkMemBudget

end OctreeBuilder

/-! ## The routing pass -/

/-- The split level is below the chunk root. -/
lemma lt_splitLevelFrom (densest : ℕ → ℕ) (rootLevel maxPoints n : ℕ) {s : ℕ} (hs : 0 < s) :
    rootLevel < (splitLevelFrom densest rootLevel maxPoints n s).1 := by
  induction n generalizing s with
  | zero => exact Nat.lt_add_of_pos_right hs
  | succ n ih =>
    rw [splitLevelFrom]
    split_ifs
    · exact Nat.lt_add_of_pos_right hs
    · exact ih (Nat.succ_pos s)

/-- After some points, every sub-octant of one of them has a number, and its file and its pending
group together hold its points in their order. -/
structure Routed (key : RawPoint → VoxelKey) (done : List RawPoint) (s : SpillState) : Prop where
  index : ∀ k i, s.subIndex.lookup k = some i ↔ s.subRoots[i]? = some k
  seen : ∀ k, k ∈ s.subRoots ↔ ∃ p ∈ done, key p = k
  content : ∀ i k, s.subRoots[i]? = some k →
    s.files i ++ s.pending.get i = done.filter fun p => key p = k
  fresh : ∀ i, s.subRoots.length ≤ i → s.files i = [] ∧ s.pending.get i = []

/-- Draining appends to every file the group that was pending for it. -/
lemma SpillState.drain_files (ord : IterOrder) (s : SpillState) (i : ℕ) :
    (s.drain ord).files i = s.files i ++ s.pending.get i := by
  have hlocal : Footprint.Local (fun files : ℕ → List RawPoint => files)
      (fun (e : ℕ × List RawPoint) i => i = e.1)
      (fun files e => Function.update files e.1 (files e.1 ++ e.2)) := by
    refine ⟨fun files e k hk => Function.update_of_ne hk _ _, fun files files' e h k hk => ?_⟩
    obtain rfl := hk
    simp only [Function.update_self, h e.1 rfl]
  have hapart : (ord.list s.pending.pairs).Pairwise
      (Footprint.Apart fun (e : ℕ × List RawPoint) i => i = e.1) := by
    have hnodup : ((ord.list s.pending.pairs).map Prod.fst).Nodup := by
      rw [((ord.list_perm _).map Prod.fst).nodup_iff, BucketMap.map_fst_pairs]
      exact AList.keys_nodup _
    exact (List.pairwise_map.mp hnodup).imp fun hne k hk hk' => hne (hk.symm.trans hk')
  by_cases hi : i ∈ s.pending
  · have hmem : (i, s.pending.get i) ∈ ord.list s.pending.pairs :=
      IterOrder.mem_list.mpr (BucketMap.mem_pairs.mpr ⟨hi, rfl⟩)
    apply (Footprint.foldl_view hlocal hapart hmem rfl s.files).trans
    exact Function.update_self _ _ _
  · rw [BucketMap.get_eq_nil_of_notMem hi, List.append_nil]
    refine Footprint.foldl_frame hlocal (fun e he hk => hi ?_) s.files
    rw [hk]
    exact (BucketMap.mem_pairs.mp (IterOrder.mem_list.mp he)).1

namespace Routed

variable {key : RawPoint → VoxelKey} {done : List RawPoint} {s : SpillState}

lemma start (key : RawPoint → VoxelKey) : Routed key [] ⟨∅, [], fun _ => [], ∅, 0⟩ where
  index k i := by simp
  seen k := by simp
  content i k h := by simp at h
  fresh i _ := ⟨rfl, BucketMap.get_empty i⟩

/-- Draining moves points from the pending groups to the files. -/
lemma drain (h : Routed key done s) (ord : IterOrder) : Routed key done (s.drain ord) where
  index := h.index
  seen := h.seen
  content i k hk := by
    rw [SpillState.drain_files]
    change s.files i ++ s.pending.get i ++ BucketMap.get ∅ i = _
    rw [BucketMap.get_empty, List.append_nil]
    exact h.content i k hk
  fresh i hi := by
    obtain ⟨h1, h2⟩ := h.fresh i hi
    refine ⟨?_, BucketMap.get_empty i⟩
    rw [SpillState.drain_files, h1, h2, List.append_nil]

/-- A sub-octant has one number. -/
lemma index_unique (h : Routed key done s) {i j : ℕ} {k : VoxelKey}
    (hi : s.subRoots[i]? = some k) (hj : s.subRoots[j]? = some k) : i = j :=
  Option.some.inj (((h.index k i).mpr hi).symm.trans ((h.index k j).mpr hj))

/-- Giving a new sub-octant its number. -/
lemma indexOf (h : Routed key done s) (sub : VoxelKey) :
    (s.indexOf sub).2.subRoots[(s.indexOf sub).1]? = some sub ∧
      (∀ k i, (s.indexOf sub).2.subIndex.lookup k = some i ↔
        (s.indexOf sub).2.subRoots[i]? = some k) ∧
      (∀ k, k ∈ (s.indexOf sub).2.subRoots ↔ k = sub ∨ ∃ p ∈ done, key p = k) ∧
      (∀ i k, (s.indexOf sub).2.subRoots[i]? = some k →
        s.files i ++ s.pending.get i = done.filter fun p => key p = k) ∧
      s.subRoots.length ≤ (s.indexOf sub).2.subRoots.length ∧
      (s.indexOf sub).2.files = s.files ∧ (s.indexOf sub).2.pending = s.pending := by
  unfold SpillState.indexOf
  cases hl : s.subIndex.lookup sub with
  | some i =>
    have hi := (h.index sub i).mp hl
    refine ⟨hi, h.index, fun k => ?_, h.content, le_rfl, rfl, rfl⟩
    rw [h.seen k]
    refine (or_iff_right_of_imp ?_).symm
    rintro rfl
    exact (h.seen k).mp (List.mem_of_getElem? hi)
  | none =>
    have hnew : sub ∉ s.subRoots := fun hmem => by
      obtain ⟨i, hi⟩ := List.getElem?_of_mem hmem
      rw [(h.index sub i).mpr hi] at hl
      cases hl
    have hget : ∀ i, (s.subRoots ++ [sub])[i]? =
        if i = s.subRoots.length then some sub else s.subRoots[i]? := fun i => by
      rcases Nat.lt_trichotomy i s.subRoots.length with hlt | rfl | hgt
      · rw [List.getElem?_append_left hlt, if_neg hlt.ne]
      · simp
      · rw [if_neg hgt.ne', List.getElem?_eq_none (by simp; omega),
          List.getElem?_eq_none (by omega)]
    refine ⟨by simp, fun k i => ?_, fun k => ?_, fun i k hk => ?_, by simp, rfl, rfl⟩
    · change (s.subIndex.insert sub s.subRoots.length).lookup k = some i ↔
        (s.subRoots ++ [sub])[i]? = some k
      rw [hget]
      by_cases hk : k = sub
      · subst hk
        rw [AList.lookup_insert, Option.some.injEq]
        constructor
        · rintro rfl
          rw [if_pos rfl]
        · intro hi
          by_contra hne
          rw [if_neg (Ne.symm hne)] at hi
          exact hnew (List.mem_of_getElem? hi)
      · rw [AList.lookup_insert_ne hk, h.index]
        split_ifs with hi
        · subst hi
          simp [Ne.symm hk]
        · rfl
    · change k ∈ s.subRoots ++ [sub] ↔ _
      rw [List.mem_append, List.mem_singleton, h.seen, or_comm]
    · have hk' : (s.subRoots ++ [sub])[i]? = some k := hk
      rw [hget] at hk'
      split_ifs at hk' with hi
      · obtain rfl := Option.some.inj hk'
        obtain ⟨h1, h2⟩ := h.fresh i hi.ge
        rw [h1, h2, List.append_nil]
        refine (List.filter_eq_nil_iff.mpr fun p hp he => hnew ?_).symm
        exact (h.seen _).mpr ⟨p, hp, of_decide_eq_true he⟩
      · exact h.content i k hk'

/-- Queueing one more point. -/
lemma enqueue (h : Routed key done s) (raw : RawPoint) :
    Routed key (done ++ [raw]) (s.enqueue (key raw) raw) := by
  obtain ⟨hself, hindex, hseen, hcontent, hlen, hfiles, hpending⟩ := h.indexOf (key raw)
  set r := s.indexOf (key raw)
  refine ⟨hindex, fun k => ?_, fun i k hk => ?_, fun i hi => ?_⟩
  · apply (hseen k).trans
    simp only [List.mem_append, List.mem_singleton]
    constructor
    · rintro (rfl | ⟨p, hp, rfl⟩)
      · exact ⟨raw, Or.inr rfl, rfl⟩
      · exact ⟨p, Or.inl hp, rfl⟩
    · rintro ⟨p, hp | rfl, rfl⟩
      · exact Or.inr ⟨p, hp, rfl⟩
      · exact Or.inl rfl
  · change r.2.files i ++ (r.2.pending.push r.1 raw).get i = _
    rw [hfiles, hpending, BucketMap.get_push, List.filter_append, ← hcontent i k hk]
    have huniq : i = r.1 ↔ key raw = k := by
      constructor
      · rintro rfl
        exact Option.some.inj (hself.symm.trans hk)
      · rintro rfl
        exact Option.some.inj (((hindex _ i).mpr hk).symm.trans ((hindex _ r.1).mpr hself))
    by_cases hi : i = r.1
    · simp [hi, huniq.mp hi]
    · simp [hi, mt huniq.mpr hi]
  · have hi' : s.subRoots.length ≤ i := hlen.trans hi
    have hne : i ≠ r.1 := by
      rintro rfl
      exact absurd (List.getElem?_eq_some_iff.mp hself).1 (Nat.not_lt.mpr hi)
    obtain ⟨h1, h2⟩ := h.fresh i hi'
    refine ⟨?_, ?_⟩
    · change r.2.files i = []
      rw [hfiles, h1]
    · change (r.2.pending.push r.1 raw).get i = []
      rw [BucketMap.get_push, if_neg hne, hpending, h2]

end Routed

namespace OctreeBuilder

variable (b : OctreeBuilder F)

lemma routePoints_routed (ord : IterOrder) (splitLevel flushThreshold : ℕ) {done : List RawPoint}
    {s : SpillState} (h : Routed (b.keyOf · splitLevel) done s) (points : List RawPoint) :
    Routed (b.keyOf · splitLevel) (done ++ points)
        (b.routePoints ord splitLevel flushThreshold points s) ∧
      ∀ i, (b.routePoints ord splitLevel flushThreshold points s).pending.get i = [] := by
  induction points generalizing done s with
  | nil =>
    rw [routePoints, List.append_nil]
    exact ⟨h.drain _, BucketMap.get_empty⟩
  | cons raw rest ih =>
    rw [routePoints, show done ++ raw :: rest = (done ++ [raw]) ++ rest by simp]
    apply ih
    unfold routePoint
    have henq := h.enqueue raw
    simp only
    split_ifs
    · exact henq.drain _
    · exact henq

/-- After the routing pass, the file of every sub-octant holds exactly its points, and there is a
sub-octant for every point. -/
lemma spill_files (ord : IterOrder) (splitLevel flushThreshold : ℕ) (points : List RawPoint) :
    let s := b.spill ord splitLevel flushThreshold points
    s.subRoots.Nodup ∧ (∀ k, k ∈ s.subRoots ↔ ∃ p ∈ points, b.keyOf p splitLevel = k) ∧
      ∀ i k, s.subRoots[i]? = some k →
        s.files i = points.filter fun p => b.keyOf p splitLevel = k := by
  obtain ⟨h, hpending⟩ := b.routePoints_routed ord splitLevel flushThreshold
    (Routed.start (b.keyOf · splitLevel)) points
  refine ⟨?_, h.seen, fun i k hk => ?_⟩
  · refine List.nodup_iff_injective_getElem.mpr fun i j hij => Fin.ext ?_
    refine h.index_unique (List.getElem?_eq_getElem i.2) ?_
    exact (List.getElem?_eq_getElem j.2).trans (congrArg some hij.symm)
  · refine Eq.trans ?_ (h.content i k hk)
    rw [hpending i, List.append_nil]
    rfl

end OctreeBuilder

/-! ## What a chunk build leaves -/

namespace OctreeBuilder

variable (b : OctreeBuilder F)

lemma lt_splitLevelOf (ord : IterOrder) (chunk : PlannedChunk) (points : List RawPoint)
    (chunkMemBudget : ℕ) : chunk.level < b.splitLevelOf ord chunk points chunkMemBudget := by
  unfold splitLevelOf chooseSplitLevel
  simp only
  split_ifs
  · exact Nat.lt_succ_self _
  · exact lt_splitLevelFrom _ _ _ _ Nat.one_pos

variable {b} {pts : Multiset RawPoint} {W : WalkRules VoxelKey}
  {I : PyramidInvariant b.addressing maxLeafPoints pts b.HandsUp W} {ord : IterOrder}
  {memoryBudget chunkMemBudget : ℕ} {store store' : Store} {chunk : PlannedChunk}
  {nodes : List (VoxelKey × ℕ)}

/-- The sub-octants of a spilled chunk: voxels at one level below the chunk root, each with a file
of exactly its points, that between them contain every point of the chunk. -/
structure SubOctants (b : OctreeBuilder F) (pts : Multiset RawPoint) (chunkRoot : VoxelKey)
    (splitLevel : ℕ) (s : SpillState) : Prop where
  unrelated : Unrelated (s.subRoots.map id)
  below : ∀ r ∈ s.subRoots, IsAncestor chunkRoot r
  level : ∀ r ∈ s.subRoots, r.level = splitLevel
  file : ∀ i r, s.subRoots[i]? = some r →
    (↑(s.files i) : Multiset RawPoint) = inside b.addressing pts r
  covers : ∀ p ∈ pts, b.addressing.Inside p chunkRoot →
    ∃ r ∈ s.subRoots, b.addressing.Inside p r

lemma spillOf_subOctants (ord : IterOrder) (chunkMemBudget : ℕ) {points : List RawPoint}
    (hpts : (↑points : Multiset RawPoint) = inside b.addressing pts chunk.key) :
    SubOctants b pts chunk.key (b.splitLevelOf (ord.sub 0) chunk points chunkMemBudget)
      (b.spillOf ord chunk points chunkMemBudget) := by
  set splitLevel := b.splitLevelOf (ord.sub 0) chunk points chunkMemBudget
  have hlevel : chunk.key.level < splitLevel := b.lt_splitLevelOf _ chunk points chunkMemBudget
  obtain ⟨hnodup, hroots, hfiles⟩ := b.spill_files (ord.sub 1) splitLevel
    (max (chunkMemBudget / 4 / RawPoint.recordSize b.numExtraBytes) 1) points
  have hin : ∀ p, p ∈ points ↔ p ∈ pts ∧ b.addressing.Inside p chunk.key := fun p => by
    rw [← mem_inside, ← hpts, Multiset.mem_coe]
  have hbelow : ∀ r ∈ (b.spillOf ord chunk points chunkMemBudget).subRoots,
      IsAncestor chunk.key r := fun r hr => by
    obtain ⟨p, hp, rfl⟩ := (hroots r).mp hr
    have := b.addressing.isAncestor_addr p hlevel.le
    rwa [show b.addressing.addr p chunk.key.level = chunk.key from ((hin p).mp hp).2] at this
  have hrootLevel : ∀ r ∈ (b.spillOf ord chunk points chunkMemBudget).subRoots,
      r.level = splitLevel := fun r hr => by
    obtain ⟨p, -, rfl⟩ := (hroots r).mp hr
    rfl
  refine ⟨?_, hbelow, hrootLevel, fun i r hr => ?_, fun p hp htop => ?_⟩
  · rw [List.map_id]
    refine unrelated_of_antichain hnodup fun r r' hr hr' hrr' => ?_
    exact hrr'.eq_of_level ((hrootLevel r hr).trans (hrootLevel r' hr').symm)
  · rw [show (b.spillOf ord chunk points chunkMemBudget).files i = _ from hfiles i r hr,
      ← Multiset.filter_coe, hpts]
    have hfilter := filter_inside b.addressing pts (hbelow r (List.mem_of_getElem? hr))
    rwa [VoxelKey.level_eq, hrootLevel r (List.mem_of_getElem? hr)] at hfilter
  · exact ⟨_, (hroots _).mpr ⟨p, (hin p).mpr ⟨hp, htop⟩, rfl⟩, b.addressing.inside_addr p _⟩

/-- The leaves of a chunk that is split at level `l` are not split further at a voxel: those of its
sub-octant are not. -/
def SpillFloor (b : OctreeBuilder F) (pts : Multiset RawPoint) (l : ℕ) (k : VoxelKey) : Prop :=
  l ≤ k.level ∧ leafFloor F l (inside b.addressing pts (ancestorAt k l)).card ≤ k.level

/-- The sub-octants of a spilled chunk are built side by side. -/
lemma SubOctants.allBuilt {splitLevel : ℕ} {s : SpillState}
    (h : SubOctants b pts chunk.key splitLevel s)
    (hallow : W.Allow b.addressing maxLeafPoints pts chunk.key (b.SpillFloor pts splitLevel))
    (hempty : ∀ k, IsAncestor chunk.key k → store k = [])
    {built : Store × List (List (VoxelKey × ℕ))} {ord ord' : IterOrder}
    (hok : ord.runTasks (b.buildSubOctant ord' s.files) s.subRoots store = .ok built) :
    AllBuilt I id s.subRoots store built.1 built.2 ∧
      Roots I chunk.key (· ∈ s.subRoots.map id) (stored built.1) := by
  have hall : AllBuilt I id s.subRoots store built.1 built.2 := by
    refine runTasks_allBuilt h.unrelated (fun r hr k hk => hempty k ((h.below r hr).trans hk))
      (fun i r st st' nodes hr hf hnil => ?_) hok
    have hmem := List.mem_of_getElem? hr
    have hcount : (s.files i).length = (inside b.addressing pts r).card := by
      rw [← h.file i r hr, Multiset.coe_card]
    have hbuilt := buildSubtree_built I (ord'.sub i) (h.file i r hr) (s.files i).length
      (hallow.mono (h.below r hmem) fun k hk => ?_) hnil
    · rwa [Except.ok.inj hf] at hbuilt
    · -- the sub-octant of a voxel below `r` is `r`
      have hr' : ancestorAt k splitLevel = r := by
        rw [← h.level r hmem]
        exact hk.2
      have hle : splitLevel ≤ k.level := h.level r hmem ▸ hk.1
      unfold SpillFloor
      rw [hr', hcount, h.level r hmem]
      exact (and_iff_right hle).symm
  refine ⟨hall, hall.roots h.unrelated h.below h.covers hempty fun q hq hne habove => ?_⟩
  refine hallow.inner q hq hne fun hfloor => ?_
  obtain ⟨p, hp⟩ := Multiset.exists_mem_of_ne_zero hne
  obtain ⟨hpts, hin⟩ := mem_inside.mp hp
  obtain ⟨r, hr, hpr⟩ := h.covers p hpts (hin.mono hq)
  refine habove r hr (hpr.isAncestor hin ?_)
  rw [VoxelKey.level_eq, VoxelKey.level_eq, h.level r hr]
  exact hfloor.1

/-- A spilled build that succeeds builds the sub-octants and merges their roots. -/
lemma buildChunkSpilled_ok {points : List RawPoint}
    (hok : b.buildChunkSpilled ord memoryBudget store chunk points chunkMemBudget =
      .ok (store', nodes)) :
    ∃ built parents, (ord.sub 2).runTasks
        (b.buildSubOctant (ord.sub 3) (b.spillOf ord chunk points chunkMemBudget).files)
        (b.spillOf ord chunk points chunkMemBudget).subRoots store = .ok built ∧
      b.mergeChunkTops (ord.sub 4) memoryBudget built.1 (built.2.flatMap
        (keysAt (b.splitLevelOf (ord.sub 0) chunk points chunkMemBudget))) chunk.key.level 1
        chunkMemBudget = .ok (store', parents) ∧
      nodes.map Prod.fst = built.2.flatten.map Prod.fst ++ parents := by
  unfold buildChunkSpilled at hok
  simp only at hok
  cases hrun : (ord.sub 2).runTasks
      (b.buildSubOctant (ord.sub 3) (b.spillOf ord chunk points chunkMemBudget).files)
      (b.spillOf ord chunk points chunkMemBudget).subRoots store with
  | error e =>
    rw [hrun] at hok
    cases hok
  | ok built =>
    rw [hrun] at hok
    set rootKeys := built.2.flatMap
      (keysAt (b.splitLevelOf (ord.sub 0) chunk points chunkMemBudget))
    change (if rootKeys.isEmpty then _ else _) = _ at hok
    split_ifs at hok with hnil
    · -- no sub-octant holds points: merging nothing changes nothing
      cases hok
      exact ⟨_, [], rfl, if_pos hnil, (List.append_nil _).symm⟩
    · change (b.mergeChunkTops (ord.sub 4) memoryBudget built.1 rootKeys chunk.key.level 1
        chunkMemBudget).bind _ = _ at hok
      cases hm : b.mergeChunkTops (ord.sub 4) memoryBudget built.1 rootKeys chunk.key.level 1
          chunkMemBudget with
      | error e =>
        rw [hm] at hok
        cases hok
      | ok merged =>
        rw [hm] at hok
        cases hok
        refine ⟨built, merged.2, rfl, hm, ?_⟩
        rw [List.map_append, List.map_map,
          show (Prod.fst ∘ fun k : VoxelKey => (k, 0)) = id from rfl, List.map_id]

/-- The root keys of a spilled chunk are the nodes of its sub-octants at the split level. -/
lemma SubOctants.rootKeys {splitLevel : ℕ} {s : SpillState}
    (h : SubOctants b pts chunk.key splitLevel s)
    {built : Store × List (List (VoxelKey × ℕ))}
    (hall : AllBuilt I id s.subRoots store built.1 built.2) (k : VoxelKey) :
    k ∈ built.2.flatMap (keysAt splitLevel) ↔ ∃ t nodes, (t, nodes) ∈ s.subRoots.zip built.2 ∧
      k ∈ keysAt (VoxelKey.level (id t)) nodes := by
  rw [List.mem_flatMap]
  constructor
  · rintro ⟨nodes, hn, hk⟩
    obtain ⟨t, ht⟩ := hall.named nodes hn
    exact ⟨t, nodes, ht, by rwa [id, h.level t (List.of_mem_zip ht).1]⟩
  · rintro ⟨t, nodes, ht, hk⟩
    exact ⟨nodes, (List.of_mem_zip ht).2, by rwa [id, h.level t (List.of_mem_zip ht).1] at hk⟩

/-- A spilled build builds the subtree of the chunk root. -/
theorem buildChunkSpilled_built {points : List RawPoint}
    (hpts : (↑points : Multiset RawPoint) = inside b.addressing pts chunk.key)
    (hallow : W.Allow b.addressing maxLeafPoints pts chunk.key
      (b.SpillFloor pts (b.splitLevelOf (ord.sub 0) chunk points chunkMemBudget)))
    (hempty : ∀ k, IsAncestor chunk.key k → store k = [])
    (hok : b.buildChunkSpilled ord memoryBudget store chunk points chunkMemBudget =
      .ok (store', nodes)) :
    Built I chunk.key store store' (nodes.map Prod.fst) := by
  obtain ⟨built, parents, hrun, hm, hnodes⟩ := buildChunkSpilled_ok hok
  have hsub := spillOf_subOctants ord chunkMemBudget hpts
  obtain ⟨hall, hroots⟩ := hsub.allBuilt (I := I) hallow hempty hrun
  rw [hnodes]
  exact hall.merge hroots hempty (hsub.rootKeys hall) hm

/-- The leaves of a chunk are not split further at a voxel. -/
def ChunkFloor (b : OctreeBuilder F) (ord : IterOrder) (pts : Multiset RawPoint)
    (chunkActualCounts : Option (List ℕ)) (files : ℕ → List RawPoint)
    (chunkMemBudget chunkIdx : ℕ) (chunk : PlannedChunk) (k : VoxelKey) : Prop :=
  if saturatingMul (actualPoints chunkActualCounts files chunkIdx) perChunkBytesPerPointBuild ≤
      chunkMemBudget then
    leafFloor F chunk.level (actualPoints chunkActualCounts files chunkIdx) ≤ k.level
  else
    b.SpillFloor pts (b.splitLevelOf (ord.sub 0) chunk (files chunkIdx) chunkMemBudget) k

/-- A chunk build builds the subtree of the chunk root, whichever path it takes. -/
theorem buildChunkInMemory_built {chunkActualCounts : Option (List ℕ)}
    {files : ℕ → List RawPoint} {chunkIdx : ℕ}
    (hpts : (↑(files chunkIdx) : Multiset RawPoint) = inside b.addressing pts chunk.key)
    (hallow : W.Allow b.addressing maxLeafPoints pts chunk.key
      (b.ChunkFloor ord pts chunkActualCounts files chunkMemBudget chunkIdx chunk))
    (hempty : ∀ k, IsAncestor chunk.key k → store k = [])
    (hok : b.buildChunkInMemory ord memoryBudget chunkActualCounts files chunkMemBudget chunkIdx
      chunk store = .ok (store', nodes)) :
    Built I chunk.key store store' (nodes.map Prod.fst) := by
  rw [buildChunkInMemory_eq] at hok
  unfold ChunkFloor at hallow
  split_ifs at hok hallow
  · have hbuilt := buildSubtree_built I ord hpts _ hallow hempty
    rwa [Except.ok.inj hok] at hbuilt
  · exact buildChunkSpilled_built hpts hallow hempty hok

end OctreeBuilder

end CopcConverter
