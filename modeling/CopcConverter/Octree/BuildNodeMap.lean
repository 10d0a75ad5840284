import CopcConverter.Chunking.Plan
import CopcConverter.Foundations.Lists
import CopcConverter.Octree.BuildChunk

/-!
# The node map

`build_node_map` builds every chunk of the plan, merges the chunk roots up to the global root, and
lists the nodes: all that hold points, with their counts read back from the node store, and the
empty ancestors that a reader needs to get to them, in the order of their keys and without
repetition.

The chunk builds run in any order over one node store.  Every chunk is built from its own file, and
the files hold the points of the chunks' voxels (`Distributed`), so what the build leaves is a
finished subtree of the global root, for any invariant of the pyramid.  An empty plan is built as
one subtree from no points.  The build of a single chunk that fits its budget is spelled out for the
examples.
-/

namespace CopcConverter

open LevelTree

variable {F : Type} [FloatArith F]

/-! ## Assembling the list -/

/-- The order `(level, x, y, z)` in which keys are sorted. -/
def VoxelKey.sortKey (k : VoxelKey) : ℕ ×ₗ ℕ ×ₗ ℕ ×ₗ ℕ :=
  toLex (k.level, toLex (k.x, toLex (k.y, k.z)))

/-- Remove the elements that equal their predecessor. -/
def dedupSorted : List VoxelKey → List VoxelKey
  | [] => []
  | [a] => [a]
  | a :: c :: l => if a = c then dedupSorted (c :: l) else a :: dedupSorted (c :: l)

/-- The keys that are present and the extra keys added to them. -/
structure Ancestors where
  present : Finset VoxelKey
  extra : List VoxelKey

/-- Add a key unless it is present. -/
def Ancestors.insert (s : Ancestors) (p : VoxelKey) : Ancestors :=
  if p ∈ s.present then s else ⟨Insert.insert p s.present, s.extra ++ [p]⟩

/-- Walk up from a key at level `n` and add every parent. -/
def Ancestors.climb : ℕ → VoxelKey → Ancestors → Ancestors
  | 0, _, s => s
  | n + 1, k, s =>
    match k.parent with
    | some p => climb n p (s.insert p)
    | none => s

/-- The listed nodes: every node that holds points with its count, then the missing ancestors with
none, sorted by level. -/
def assembleNodes (store : Store) (allKeys : List VoxelKey) : List (VoxelKey × ℕ) :=
  let keys := dedupSorted (allKeys.mergeSort fun a c => decide (a.sortKey ≤ c.sortKey))
  let result := (keys.map fun k => (k, (store k).length)).filter fun e => e.2 > 0
  let ancestors := result.foldl (fun s e => s.climb e.1.level e.1)
    (⟨(result.map Prod.fst).toFinset, []⟩ : Ancestors)
  (result ++ ancestors.extra.map fun k => (k, 0)).mergeSort fun a c =>
    decide (a.1.level ≤ c.1.level)

namespace OctreeBuilder

variable (b : OctreeBuilder F)

/-- Build one chunk of the plan, within the budget of one slot. -/
def buildChunkTask (ord : IterOrder) (memoryBudget cores : ℕ) (chunkActualCounts : Option (List ℕ))
    (files : ℕ → List RawPoint) (chunkIdx : ℕ) (chunk : PlannedChunk) (store : Store) :
    Except BuildError (Store × List (VoxelKey × ℕ)) :=
  b.buildChunkInMemory (ord.sub chunkIdx) memoryBudget chunkActualCounts files
    (buildConcurrencyAndBudget F memoryBudget cores).2 chunkIdx chunk store

/-- The nodes of the chunks that are at the level of their chunk. -/
def chunkRootKeys (chunks : List PlannedChunk) (batchResults : List (List (VoxelKey × ℕ))) :
    List VoxelKey :=
  (chunks.zip batchResults).flatMap fun e => keysAt e.1.level e.2

/-- Build the node map: per-chunk builds, then the merge across chunks up to the global root.  The
node store is empty at the start. -/
def buildNodeMap (ord : IterOrder) (memoryBudget cores : ℕ) (chunkedPlan : Option ChunkPlan)
    (chunkActualCounts : Option (List ℕ)) (files : ℕ → List RawPoint) :
    Except BuildError (Store × List (VoxelKey × ℕ)) :=
  match chunkedPlan with
  | none => .error .noChunkPlan
  | some plan =>
    if plan.chunks.length = 0 then .ok (fun _ => [], [])
    else do
      let built ← (ord.sub 0).runTasks
        (b.buildChunkTask (ord.sub 1) memoryBudget cores chunkActualCounts files) plan.chunks
        fun _ => []
      let allChunkNodeKeys := (plan.chunks.zip built.2).flatMap fun e => e.2.map Prod.fst
      let merged ← b.mergeChunkTops (ord.sub 2) memoryBudget built.1
        (chunkRootKeys plan.chunks built.2) 0
        (buildConcurrencyAndBudget F memoryBudget cores).1
        (buildConcurrencyAndBudget F memoryBudget cores).2
      .ok (merged.1, assembleNodes merged.1 (allChunkNodeKeys ++ merged.2))

/-- The `grid_sample` calls of a chunk build. -/
def chunkTaskCalls (ord : IterOrder) (memoryBudget cores : ℕ) (chunkActualCounts : Option (List ℕ))
    (files : ℕ → List RawPoint) (chunkIdx : ℕ) (chunk : PlannedChunk) (store : Store) :
    List SampleCall :=
  b.chunkCalls (ord.sub chunkIdx) memoryBudget chunkActualCounts files
    (buildConcurrencyAndBudget F memoryBudget cores).2 chunkIdx chunk store

/-- The `grid_sample` calls of a whole build. -/
def buildCalls (ord : IterOrder) (memoryBudget cores : ℕ) (plan : ChunkPlan)
    (chunkActualCounts : Option (List ℕ)) (files : ℕ → List RawPoint) : List SampleCall :=
  let task := b.buildChunkTask (ord.sub 1) memoryBudget cores chunkActualCounts files
  (ord.sub 0).tasksTrace task
      (b.chunkTaskCalls (ord.sub 1) memoryBudget cores chunkActualCounts files) plan.chunks
      (fun _ => []) ++
    match (ord.sub 0).runTasks task plan.chunks fun _ => [] with
    | .error _ => []
    | .ok built => b.mergeCalls (ord.sub 2) memoryBudget built.1
      (chunkRootKeys plan.chunks built.2) 0
      (buildConcurrencyAndBudget F memoryBudget cores).1
      (buildConcurrencyAndBudget F memoryBudget cores).2

end OctreeBuilder

/-! ## What the list contains -/

lemma mem_dedupSorted {l : List VoxelKey} {k : VoxelKey} : k ∈ dedupSorted l ↔ k ∈ l := by
  induction l using dedupSorted.induct with
  | case1 => rfl
  | case2 a => rfl
  | case3 a l ih => simp only [dedupSorted, if_true, ih, List.mem_cons, or_self_left]
  | case4 a c l hne ih => simp only [dedupSorted, if_neg hne, List.mem_cons, ih]

lemma VoxelKey.sortKey_injective : Function.Injective VoxelKey.sortKey := by
  intro k j h
  simp only [sortKey, EmbeddingLike.apply_eq_iff_eq, Prod.mk.injEq] at h
  obtain ⟨h1, h2, h3, h4⟩ := h
  cases k
  cases j
  simp_all

/-- In a sorted list, equal keys are neighbours, so removing equal neighbours leaves every key
once. -/
lemma nodup_dedupSorted {l : List VoxelKey} (h : l.Pairwise fun a c => a.sortKey ≤ c.sortKey) :
    (dedupSorted l).Nodup := by
  induction l using dedupSorted.induct with
  | case1 => exact List.nodup_nil
  | case2 a => exact List.nodup_singleton a
  | case3 a l ih =>
    rw [dedupSorted, if_pos rfl]
    exact ih (List.pairwise_cons.mp h).2
  | case4 a c l hne ih =>
    obtain ⟨ha, hl⟩ := List.pairwise_cons.mp h
    rw [dedupSorted, if_neg hne, List.nodup_cons, mem_dedupSorted]
    refine ⟨fun hmem => hne ?_, ih hl⟩
    -- `a` comes before `c`, and `c` before every later key
    have hca : c.sortKey ≤ a.sortKey := by
      rcases List.mem_cons.mp hmem with rfl | hmem
      · exact le_rfl
      · exact (List.pairwise_cons.mp hl).1 a hmem
    exact VoxelKey.sortKey_injective (le_antisymm (ha c List.mem_cons_self) hca)

/-- The extra keys are new, distinct, and each lies above one of the keys. -/
structure AncestorsOf (keys : List VoxelKey) (s : Ancestors) : Prop where
  present : ∀ k, k ∈ s.present ↔ k ∈ keys ∨ k ∈ s.extra
  nodup : s.extra.Nodup
  fresh : ∀ k ∈ s.extra, k ∉ keys
  above : ∀ k ∈ s.extra, ∃ c ∈ keys, IsAncestor k c

namespace AncestorsOf

variable {keys : List VoxelKey} {s : Ancestors}

lemma insert (h : AncestorsOf keys s) {p : VoxelKey} (hp : ∃ c ∈ keys, IsAncestor p c) :
    AncestorsOf keys (s.insert p) ∧ s.present ⊆ (s.insert p).present ∧
      p ∈ (s.insert p).present := by
  unfold Ancestors.insert
  split_ifs with hmem
  · exact ⟨h, subset_rfl, hmem⟩
  · refine ⟨⟨fun k => ?_, ?_, fun k hk => ?_, fun k hk => ?_⟩, Finset.subset_insert _ _,
      Finset.mem_insert_self _ _⟩
    · rw [Finset.mem_insert, h.present, List.mem_append, List.mem_singleton]
      tauto
    · refine List.nodup_append.mpr ⟨h.nodup, List.nodup_singleton p, fun k hk j hj => ?_⟩
      rintro rfl
      obtain rfl := List.mem_singleton.mp hj
      exact hmem ((h.present k).mpr (Or.inr hk))
    · rcases List.mem_append.mp hk with hk | hk
      · exact h.fresh k hk
      · obtain rfl := List.mem_singleton.mp hk
        exact fun hkeys => hmem ((h.present k).mpr (Or.inl hkeys))
    · rcases List.mem_append.mp hk with hk | hk
      · exact h.above k hk
      · obtain rfl := List.mem_singleton.mp hk
        exact hp

/-- Climbing from a key adds all of its proper ancestors. -/
lemma climb {n : ℕ} {k : VoxelKey} (hn : k.level = n) (h : AncestorsOf keys s)
    (hk : ∃ c ∈ keys, IsAncestor k c) :
    AncestorsOf keys (s.climb n k) ∧ s.present ⊆ (s.climb n k).present ∧
      ∀ a, IsProperAncestor a k → a ∈ (s.climb n k).present := by
  induction n generalizing k s with
  | zero =>
    refine ⟨h, subset_rfl, fun a ha => absurd ha.1 ?_⟩
    rw [VoxelKey.level_eq k, hn]
    exact Nat.not_lt_zero _
  | succ n ih =>
    have hpar := VoxelKey.parent_of_level_ne_zero (k := k) (by omega)
    set p : VoxelKey := ⟨k.level - 1, k.x / 2, k.y / 2, k.z / 2⟩
    have hchild : IsChild p k := VoxelKey.isChild_iff.mpr hpar
    have hpk : ∃ c ∈ keys, IsAncestor p c := by
      obtain ⟨c, hc, hkc⟩ := hk
      exact ⟨c, hc, hchild.isProperAncestor.isAncestor.trans hkc⟩
    obtain ⟨h1, hsub1, hp⟩ := h.insert hpk
    have hpl : p.level = n := Nat.sub_eq_of_eq_add hn
    obtain ⟨h2, hsub2, habove⟩ := ih hpl h1 hpk
    have hclimb : s.climb (n + 1) k = (s.insert p).climb n p := by
      rw [Ancestors.climb, hpar]
    rw [hclimb]
    refine ⟨h2, hsub1.trans hsub2, fun a ha => ?_⟩
    have hap : IsAncestor a p := by
      apply ha.isAncestor.of_level_le hchild.isProperAncestor.isAncestor
      have h3 := ha.1
      have h4 := hchild.1
      omega
    rcases hap.eq_or_proper with rfl | hap
    · exact hsub2 hp
    · exact habove a hap

/-- Climbing from every key adds all of their ancestors. -/
lemma foldl (todo : List (VoxelKey × ℕ)) (h : AncestorsOf keys s)
    (htodo : ∀ e ∈ todo, e.1 ∈ keys) :
    AncestorsOf keys (todo.foldl (fun s e => s.climb e.1.level e.1) s) ∧
      s.present ⊆ (todo.foldl (fun s e => s.climb e.1.level e.1) s).present ∧
      ∀ e ∈ todo, ∀ a, IsProperAncestor a e.1 →
        a ∈ (todo.foldl (fun s e => s.climb e.1.level e.1) s).present := by
  induction todo generalizing s with
  | nil => exact ⟨h, subset_rfl, by simp⟩
  | cons e todo ih =>
    obtain ⟨h1, hsub1, habove1⟩ :=
      h.climb rfl ⟨e.1, htodo e List.mem_cons_self, IsAncestor.refl _⟩
    obtain ⟨h2, hsub2, habove2⟩ := ih h1 fun u hu => htodo u (List.mem_cons_of_mem _ hu)
    refine ⟨h2, hsub1.trans hsub2, fun u hu a ha => ?_⟩
    rcases List.mem_cons.mp hu with rfl | hu
    · exact hsub2 (habove1 a ha)
    · exact habove2 u hu a ha

end AncestorsOf

/-- What `assembleNodes` lists when `allKeys` contains every node that holds points: these nodes and
their ancestors, once each, with the numbers of points they hold. -/
structure Listing (store : Store) (nodes : List (VoxelKey × ℕ)) : Prop where
  nodup : (nodes.map Prod.fst).Nodup
  counts : ∀ e ∈ nodes, e.2 = (store e.1).length
  complete : ∀ k, store k ≠ [] → k ∈ nodes.map Prod.fst
  closed : ∀ k ∈ nodes.map Prod.fst, ∀ a, IsAncestor a k → a ∈ nodes.map Prod.fst
  supported : ∀ k ∈ nodes.map Prod.fst, ∃ c, store c ≠ [] ∧ IsAncestor k c

theorem assembleNodes_listing {store : Store} {allKeys : List VoxelKey}
    (hall : ∀ k, store k ≠ [] → k ∈ allKeys) : Listing store (assembleNodes store allKeys) := by
  set sorted := allKeys.mergeSort fun a c => decide (a.sortKey ≤ c.sortKey)
  have hsorted : sorted.Pairwise fun a c => a.sortKey ≤ c.sortKey :=
    Lists.pairwise_mergeSort_by (fun a c : VoxelKey => a.sortKey ≤ c.sortKey)
      (fun _ _ _ => le_trans) (fun _ _ => le_total _ _) allKeys
  set result := ((dedupSorted sorted).map fun k => (k, (store k).length)).filter fun e => e.2 > 0
    with hresult
  set keys := result.map Prod.fst with hkeys
  have hmem : ∀ e, e ∈ result ↔ store e.1 ≠ [] ∧ e.2 = (store e.1).length := fun e => by
    rw [hresult, List.mem_filter, List.mem_map]
    simp only [mem_dedupSorted, gt_iff_lt, decide_eq_true_eq]
    constructor
    · rintro ⟨⟨k, -, rfl⟩, hpos⟩
      exact ⟨List.length_pos_iff.mp hpos, rfl⟩
    · rintro ⟨hne, hcount⟩
      refine ⟨⟨e.1, ?_, Prod.ext rfl hcount.symm⟩, hcount ▸ List.length_pos_iff.mpr hne⟩
      exact (List.mergeSort_perm _ _).mem_iff.mpr (hall e.1 hne)
  have hmemKeys : ∀ k, k ∈ keys ↔ store k ≠ [] := fun k => by
    rw [hkeys, List.mem_map]
    constructor
    · rintro ⟨e, he, rfl⟩
      exact ((hmem e).mp he).1
    · intro hne
      exact ⟨(k, (store k).length), (hmem _).mpr ⟨hne, rfl⟩, rfl⟩
  have hnodup : keys.Nodup := by
    have hsub : keys.Sublist (dedupSorted sorted) := by
      have h := (List.filter_sublist (p := fun e : VoxelKey × ℕ => decide (e.2 > 0))
        (l := (dedupSorted sorted).map fun k => (k, (store k).length))).map Prod.fst
      rwa [List.map_map, show (Prod.fst ∘ fun k : VoxelKey => (k, (store k).length)) = id from rfl,
        List.map_id] at h
    exact hsub.nodup (nodup_dedupSorted hsorted)
  have hstart : AncestorsOf keys ⟨keys.toFinset, []⟩ :=
    ⟨fun k => by simp, List.nodup_nil, by simp, by simp⟩
  obtain ⟨hanc, -, habove⟩ := hstart.foldl result fun e he => List.mem_map_of_mem he
  set anc := result.foldl (fun s e => s.climb e.1.level e.1) (⟨keys.toFinset, []⟩ : Ancestors)
  have hperm : (assembleNodes store allKeys).Perm (result ++ anc.extra.map fun k => (k, 0)) :=
    List.mergeSort_perm _ _
  have hfst : ((result ++ anc.extra.map fun k => (k, 0)).map Prod.fst) = keys ++ anc.extra := by
    rw [List.map_append, List.map_map, show (Prod.fst ∘ fun k : VoxelKey => (k, 0)) = id from rfl,
      List.map_id]
  have hmemFst : ∀ k, k ∈ (assembleNodes store allKeys).map Prod.fst ↔
      k ∈ keys ∨ k ∈ anc.extra := fun k => by
    rw [(hperm.map Prod.fst).mem_iff, hfst, List.mem_append]
  have hsupp : ∀ k, k ∈ keys ∨ k ∈ anc.extra → ∃ c ∈ keys, IsAncestor k c := by
    rintro k (hk | hk)
    · exact ⟨k, hk, IsAncestor.refl k⟩
    · exact hanc.above k hk
  refine ⟨?_, fun e he => ?_, fun k hk => ?_, fun k hk a ha => ?_, fun k hk => ?_⟩
  · rw [(hperm.map Prod.fst).nodup_iff, hfst]
    exact List.nodup_append.mpr ⟨hnodup, hanc.nodup, fun k hk j hj he =>
      hanc.fresh j hj (he ▸ hk)⟩
  · rcases List.mem_append.mp (hperm.mem_iff.mp he) with he | he
    · exact ((hmem e).mp he).2
    · obtain ⟨k, hk, rfl⟩ := List.mem_map.mp he
      have hnil : store k = [] := by
        by_contra hne
        exact hanc.fresh k hk ((hmemKeys k).mpr hne)
      rw [hnil]
      rfl
  · exact (hmemFst k).mpr (Or.inl ((hmemKeys k).mpr hk))
  · rw [hmemFst] at hk ⊢
    obtain ⟨c, hc, hkc⟩ := hsupp k hk
    rcases (ha.trans hkc).eq_or_proper with rfl | hac
    · exact Or.inl hc
    · obtain ⟨e, he, rfl⟩ := List.mem_map.mp hc
      exact (hanc.present a).mp (habove e he a hac)
  · obtain ⟨c, hc, hkc⟩ := hsupp k ((hmemFst k).mp hk)
    exact ⟨c, (hmemKeys c).mp hc, hkc⟩

/-! ## What a build leaves -/

/-- The chunk files of a plan hold the points `pts`: every point is in the file of a chunk whose
voxel contains it. -/
structure Distributed (b : OctreeBuilder F) (chunks : List PlannedChunk)
    (files : ℕ → List RawPoint) (pts : Multiset RawPoint) : Prop where
  routed : ∀ i c, chunks[i]? = some c → ∀ p ∈ files i, b.keyOf p c.level = c.key
  total : ((List.range chunks.length).map fun i => (↑(files i) : Multiset RawPoint)).sum = pts

namespace Distributed

variable {b : OctreeBuilder F} {chunks : List PlannedChunk} {files : ℕ → List RawPoint}
  {pts : Multiset RawPoint}

/-- The files of two sets of points may be joined one by one. -/
lemma append (h : Distributed b chunks files pts) {files' : ℕ → List RawPoint}
    {pts' : Multiset RawPoint} (h' : Distributed b chunks files' pts') :
    Distributed b chunks (fun i => files i ++ files' i) (pts + pts') where
  routed i c hc p hp :=
    (List.mem_append.mp hp).elim (h.routed i c hc p) (h'.routed i c hc p)
  total := by
    simp only [← Multiset.coe_add, List.sum_map_add, h.total, h'.total]

/-- Every point is in some file. -/
lemma mem_iff (h : Distributed b chunks files pts) {p : RawPoint} :
    p ∈ pts ↔ ∃ i, i < chunks.length ∧ p ∈ files i := by
  rw [← h.total]
  generalize chunks.length = n
  induction n with
  | zero => simp
  | succ n ih =>
    rw [List.range_succ, List.map_append, List.sum_append, Multiset.mem_add, ih]
    simp only [List.map_cons, List.map_nil, List.sum_cons, List.sum_nil, add_zero,
      Multiset.mem_coe]
    constructor
    · rintro (⟨i, hi, hp⟩ | hp)
      · exact ⟨i, by omega, hp⟩
      · exact ⟨n, by omega, hp⟩
    · rintro ⟨i, hi, hp⟩
      rcases Nat.lt_succ_iff_lt_or_eq.mp hi with hi | rfl
      · exact Or.inl ⟨i, hi, hp⟩
      · exact Or.inr hp

/-- The file of a chunk holds exactly the points of its voxel. -/
lemma file_eq (h : Distributed b chunks files pts) (hun : Unrelated (chunks.map PlannedChunk.key))
    {i : ℕ} {c : PlannedChunk} (hc : chunks[i]? = some c) :
    (↑(files i) : Multiset RawPoint) = inside b.addressing pts c.key := by
  classical
  have hi : i < chunks.length := (List.getElem?_eq_some_iff.mp hc).1
  -- a point in the file of another chunk is not in this voxel
  have hother : ∀ j, j < chunks.length → j ≠ i → ∀ p ∈ files j,
      ¬ b.addressing.Inside p c.key := fun j hj hne p hp hin => by
    have hpj := h.routed j _ (List.getElem?_eq_getElem hj) p hp
    have hkey : ∀ {n : ℕ} {d : PlannedChunk}, chunks[n]? = some d →
        (chunks.map PlannedChunk.key)[n]? = some d.key := by
      intro n d hd
      rw [List.getElem?_map, hd]
      rfl
    have hmax := b.addressing.isAncestor_addr p (le_max_left chunks[j].level c.level)
    have hmax' := b.addressing.isAncestor_addr p (le_max_right chunks[j].level c.level)
    rw [OctreeBuilder.addressing_addr, hpj] at hmax
    rw [OctreeBuilder.addressing_addr, show b.keyOf p c.level = c.key from hin] at hmax'
    exact hun.disjoint hne (hkey (List.getElem?_eq_getElem hj)) (hkey hc) hmax hmax'
  have hpart : ∀ n, n ≤ chunks.length →
      (((List.range n).map fun i => (↑(files i) : Multiset RawPoint)).sum).filter
        (fun p => b.addressing.Inside p c.key) = if i < n then ↑(files i) else 0 := by
    intro n
    induction n with
    | zero => simp
    | succ n ih =>
      intro hn
      rw [List.range_succ, List.map_append, List.sum_append, Multiset.filter_add, ih (by omega)]
      simp only [List.map_cons, List.map_nil, List.sum_cons, List.sum_nil, add_zero]
      by_cases hni : n = i
      · subst hni
        rw [if_neg (Nat.lt_irrefl n), if_pos (Nat.lt_succ_self n), zero_add]
        refine Multiset.filter_eq_self.mpr fun p hp => ?_
        exact h.routed n c hc p (Multiset.mem_coe.mp hp)
      · have hnone : (↑(files n) : Multiset RawPoint).filter
            (fun p => b.addressing.Inside p c.key) = 0 :=
          Multiset.filter_eq_nil.mpr fun p hp => hother n hn hni p (Multiset.mem_coe.mp hp)
        rw [hnone, add_zero]
        exact if_congr (by omega) rfl rfl
  have hfull := hpart chunks.length le_rfl
  rw [h.total, if_pos hi] at hfull
  exact hfull.symm

end Distributed

namespace OctreeBuilder

variable {b : OctreeBuilder F} {pts : Multiset RawPoint} {W : WalkRules VoxelKey}
  {I : PyramidInvariant b.addressing maxLeafPoints pts b.HandsUp W} {ord : IterOrder}
  {memoryBudget cores : ℕ} {plan : ChunkPlan} {chunkActualCounts : Option (List ℕ)}
  {files : ℕ → List RawPoint} {store : Store} {nodes : List (VoxelKey × ℕ)}

/-- The leaves of a build are not split further at a voxel: those of its chunk are not. -/
def BuildFloor (b : OctreeBuilder F) (ord : IterOrder) (pts : Multiset RawPoint)
    (memoryBudget cores : ℕ) (plan : ChunkPlan) (chunkActualCounts : Option (List ℕ))
    (files : ℕ → List RawPoint) (k : VoxelKey) : Prop :=
  ∃ i chunk, plan.chunks[i]? = some chunk ∧ IsAncestor chunk.key k ∧
    b.ChunkFloor ((ord.sub 1).sub i) pts chunkActualCounts files
      (buildConcurrencyAndBudget F memoryBudget cores).2 i chunk k

/-- Below a chunk root the leaves of the build are those of the chunk. -/
lemma buildFloor_iff (hun : Unrelated (plan.chunks.map PlannedChunk.key)) {i : ℕ}
    {chunk : PlannedChunk} (hi : plan.chunks[i]? = some chunk) {k : VoxelKey}
    (hk : IsAncestor chunk.key k) :
    b.ChunkFloor ((ord.sub 1).sub i) pts chunkActualCounts files
        (buildConcurrencyAndBudget F memoryBudget cores).2 i chunk k ↔
      b.BuildFloor ord pts memoryBudget cores plan chunkActualCounts files k := by
  refine ⟨fun h => ⟨i, chunk, hi, hk, h⟩, ?_⟩
  rintro ⟨j, other, hj, hother, h⟩
  have hkey : ∀ {i} {c : PlannedChunk}, plan.chunks[i]? = some c →
      (plan.chunks.map PlannedChunk.key)[i]? = some c.key := fun hc => by
    rw [List.getElem?_map, hc, Option.map_some]
  obtain rfl : i = j := by
    by_contra hij
    exact hun.disjoint hij (hkey hi) (hkey hj) hk hother
  obtain rfl := Option.some.inj (hi.symm.trans hj)
  exact h

/-- The chunks of a plan are built side by side into finished subtrees. -/
lemma chunks_allBuilt (hd : Distributed b plan.chunks files pts)
    (hun : Unrelated (plan.chunks.map PlannedChunk.key))
    (hroot : ∀ c ∈ plan.chunks, IsAncestor VoxelKey.root c.key)
    (hallow : W.Allow b.addressing maxLeafPoints pts VoxelKey.root
      (b.BuildFloor ord pts memoryBudget cores plan chunkActualCounts files))
    {built : Store × List (List (VoxelKey × ℕ))}
    (hok : (ord.sub 0).runTasks
      (b.buildChunkTask (ord.sub 1) memoryBudget cores chunkActualCounts files) plan.chunks
      (fun _ => []) = .ok built) :
    AllBuilt I PlannedChunk.key plan.chunks (fun _ => []) built.1 built.2 ∧
      Roots I VoxelKey.root (· ∈ plan.chunks.map PlannedChunk.key) (stored built.1) := by
  have hall : AllBuilt I PlannedChunk.key plan.chunks (fun _ => []) built.1 built.2 := by
    refine runTasks_allBuilt hun (fun _ _ _ _ => rfl) (fun i c st st' nodes hc hf hnil => ?_) hok
    exact buildChunkInMemory_built (hd.file_eq hun hc) (hallow.mono
      (hroot c (List.mem_of_getElem? hc)) fun k hk => buildFloor_iff hun hc hk) hnil hf
  refine ⟨hall, hall.roots hun hroot (fun p hp _ => ?_) (fun _ _ => rfl)
    fun q hq hne habove => hallow.inner q hq hne ?_⟩
  · obtain ⟨i, hi, hp⟩ := hd.mem_iff.mp hp
    exact ⟨_, List.getElem_mem hi, hd.routed i _ (List.getElem?_eq_getElem hi) p hp⟩
  · rintro ⟨i, chunk, hi, hchunk, -⟩
    exact habove chunk (List.mem_of_getElem? hi) hchunk

/-- A build that succeeds builds the chunks, merges their roots and lists the nodes. -/
lemma buildNodeMap_ok
    (hok : b.buildNodeMap ord memoryBudget cores (some plan) chunkActualCounts files =
      .ok (store, nodes)) :
    ∃ built parents, (ord.sub 0).runTasks
        (b.buildChunkTask (ord.sub 1) memoryBudget cores chunkActualCounts files) plan.chunks
        (fun _ => []) = .ok built ∧
      b.mergeChunkTops (ord.sub 2) memoryBudget built.1 (chunkRootKeys plan.chunks built.2)
        VoxelKey.root.level (buildConcurrencyAndBudget F memoryBudget cores).1
        (buildConcurrencyAndBudget F memoryBudget cores).2 = .ok (store, parents) ∧
      nodes = assembleNodes store
        (((plan.chunks.zip built.2).flatMap fun e => e.2.map Prod.fst) ++ parents) := by
  unfold buildNodeMap at hok
  simp only at hok
  split_ifs at hok with hlen
  · -- without chunks there is nothing to build, to merge or to list
    cases hok
    rw [List.eq_nil_of_length_eq_zero hlen]
    refine ⟨(fun _ => [], []), [], ?_, rfl, by simp [assembleNodes, dedupSorted]⟩
    have hnil : (ord.sub 0).list (List.zipIdx ([] : List PlannedChunk)) = [] :=
      List.perm_nil.mp ((ord.sub 0).list_perm _)
    rw [IterOrder.runTasks, hnil]
    rfl
  · cases hrun : (ord.sub 0).runTasks
        (b.buildChunkTask (ord.sub 1) memoryBudget cores chunkActualCounts files) plan.chunks
        fun _ => [] with
    | error e =>
      rw [hrun] at hok
      cases hok
    | ok built =>
      rw [hrun] at hok
      change (b.mergeChunkTops (ord.sub 2) memoryBudget built.1
        (chunkRootKeys plan.chunks built.2) VoxelKey.root.level _ _).bind _ = _ at hok
      cases hm : b.mergeChunkTops (ord.sub 2) memoryBudget built.1
          (chunkRootKeys plan.chunks built.2) VoxelKey.root.level
          (buildConcurrencyAndBudget F memoryBudget cores).1
          (buildConcurrencyAndBudget F memoryBudget cores).2 with
      | error e =>
        rw [hm] at hok
        cases hok
      | ok merged =>
        rw [hm] at hok
        cases hok
        exact ⟨built, merged.2, rfl, hm, rfl⟩

lemma mem_chunkRootKeys {chunks : List PlannedChunk} {results : List (List (VoxelKey × ℕ))}
    (k : VoxelKey) : k ∈ chunkRootKeys chunks results ↔ ∃ t nodes, (t, nodes) ∈ chunks.zip results ∧
      k ∈ keysAt (VoxelKey.level (PlannedChunk.key t)) nodes := by
  rw [chunkRootKeys, List.mem_flatMap]
  constructor
  · rintro ⟨⟨t, nodes⟩, ht, hk⟩
    exact ⟨t, nodes, ht, hk⟩
  · rintro ⟨t, nodes, ht, hk⟩
    exact ⟨(t, nodes), ht, hk⟩

/-- A build of a plan without related chunks finishes the subtree of the global root, leaves
nothing outside of it, and lists what it left. -/
theorem buildNodeMap_built (hd : Distributed b plan.chunks files pts)
    (hun : Unrelated (plan.chunks.map PlannedChunk.key))
    (hroot : ∀ c ∈ plan.chunks, IsAncestor VoxelKey.root c.key)
    (hallow : W.Allow b.addressing maxLeafPoints pts VoxelKey.root
      (b.BuildFloor ord pts memoryBudget cores plan chunkActualCounts files))
    (hok : b.buildNodeMap ord memoryBudget cores (some plan) chunkActualCounts files =
      .ok (store, nodes)) :
    I.Holds VoxelKey.root (stored store) ∧ (∀ k, ¬ IsAncestor VoxelKey.root k → store k = []) ∧
      Listing store nodes := by
  obtain ⟨built, parents, hrun, hm, rfl⟩ := buildNodeMap_ok hok
  obtain ⟨hall, hroots⟩ := chunks_allBuilt (I := I) hd hun hroot hallow hrun
  have hb := hall.merge hroots (fun _ _ => rfl) mem_chunkRootKeys hm
  refine ⟨hb.holds, hb.frame, assembleNodes_listing fun k hne => ?_⟩
  have hk : IsAncestor VoxelKey.root k := by
    by_contra hk
    exact hne (hb.frame k hk)
  rcases List.mem_append.mp (hb.complete k hk hne) with hmem | hmem
  · refine List.mem_append_left _ ?_
    obtain ⟨e, he, rfl⟩ := List.mem_map.mp hmem
    obtain ⟨nodes, hn, hen⟩ := List.mem_flatten.mp he
    obtain ⟨t, ht⟩ := hall.named nodes hn
    exact List.mem_flatMap.mpr ⟨(t, nodes), ht, List.mem_map_of_mem hen⟩
  · exact List.mem_append_right _ hmem

end OctreeBuilder

/-- A plan of one chunk at the global root that fits in memory is built as one subtree. -/
lemma OctreeBuilder.buildNodeMap_single (b : OctreeBuilder F) (ord : IterOrder)
    {memoryBudget cores : ℕ} (gridSize gridDepth count : ℕ) {files : ℕ → List RawPoint}
    (hfits : saturatingMul (files 0).length perChunkBytesPerPointBuild ≤
      (buildConcurrencyAndBudget F memoryBudget cores).2) :
    ∃ nodes, b.buildNodeMap ord memoryBudget cores
        (some ⟨gridSize, gridDepth, [⟨0, 0, 0, 0, count⟩]⟩) none files =
      .ok ((b.buildSubtree ((ord.sub 1).sub 0) (fun _ => []) VoxelKey.root (files 0)
        (files 0).length).1, nodes) := by
  set chunk : PlannedChunk := ⟨0, 0, 0, 0, count⟩
  set built := b.buildSubtree ((ord.sub 1).sub 0) (fun _ => []) VoxelKey.root (files 0)
    (files 0).length with hbuilt
  have htask : b.buildChunkTask (ord.sub 1) memoryBudget cores none files 0 chunk (fun _ => []) =
      .ok built := if_pos hfits
  have hrun : (ord.sub 0).runTasks (b.buildChunkTask (ord.sub 1) memoryBudget cores none files)
      [chunk] (fun _ => []) = .ok (built.1, [built.2]) := by
    have hlist : (ord.sub 0).list (List.zipIdx [chunk]) = [(chunk, 0)] :=
      List.perm_singleton.mp ((ord.sub 0).list_perm _)
    rw [IterOrder.runTasks, hlist, List.foldlM_cons, IterOrder.runTask, htask]
    change Except.ok (built.1, (List.range 1).filterMap (Function.update _ 0 (some built.2))) = _
    simp [List.range_one]
  have hlevel : ∀ k ∈ chunkRootKeys [chunk] [built.2], k.level = 0 := fun k hk => by
    obtain ⟨t, nodes, ht, hk⟩ := (mem_chunkRootKeys k).mp hk
    obtain rfl : t = chunk := by simpa using (List.of_mem_zip ht).1
    exact (mem_keysAt.mp hk).2
  have hmerge := b.mergeChunkTops_idle (ord.sub 2) memoryBudget built.1 hlevel
    (buildConcurrencyAndBudget F memoryBudget cores).1
    (buildConcurrencyAndBudget F memoryBudget cores).2
  refine ⟨assembleNodes built.1
    ((([chunk].zip [built.2]).flatMap fun e => e.2.map Prod.fst) ++ []), ?_⟩
  unfold buildNodeMap
  simp only
  rw [if_neg (by simp), hrun]
  change (b.mergeChunkTops (ord.sub 2) memoryBudget built.1 (chunkRootKeys [chunk] [built.2]) 0
    _ _).bind _ = _
  rw [hmerge]
  rfl

end CopcConverter
