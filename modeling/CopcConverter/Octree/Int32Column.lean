import CopcConverter.Octree.CoincidentPoints
import CopcConverter.Octree.Int32Agreement
import CopcConverter.Octree.Thinning

/-!
# A pile of points over 32-bit keys

A pile of coincident points, too many for the depth cap to separate, ends up in a single leaf.  One
of its points is sampled into the parent of the leaf and then collapses upward, parent by parent.
The way leads along the parents that the source computes, whatever voxels they are: here it is a
column of keys, one per level, each the parent of the next.

Followed here are the two loops that a point moves up by: the one over the nodes of a subtree in
memory, and the one that merges roots through the node store.  The leaf keeps all points but one,
and that one comes to the key of the column at the level where the loops stop.
-/

namespace CopcConverter

open LevelTree Interleave TaggedSplit

variable {F : Type} [FloatArith F]

/-! ## Sampling a pile -/

/-- Few points of a single child all move up. -/
lemma SampleGrid.sample_few (g : SampleGrid) {l : List RawPoint} (hne : l ≠ [])
    (hfew : l.length ≤ maxLeafPoints) : g.sample (tagged [l]) 1 = (l, [[]]) := by
  have hsnd : (tagged [l]).map Prod.snd = l := by
    rw [map_snd_tagged, List.flatten_cons, List.flatten_nil, List.append_nil]
  have hlen : (tagged [l]).length = l.length := by rw [← List.length_map (f := Prod.snd), hsnd]
  unfold sample
  rw [if_neg, if_pos (hlen.trans_le hfew), hsnd]
  · rfl
  · intro hempty
    rw [List.isEmpty_iff.mp hempty, List.map_nil] at hsnd
    exact hne hsnd.symm

/-- Of too many points at one place one moves up. -/
lemma SampleGrid.sample_pile (g : SampleGrid) (p : RawPoint) {n : ℕ} (hn : maxLeafPoints < n) :
    g.sample (tagged [List.replicate n p]) 1 = ([p], [List.replicate (n - 1) p]) := by
  have hlen : (tagged [List.replicate n p]).length = n := by
    rw [← List.length_map (f := Prod.snd), map_snd_tagged]
    simp
  have hs := g.sample_sampled [List.replicate n p]
  rw [List.length_singleton] at hs
  have hne : (g.sample (tagged [List.replicate n p]) 1).1 ≠ [] :=
    g.sample_single (by rwa [List.length_replicate])
  have hnodup := @SampleGrid.nodup_sample 1 g _ (hlen.symm ▸ hn : maxLeafPoints <
    (tagged [List.replicate n p]).length)
  obtain ⟨up, rem, hup⟩ : ∃ up rem, g.sample (tagged [List.replicate n p]) 1 = (up, rem) :=
    ⟨_, _, rfl⟩
  rw [hup] at hs hne hnodup ⊢
  obtain ⟨r, rfl⟩ := List.length_eq_one_iff.mp hs.length
  have htotal : (↑(up ++ r) : Multiset RawPoint) = ↑(List.replicate n p) := by
    have ht := hs.total
    simp only [List.map_cons, List.map_nil, List.sum_cons, List.sum_nil, add_zero,
      List.flatten_cons, List.flatten_nil, List.append_nil] at ht
    rw [← ht]
    rfl
  have hall : ∀ x ∈ up ++ r, x = p := fun x hx =>
    List.eq_of_mem_replicate ((Multiset.coe_eq_coe.mp htotal).mem_iff.mp hx)
  have hcount : up.length + r.length = n := by
    rw [← List.length_append, (Multiset.coe_eq_coe.mp htotal).length_eq, List.length_replicate]
  -- two accepted points would be in one cell of the grid
  obtain ⟨x, rest, rfl⟩ := List.exists_cons_of_ne_nil hne
  obtain rfl := hall x (by simp)
  obtain rfl : rest = [] := by
    refine List.eq_nil_iff_forall_not_mem.mpr fun y hy => ?_
    obtain rfl := hall y (List.mem_append_left _ (List.mem_cons_of_mem _ hy))
    exact (List.nodup_cons.mp hnodup).1 (List.mem_map_of_mem hy)
  rw [List.length_singleton] at hcount
  have hr : r = List.replicate (n - 1) x :=
    List.eq_replicate_iff.mpr ⟨by omega, fun y hy => hall y (List.mem_append_right _ hy)⟩
  rw [hr]

/-! ## One round over a single node -/

/-- Keys at the levels down to `m`, each the parent of the next. -/
structure Column (m : ℕ) (c : ℕ → VoxelKey) : Prop where
  level : ∀ d, d ≤ m → (c d).level = d
  parent : ∀ d, d < m → (c (d + 1)).parent32 = some (c d)

/-- Keys of a column at different levels differ. -/
lemma Column.ne {m : ℕ} {c : ℕ → VoxelKey} (h : Column m c) {d e : ℕ} (hd : d ≤ m) (he : e ≤ m)
    (hne : d ≠ e) : c d ≠ c e := fun heq =>
  hne ((h.level d hd).symm.trans ((congrArg VoxelKey.level heq).trans (h.level e he)))

lemma Column.mono {m l : ℕ} {c : ℕ → VoxelKey} (h : Column m c) (hl : l ≤ m) : Column l c :=
  ⟨fun d hd => h.level d (hd.trans hl), fun d hd => h.parent d (hd.trans_le hl)⟩

/-- A key alone makes one group. -/
lemma pairs_groupByParent32 {k q : VoxelKey} (h : k.parent32 = some q) :
    (groupByParent32 [k]).pairs = [(q, [k])] := by
  unfold groupByParent32 BucketMap.groupBy
  simp only [List.foldl_cons, List.foldl_nil, h]
  rfl

lemma parentGroups32_single (ord : IterOrder) {nodes : Nodes} {d : ℕ} {k q : VoxelKey}
    (hparent : k.parent32 = some q) (hk : k ∈ nodes) (hl : k.level = d + 1)
    (honly : ∀ j ∈ nodes, j.level = d + 1 → j = k) :
    parentGroups32 ord nodes d = [(q, [k])] := by
  have hkeys : ((ord.sub 0).list nodes.keys).filter (fun k => k.level = d + 1) = [k] := by
    have hnodup : ((ord.sub 0).list nodes.keys).Nodup :=
      ((ord.sub 0).list_perm nodes.keys).nodup_iff.mpr (AList.keys_nodup nodes)
    refine List.perm_singleton.mp ((List.perm_ext_iff_of_nodup (hnodup.filter _)
      (List.nodup_singleton k)).mpr fun j => ?_)
    rw [List.mem_filter, IterOrder.mem_list, ← AList.mem_keys, decide_eq_true_eq,
      List.mem_singleton]
    exact ⟨fun h => honly j h.1 h.2, fun h => h ▸ ⟨hk, hl⟩⟩
  unfold parentGroups32
  rw [hkeys, pairs_groupByParent32 hparent]
  exact List.perm_singleton.mp ((ord.sub 1).list_perm _)

namespace OctreeBuilder

variable (b : OctreeBuilder F)

/-- A round over a level with a single node samples the node into its parent. -/
lemma levelStep32_single (ord : IterOrder) {nodes : Nodes} {d : ℕ} {k q : VoxelKey}
    (hparent : k.parent32 = some q) (hne : nodes.get k ≠ []) (hl : k.level = d + 1)
    (honly : ∀ j ∈ nodes, j.level = d + 1 → j = k) {up rem : List RawPoint}
    (hsample : (b.sampleGrid32 q).sample (tagged [nodes.get k]) 1 = (up, [rem])) :
    b.levelStep32 ord nodes d = applyResult (nodes.erase k) ⟨q, [k], up, [rem]⟩ := by
  have hgroups := parentGroups32_single ord hparent (BucketMap.mem_of_get_ne_nil hne) hl honly
  have htagged : (tagged [nodes.get k]).isEmpty = false := by
    cases hget : nodes.get k with
    | nil => exact absurd hget hne
    | cons x l => rfl
  have htask : b.sampleTask32 ⟨q, [k], tagged [nodes.get k]⟩ = ⟨q, [k], up, [rem]⟩ := by
    unfold sampleTask32
    simp only [htagged, Bool.false_eq_true, if_false]
    change (⟨q, [k], ((b.sampleGrid32 q).sample (tagged [nodes.get k]) 1).1,
      ((b.sampleGrid32 q).sample (tagged [nodes.get k]) 1).2⟩ : SampleResult) = _
    rw [hsample]
  unfold levelStep32
  rw [hgroups]
  change ([b.sampleTask32 ⟨q, [k], tagged [nodes.get k]⟩]).foldl applyResult (nodes.erase k) = _
  rw [htask]
  rfl

end OctreeBuilder

/-- What a sampled node leaves behind. -/
lemma get_applyResult_single (nodes : Nodes) {q k : VoxelKey} {up rem : List RawPoint}
    (hup : up ≠ []) (j : VoxelKey) :
    (applyResult (nodes.erase k) ⟨q, [k], up, [rem]⟩).get j =
      if j = q then up else if j = k then rem else nodes.get j := by
  have hinsert : BucketMap.insertEach (nodes.erase k) [k] [rem] =
      BucketMap.insertNonempty (nodes.erase k) k rem := rfl
  unfold applyResult
  rw [hinsert, BucketMap.get_insertNonempty, BucketMap.get_insertNonempty, BucketMap.get_erase]
  by_cases hq : j = q
  · rw [if_pos ⟨hq, hup⟩, if_pos hq]
  · rw [if_neg fun h => hq h.1, if_neg hq]
    by_cases hk : j = k
    · rw [if_pos hk, if_pos hk]
      split_ifs with hrem
      · rfl
      · by_contra hne
        exact hrem ⟨hk, Ne.symm hne⟩
    · rw [if_neg fun h => hk h.1, if_neg hk, if_neg hk]

lemma mem_applyResult_single {nodes : Nodes} {q k j : VoxelKey} {up rem : List RawPoint}
    (h : j ∈ applyResult (nodes.erase k) ⟨q, [k], up, [rem]⟩) :
    j = q ∨ (j = k ∧ rem ≠ []) ∨ (j ≠ k ∧ j ∈ nodes) := by
  have hinsert : BucketMap.insertEach (nodes.erase k) [k] [rem] =
      BucketMap.insertNonempty (nodes.erase k) k rem := rfl
  unfold applyResult at h
  rw [hinsert] at h
  rcases BucketMap.mem_insertNonempty.mp h with ⟨hq, -⟩ | h
  · exact Or.inl hq
  · rcases BucketMap.mem_insertNonempty.mp h with h | h
    · exact Or.inr (Or.inl h)
    · exact Or.inr (Or.inr (AList.mem_erase.mp h))

/-! ## The way up -/

/-- One point of a pile of `n` has come up to level `d` of a column, the others have stayed in the
leaf at level `m`, and there is nothing else. -/
structure Lifted (c : ℕ → VoxelKey) (m d : ℕ) (p : RawPoint) (n : ℕ) (nodes : Nodes) : Prop where
  only : ∀ k ∈ nodes, k = c d ∨ k = c m
  lifted : nodes.get (c d) = [p]
  stayed : nodes.get (c m) = List.replicate (n - 1) p

section Lifted

variable {b : OctreeBuilder F} {c : ℕ → VoxelKey} {m d n : ℕ} {p : RawPoint} {nodes : Nodes}

/-- The parent of the leaf takes one point of the pile. -/
lemma lifted_first (hc : Column (d + 1) c) (hn : maxLeafPoints < n) (ord : IterOrder)
    (honly : ∀ k ∈ nodes, k = c (d + 1)) (hget : nodes.get (c (d + 1)) = List.replicate n p) :
    Lifted c (d + 1) d p n (b.levelStep32 ord nodes d) := by
  have hne : nodes.get (c (d + 1)) ≠ [] := by
    rw [hget]
    exact List.ne_nil_of_length_pos (by rw [List.length_replicate]; omega)
  have hkeys : c (d + 1) ≠ c d := hc.ne le_rfl (Nat.le_succ d) (Nat.succ_ne_self d)
  rw [b.levelStep32_single ord (hc.parent d (Nat.lt_succ_self d)) hne (hc.level _ le_rfl)
    (fun j hj _ => honly j hj) (hget ▸ SampleGrid.sample_pile _ p hn)]
  refine ⟨fun k hk => ?_, ?_, ?_⟩
  · rcases mem_applyResult_single hk with h | ⟨h, -⟩ | ⟨h, hk⟩
    · exact Or.inl h
    · exact Or.inr h
    · exact absurd (honly k hk) h
  · rw [get_applyResult_single _ (List.cons_ne_nil p []), if_pos rfl]
  · rw [get_applyResult_single _ (List.cons_ne_nil p []), if_neg hkeys, if_pos rfl]

/-- The point moves up one level further. -/
lemma Lifted.levelStep32 (h : Lifted c m (d + 1) p n nodes) (hc : Column m c) (hm : d + 1 < m)
    (ord : IterOrder) : Lifted c m d p n (b.levelStep32 ord nodes d) := by
  have hne : nodes.get (c (d + 1)) ≠ [] := by
    rw [h.lifted]
    exact List.cons_ne_nil p []
  have hleaf : c m ≠ c (d + 1) := hc.ne le_rfl hm.le hm.ne'
  have hsample : (b.sampleGrid32 (c d)).sample (tagged [nodes.get (c (d + 1))]) 1 =
      ([p], [[]]) := by
    rw [h.lifted]
    exact SampleGrid.sample_few _ (List.cons_ne_nil p []) (by simp [maxLeafPoints])
  rw [b.levelStep32_single ord (hc.parent d (by omega)) hne (hc.level _ hm.le)
    (fun j hj hl => ?_) hsample]
  · refine ⟨fun k hk => ?_, ?_, ?_⟩
    · rcases mem_applyResult_single hk with hk | ⟨-, hk⟩ | ⟨hne, hk⟩
      · exact Or.inl hk
      · exact absurd rfl hk
      · exact Or.inr ((h.only k hk).resolve_left hne)
    · rw [get_applyResult_single _ (List.cons_ne_nil p []), if_pos rfl]
    · rw [get_applyResult_single _ (List.cons_ne_nil p []),
        if_neg (hc.ne le_rfl (by omega) (by omega)), if_neg hleaf, h.stayed]
  · rcases h.only j hj with rfl | rfl
    · rfl
    · rw [hc.level m le_rfl] at hl
      omega

lemma Lifted.loop {min k : ℕ} (h : Lifted c m (min + k) p n nodes) (hc : Column m c)
    (hm : min + k < m) (ord : IterOrder) :
    Lifted c m min p n (b.bottomUpLoop32 ord min k nodes) := by
  induction k generalizing nodes with
  | zero => exact h
  | succ k ih => exact ih (h.levelStep32 hc hm _) (Nat.lt_of_succ_lt hm)

/-- The loop over the levels above the leaf of a pile. -/
lemma lifted_loop {min : ℕ} (hc : Column m c) (hn : maxLeafPoints < n) (hmin : min < m)
    (ord : IterOrder) (honly : ∀ k ∈ nodes, k = c m)
    (hget : nodes.get (c m) = List.replicate n p) :
    Lifted c m min p n (b.bottomUpLoop32 ord min (m - min) nodes) := by
  obtain ⟨k, rfl⟩ : ∃ k, m = min + k + 1 := ⟨m - min - 1, by omega⟩
  rw [show min + k + 1 - min = k + 1 by omega, OctreeBuilder.bottomUpLoop32]
  exact (lifted_first hc hn _ honly hget).loop hc (Nat.lt_succ_self _) ord

end Lifted

/-! ## The subtree of a pile -/

namespace OctreeBuilder

variable (b : OctreeBuilder F)

/-- The leaves of a pile are one leaf. -/
lemma leavesAt32_replicate (p : RawPoint) (n m : ℕ) :
    (∀ k ∈ b.leavesAt32 (List.replicate n p) m, k = b.keyOf32 p m) ∧
      BucketMap.get (b.leavesAt32 (List.replicate n p) m) (b.keyOf32 p m) = List.replicate n p := by
  have hpush : b.leavesAt32 (List.replicate n p) m =
      BucketMap.pushAll (fun raw => b.keyOf32 raw m) ∅ (List.replicate n p) := rfl
  rw [hpush]
  refine ⟨fun k hk => ?_, ?_⟩
  · rcases BucketMap.mem_pushAll.mp hk with hk | ⟨x, hx, rfl⟩
    · exact absurd hk (AList.notMem_empty k)
    · rw [List.eq_of_mem_replicate hx]
  · rw [BucketMap.get_pushAll, BucketMap.get_empty, List.nil_append, List.filter_replicate]
    simp

/-- A pile in a leaf below the depth cap stays there. -/
lemma subdivide32_pile (ord : IterOrder) {nodes : Nodes} {k : VoxelKey}
    (honly : ∀ j ∈ nodes, j = k) (hlevel : chunkDepthCap ≤ k.level) (fuel depth : ℕ) :
    b.subdivide32 ord fuel (nodes, depth) = (nodes, depth) := by
  cases fuel with
  | zero => rfl
  | succ fuel =>
    rw [subdivide32]
    split_ifs with hnone hcap
    · rfl
    · rfl
    · obtain ⟨j, hj⟩ := List.exists_mem_of_ne_nil _ (mt List.isEmpty_iff.mpr hnone)
      refine absurd (List.any_eq_true.mpr ⟨j, hj, decide_eq_true ?_⟩) hcap
      rw [honly j (AList.mem_keys.mpr (IterOrder.mem_list.mp (List.mem_filter.mp hj).1))]
      exact hlevel

end OctreeBuilder

/-- What the build of a pile of `n` points comes to: one point is at level `l` of the column, the
others are in the leaf at level `m`, and of the listed nodes at level `l` there is that of the
column, with none above. -/
structure Piled (c : ℕ → VoxelKey) (m l : ℕ) (p : RawPoint) (n : ℕ) (store : Store)
    (listed : List (VoxelKey × ℕ)) : Prop where
  top : store (c l) = [p]
  leaf : store (c m) = List.replicate (n - 1) p
  keys : keysAt l listed = [c l]
  below : ∀ e ∈ listed, l ≤ e.1.level

/-- Writing the nodes of a lifted pile to the store, and listing them. -/
lemma Lifted.piled {c : ℕ → VoxelKey} {m l n : ℕ} {p : RawPoint} {nodes : Nodes}
    (h : Lifted c m l p n nodes) (hc : Column m c) (hl : l < m) (hn : maxLeafPoints < n)
    (o o' : IterOrder) (store : Store) :
    Piled c m l p n
      ((o.list nodes.keys).foldl (fun st k => Store.write st k (BucketMap.get nodes k)) store)
      ((o'.list nodes.pairs).filterMap fun e =>
        if e.2.isEmpty then none else some (e.1, e.2.length)) := by
  have hstore : ∀ k, BucketMap.get nodes k ≠ [] →
      (o.list nodes.keys).foldl (fun st k => Store.write st k (BucketMap.get nodes k)) store k =
        BucketMap.get nodes k := fun k hk => by
    rw [foldl_write_eq, if_pos]
    exact IterOrder.mem_list.mpr (AList.mem_keys.mp (BucketMap.mem_of_get_ne_nil hk))
  have htop : BucketMap.get nodes (c l) ≠ [] := by
    rw [h.lifted]
    exact List.cons_ne_nil p []
  have hstayed : BucketMap.get nodes (c m) ≠ [] := by
    rw [h.stayed]
    unfold maxLeafPoints at hn
    exact List.ne_nil_of_length_pos (by rw [List.length_replicate]; omega)
  have hlevel := hc.level l hl.le
  refine ⟨(hstore _ htop).trans h.lifted, (hstore _ hstayed).trans h.stayed, ?_, fun e he => ?_⟩
  · refine List.perm_singleton.mp ((List.perm_ext_iff_of_nodup
      ((nodup_listing _ _).filter _) (List.nodup_singleton _)).mpr fun k => ?_)
    rw [← keysAt, mem_keysAt, mem_listing, List.mem_singleton]
    constructor
    · rintro ⟨⟨hk, -⟩, hkl⟩
      rcases h.only k hk with rfl | rfl
      · rfl
      · rw [hc.level m le_rfl] at hkl
        omega
    · rintro rfl
      exact ⟨⟨BucketMap.mem_of_get_ne_nil htop, htop⟩, hlevel⟩
  · rcases h.only e.1 (mem_listing.mp (List.mem_map_of_mem he)).1 with h | h
    · rw [h, hlevel]
    · rw [h, hc.level m le_rfl]
      exact hl.le

namespace OctreeBuilder

variable (b : OctreeBuilder F)

/-- The subtree of a pile. -/
lemma run_subtreeJob32_pile (σ : Schedules) (ord : IterOrder) (root : VoxelKey) {p : RawPoint}
    {m n estPoints : ℕ} {c : ℕ → VoxelKey}
    (hm : root.level + chunkLocalExtraLevels F estPoints = m) (hroot : root.level < m)
    (hcap : chunkDepthCap ≤ m) (hc : Column m c) (hleaf : c m = b.keyOf32 p m)
    (hn : maxLeafPoints < n) (store : Store) :
    ∃ store' listed, (b.subtreeJob32 σ ord root (List.replicate n p) estPoints).run store =
        .ok (store', listed) ∧ Piled c m root.level p n store' listed := by
  obtain ⟨honly, hget⟩ := b.leavesAt32_replicate p n m
  rw [← hleaf] at honly hget
  set leaves := b.leavesAt32 (List.replicate n p) m with hleaves
  have hsome : ¬ leaves.keys.isEmpty := fun hnil => by
    have hne : BucketMap.get leaves (c m) ≠ [] := by
      rw [hget]
      exact List.ne_nil_of_length_pos (by rw [List.length_replicate]; omega)
    have hmem := AList.mem_keys.mp (BucketMap.mem_of_get_ne_nil hne)
    rw [List.isEmpty_iff.mp hnil] at hmem
    cases hmem
  have hlifted := lifted_loop (b := b) hc hn hroot ((ord.sub 1).sub 0) honly hget
  set nodes := b.bottomUpLoop32 ((ord.sub 1).sub 0) root.level (m - root.level) leaves with hnodes
  obtain ⟨rs, hrs⟩ := run_interleave_writes
    ((((ord.sub 1).sub 1).list_perm _).nodup_iff.mpr (AList.keys_nodup nodes))
    (BucketMap.get nodes) σ.here store
  refine ⟨_, _, ?_, hlifted.piled hc hroot hn ((ord.sub 1).sub 1) ((ord.sub 1).sub 2) store⟩
  unfold subtreeJob32
  simp only
  rw [hm, ← hleaves, if_neg hsome, b.subdivide32_pile (ord.sub 0) honly
    (by rwa [hc.level m le_rfl])]
  exact Job.run_bind_ok hrs

end OctreeBuilder

/-! ## Merging a single root upward -/

namespace OctreeBuilder

/-- The groups of a level with a single key. -/
lemma groupsAt32_single (ord : IterOrder) {m : MergeKeys} {d : ℕ} {k q : VoxelKey}
    (hparent : k.parent32 = some q) (hkeys : m.keysByLevel.get (d + 1) = [k]) :
    groupsAt32 ord m d = [(q, [k])] := by
  have hlist : (ord.sub 0).list [k] = [k] := List.perm_singleton.mp ((ord.sub 0).list_perm _)
  unfold groupsAt32
  rw [hkeys, hlist, pairs_groupByParent32 hparent]
  exact List.perm_singleton.mp ((ord.sub 1).list_perm _)

variable (b : OctreeBuilder F)

/-- Merging a parent of one child with one point moves the point up. -/
lemma run_mergeParentJob32_single {k q : VoxelKey} {p : RawPoint} {store : Store}
    (hstore : store k = [p]) : (b.mergeParentJob32 (q, [k])).run store =
      .ok (Store.write (Store.write store k []) q [p], ()) := by
  have hsample : b.gridSample32 q (tagged [[p]]) 1 = ([p], [[]]) :=
    SampleGrid.sample_few _ (List.cons_ne_nil p []) (by simp [maxLeafPoints])
  unfold mergeParentJob32
  rw [Job.run_bind_ok (NodeJob.run_readEach [k] store), List.map_singleton, hstore]
  simp only [List.length_singleton, hsample]
  rfl

/-- One level of a merge over a single key with one point. -/
lemma run_mergeLevelJob32_single (σ : Schedules) (ord : IterOrder) (memoryBudget batchCap : ℕ)
    {m : MergeKeys} {d : ℕ} {k q : VoxelKey} {p : RawPoint} {store : Store}
    (hmem : b.memPerPoint ≤ mergeParentOomFloorBytes) (hparent : k.parent32 = some q)
    (hkeys : m.keysByLevel.get (d + 1) = [k]) (hstore : store k = [p]) :
    (b.mergeLevelJob32 σ ord memoryBudget batchCap m d).run store =
      .ok (Store.write (Store.write store k []) q [p],
        ⟨insertKey m.keysByLevel d q, m.newParents ++ [q]⟩) := by
  unfold mergeLevelJob32
  rw [groupsAt32_single ord hparent hkeys, Job.run_bind_ok (b.run_estimateJobs _ store)]
  simp only [List.map_singleton, hstore, List.length_singleton, List.sum_singleton]
  set t : MergeTask := ⟨q, [k], saturatingMul 1 b.memPerPoint⟩ with ht
  have hsmall : [t].find? (fun t => decide (t.estMem > max memoryBudget mergeParentOomFloorBytes)) =
      none := by
    have hest : t.estMem ≤ b.memPerPoint := (min_le_left _ _).trans (Nat.one_mul _).le
    have hle : t.estMem ≤ max memoryBudget mergeParentOomFloorBytes :=
      hest.trans (hmem.trans (le_max_right _ _))
    refine List.find?_eq_none.mpr fun u hu => ?_
    rw [List.mem_singleton.mp hu, decide_eq_true_eq]
    exact Nat.not_lt.mpr hle
  have hsort : [t].mergeSort (fun s t => decide (t.estMem ≤ s.estMem)) = [t] :=
    List.mergeSort_singleton t
  have hlist : ((ord.sub 2).sub 0).list [t] = [t] :=
    List.perm_singleton.mp (((ord.sub 2).sub 0).list_perm _)
  have hbatches : batches batchCap [t].length [t] = [[t]] := rfl
  rw [hsmall, hsort, hbatches]
  change ((b.mergeBatchJob32 (σ.sub 0) ((ord.sub 2).sub 0) d m [t]).bind _).run store = _
  have hjob : (Job.interleave (σ.sub 0).here (([t] : List MergeTask).map fun t =>
      b.mergeParentJob32 (t.parent, t.children))).run store =
        .ok (Store.write (Store.write store k []) q [p], [()]) := by
    rw [List.map_singleton, Job.run_interleave (List.pairwise_singleton _ _), Job.sequence,
      Job.run_bind_ok (b.run_mergeParentJob32_single hstore)]
    rfl
  unfold mergeBatchJob32
  rw [hlist, Job.run_bind, Job.run_bind_ok hjob]
  rfl

/-- The loop of a merge over a column: the point at its lower end comes to its upper end. -/
lemma run_mergeLoopJob32_single (σ : Schedules) (ord : IterOrder) (memoryBudget batchCap stop : ℕ)
    {n l : ℕ} {c : ℕ → VoxelKey} (hc : Column l c) (hn : stop + n ≤ l)
    (hmem : b.memPerPoint ≤ mergeParentOomFloorBytes) {m : MergeKeys} {p : RawPoint} {store : Store}
    (hkeys : m.keysByLevel.get (stop + n) = [c (stop + n)])
    (hnone : ∀ d, d < stop + n → m.keysByLevel.get d = []) (hstore : store (c (stop + n)) = [p]) :
    ∃ store' m', (b.mergeLoopJob32 σ ord memoryBudget batchCap stop n m).run store =
        .ok (store', m') ∧ store' (c stop) = [p] ∧
      m'.newParents = m.newParents ++ (List.range' stop n).reverse.map c ∧
      ∀ k, (∀ d, d ≤ stop + n → k ≠ c d) → store' k = store k := by
  induction n generalizing m store σ ord with
  | zero =>
    refine ⟨store, m, rfl, hstore, ?_, fun _ _ => rfl⟩
    rw [List.range'_zero, List.reverse_nil, List.map_nil, List.append_nil]
  | succ n ih =>
    have hlevel := b.run_mergeLevelJob32_single (d := stop + n) (σ.sub (stop + n))
      (ord.sub (stop + n)) memoryBudget batchCap hmem (hc.parent (stop + n) (by omega)) hkeys hstore
    have hnext : BucketMap.get (insertKey m.keysByLevel (stop + n) (c (stop + n))) (stop + n) =
        [c (stop + n)] := by
      rw [insertKey, BucketMap.get_insert_self, hnone _ (by omega)]
      rfl
    have hrest : ∀ d, d < stop + n →
        BucketMap.get (insertKey m.keysByLevel (stop + n) (c (stop + n))) d = [] := fun d hd => by
      rw [insertKey, BucketMap.get_insert, if_neg (by omega)]
      exact hnone d (by omega)
    obtain ⟨store', m', hrun, htop, hparents, hframe⟩ := @ih σ ord (by omega)
      ⟨insertKey m.keysByLevel (stop + n) (c (stop + n)), m.newParents ++ [c (stop + n)]⟩
      (Store.write (Store.write store (c (stop + n + 1)) []) (c (stop + n)) [p]) hnext hrest
      (Function.update_self ..)
    refine ⟨store', m', ?_, htop, ?_, fun k hk => ?_⟩
    · rw [mergeLoopJob32, Job.run_bind_ok hlevel]
      exact hrun
    · rw [hparents, List.range'_concat, List.reverse_append, List.map_append]
      simp
    · rw [hframe k fun d hd => hk d (by omega), Store.write, Store.write,
        Function.update_of_ne (hk _ (by omega)), Function.update_of_ne (hk (stop + n + 1) le_rfl)]

/-- Merging a single root with one point along a column. -/
lemma run_mergeTopsJob32_single (σ : Schedules) (ord : IterOrder) (memoryBudget stop : ℕ)
    {l : ℕ} {c : ℕ → VoxelKey} (hc : Column l c) (hstop : stop ≤ l)
    (hmem : b.memPerPoint ≤ mergeParentOomFloorBytes) (conc perParent : ℕ) {p : RawPoint}
    {store : Store} (hstore : store (c l) = [p]) :
    ∃ store', (b.mergeTopsJob32 σ ord memoryBudget [c l] stop conc perParent).run store =
        .ok (store', (List.range' stop (l - stop)).reverse.map c) ∧ store' (c stop) = [p] ∧
      ∀ k, (∀ d, d ≤ l → k ≠ c d) → store' k = store k := by
  have hlevel := hc.level l le_rfl
  have hkeys : keysByLevel [c l] = (∅ : BucketMap ℕ VoxelKey).insert l [c l] := by
    change insertKey ∅ (c l).level (c l) = _
    rw [hlevel]
    rfl
  have hmax : (keysByLevel [c l]).keys.foldl max 0 = l := by
    rw [hkeys]
    exact Nat.max_eq_right (Nat.zero_le l)
  have hl : stop + (l - stop) = l := Nat.add_sub_cancel' hstop
  have hfirst : BucketMap.get (keysByLevel [c l]) l = [c l] := by
    rw [hkeys]
    exact BucketMap.get_insert_self ..
  have hrest : ∀ d, d < l → BucketMap.get (keysByLevel [c l]) d = [] := fun d hd => by
    rw [hkeys]
    exact (BucketMap.get_insert ..).trans ((if_neg hd.ne).trans (BucketMap.get_empty d))
  obtain ⟨store', m', hrun, htop, hparents, hframe⟩ := b.run_mergeLoopJob32_single σ ord
    memoryBudget (saturatingMul conc perParent) stop hc hl.le hmem (m := ⟨keysByLevel [c l], []⟩)
    (by rwa [hl]) (by rwa [hl]) (by rwa [hl])
  refine ⟨store', ?_, htop, fun k hk => hframe k fun d hd => hk d (hl ▸ hd)⟩
  unfold mergeTopsJob32
  rw [if_neg (by simp)]
  simp only
  rw [hmax, Job.run_bind_ok hrun, hparents]
  rfl

end OctreeBuilder

end CopcConverter
