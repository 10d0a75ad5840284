import CopcConverter.Octree.MergeChunkTops

/-!
# Subtrees built side by side

Both phases of a build run one task for every subtree over the shared node store: the chunks of a
plan, and the sub-octants of a spilled chunk.  The roots are unrelated, that is, none lies above
another one and none is listed twice; so the tasks touch different nodes and do not see each other,
whatever order they run in.

What all tasks leave is `AllBuilt`: every root has its finished subtree, nothing else has changed,
and every node with points is listed.  This is what a merge starts from.  Merging finished subtrees
up to a common root, level by level over the node store, builds the subtree of that root, with the
same promises that building it in memory would give.
-/

namespace CopcConverter

open LevelTree IterOrder

variable {F : Type} [FloatArith F]

/-- No root lies above another, and none is listed twice. -/
def Unrelated (roots : List VoxelKey) : Prop :=
  roots.Pairwise fun r s => ¬ IsAncestor r s ∧ ¬ IsAncestor s r

/-- The keys of a node list that are at a level. -/
def keysAt (level : ℕ) (nodes : List (VoxelKey × ℕ)) : List VoxelKey :=
  (nodes.map Prod.fst).filter fun k => k.level = level

lemma mem_keysAt {level : ℕ} {nodes : List (VoxelKey × ℕ)} {k : VoxelKey} :
    k ∈ keysAt level nodes ↔ k ∈ nodes.map Prod.fst ∧ k.level = level := by
  rw [keysAt, List.mem_filter, decide_eq_true_eq]

/-- Distinct roots of which none lies above another are unrelated. -/
lemma unrelated_of_antichain {roots : List VoxelKey} (hnodup : roots.Nodup)
    (h : ∀ r s, r ∈ roots → s ∈ roots → IsAncestor r s → r = s) : Unrelated roots := by
  refine hnodup.imp_of_mem fun {r s} hr hs hne => ⟨fun hrs => hne (h r s hr hs hrs), fun hsr => ?_⟩
  exact hne (h s r hs hr hsr).symm

namespace Unrelated

variable {roots : List VoxelKey}

/-- The subtrees of two different roots are disjoint. -/
lemma disjoint (h : Unrelated roots) {i j : ℕ} (hij : i ≠ j) {r s k : VoxelKey}
    (hr : roots[i]? = some r) (hs : roots[j]? = some s) (hrk : IsAncestor r k) :
    ¬ IsAncestor s k := by
  intro hsk
  obtain ⟨hi, rfl⟩ := List.getElem?_eq_some_iff.mp hr
  obtain ⟨hj, rfl⟩ := List.getElem?_eq_some_iff.mp hs
  have hboth : ¬ IsAncestor roots[i] roots[j] ∧ ¬ IsAncestor roots[j] roots[i] := by
    rcases Nat.lt_or_gt_of_ne hij with hlt | hlt
    · exact List.pairwise_iff_getElem.mp h i j hi hj hlt
    · exact (List.pairwise_iff_getElem.mp h j i hj hi hlt).symm
  rcases Nat.le_total (level roots[i]) (level roots[j]) with hle | hle
  · exact hboth.1 (hrk.of_level_le hsk hle)
  · exact hboth.2 (hsk.of_level_le hrk hle)

/-- Unrelated roots are an antichain. -/
lemma antichain (h : Unrelated roots) {r s : VoxelKey} (hr : r ∈ roots) (hs : s ∈ roots)
    (hrs : IsAncestor r s) : r = s := by
  obtain ⟨i, hi⟩ := List.getElem?_of_mem hr
  obtain ⟨j, hj⟩ := List.getElem?_of_mem hs
  by_contra hne
  refine h.disjoint (fun hij => hne ?_) hi hj hrs (IsAncestor.refl s)
  exact Option.some.inj (hi.symm.trans (hij ▸ hj))

end Unrelated

section Family

variable {α : Type} {A : Addressing RawPoint VoxelKey} {cap : ℕ} {pts : Multiset RawPoint}
  {HandsUp : VoxelKey → List VoxelKey → (VoxelKey → Multiset RawPoint) → Multiset RawPoint → Prop}
  {W : WalkRules VoxelKey}

/-- Every task has built the subtree of its root, and nothing else has changed. -/
structure AllBuilt (I : PyramidInvariant A cap pts HandsUp W) (root : α → VoxelKey) (tasks : List α)
    (store store' : Store) (results : List (List (VoxelKey × ℕ))) : Prop where
  done : ∀ t ∈ tasks, ∃ nodes, (t, nodes) ∈ tasks.zip results
  named : ∀ nodes ∈ results, ∃ t, (t, nodes) ∈ tasks.zip results
  holds : ∀ t ∈ tasks, I.Holds (root t) (stored store')
  frame : ∀ k, (∀ t ∈ tasks, ¬ IsAncestor (root t) k) → store' k = store k
  under : ∀ t nodes, (t, nodes) ∈ tasks.zip results →
    ∀ k ∈ nodes.map Prod.fst, IsAncestor (root t) k
  complete : ∀ t nodes, (t, nodes) ∈ tasks.zip results →
    ∀ k, IsAncestor (root t) k → store' k ≠ [] → k ∈ nodes.map Prod.fst

variable {I : PyramidInvariant A cap pts HandsUp W} {root : α → VoxelKey} {tasks : List α}
  {store store' : Store} {results : List (List (VoxelKey × ℕ))}

/-- What holds while the tasks run. -/
structure TasksDone (I : PyramidInvariant A cap pts HandsUp W) (root : α → VoxelKey)
    (tasks : List α) (store : Store) (done : List (α × ℕ)) (s : Store)
    (res : ℕ → Option (List (VoxelKey × ℕ))) : Prop where
  indexed : ∀ t ∈ done, tasks[t.2]? = some t.1
  holds : ∀ t ∈ done, I.Holds (root t.1) (stored s)
  frame : ∀ k, (∀ t ∈ done, ¬ IsAncestor (root t.1) k) → s k = store k
  listed : ∀ t ∈ done, ∃ nodes, res t.2 = some nodes ∧
    (∀ k ∈ nodes.map Prod.fst, IsAncestor (root t.1) k) ∧
      ∀ k, IsAncestor (root t.1) k → s k ≠ [] → k ∈ nodes.map Prod.fst

namespace TasksDone

variable {done : List (α × ℕ)} {s s' : Store} {res : ℕ → Option (List (VoxelKey × ℕ))} {t : α × ℕ}

/-- A task that is still to run is another one than those that are done. -/
lemma ne (h : TasksDone I root tasks store done s res) (ht : tasks[t.2]? = some t.1)
    (hnot : t ∉ done) : ∀ u ∈ done, u.2 ≠ t.2 := fun u hu he => hnot <| by
  have hx := h.indexed u hu
  rw [he, ht] at hx
  rwa [show t = u from Prod.ext (Option.some.inj hx) he.symm]

/-- The subtree of a task that is still to run is disjoint from what is done. -/
lemma apart (hun : Unrelated (tasks.map root)) (h : TasksDone I root tasks store done s res)
    (ht : tasks[t.2]? = some t.1) (hnot : t ∉ done) {u : α × ℕ} (hu : u ∈ done) {k : VoxelKey}
    (hk : IsAncestor (root u.1) k) : ¬ IsAncestor (root t.1) k := by
  refine hun.disjoint (h.ne ht hnot u hu) ?_ ?_ hk
  · rw [List.getElem?_map, h.indexed u hu]
    rfl
  · rw [List.getElem?_map, ht]
    rfl

/-- The subtree of a task that is still to run is empty. -/
lemma empty (hun : Unrelated (tasks.map root))
    (hempty : ∀ t ∈ tasks, ∀ k, IsAncestor (root t) k → store k = [])
    (h : TasksDone I root tasks store done s res) (ht : tasks[t.2]? = some t.1) (hnot : t ∉ done)
    {k : VoxelKey} (hk : IsAncestor (root t.1) k) : s k = [] := by
  rw [h.frame k fun u hu huk => h.apart hun ht hnot hu huk hk]
  exact hempty t.1 (List.mem_of_getElem? ht) k hk

/-- One more task. -/
lemma next (hun : Unrelated (tasks.map root)) {nodes : List (VoxelKey × ℕ)}
    (h : TasksDone I root tasks store done s res) (ht : tasks[t.2]? = some t.1) (hnot : t ∉ done)
    (hb : Built I (root t.1) s s' (nodes.map Prod.fst)) :
    TasksDone I root tasks store (t :: done) s' (Function.update res t.2 (some nodes)) := by
  refine ⟨fun u hu => ?_, fun u hu => ?_, fun k hk => ?_, fun u hu => ?_⟩
  · rcases List.mem_cons.mp hu with rfl | hu
    · exact ht
    · exact h.indexed u hu
  · rcases List.mem_cons.mp hu with rfl | hu
    · exact hb.holds
    · refine I.congr (fun k hk => ?_) (h.holds u hu)
      exact congrArg Multiset.ofList (hb.frame k (h.apart hun ht hnot hu hk))
  · rw [hb.frame k (hk t List.mem_cons_self)]
    exact h.frame k fun u hu => hk u (List.mem_cons_of_mem _ hu)
  · rcases List.mem_cons.mp hu with rfl | hu
    · exact ⟨nodes, Function.update_self _ _ _, hb.under, hb.complete⟩
    · obtain ⟨nodes', hres, hunder, hcomplete⟩ := h.listed u hu
      refine ⟨nodes', by rw [Function.update_of_ne (h.ne ht hnot u hu), hres], hunder,
        fun k hk hnil => hcomplete k hk ?_⟩
      rwa [← hb.frame k (h.apart hun ht hnot hu hk)]

lemma start : TasksDone I root tasks store [] store fun _ => none where
  indexed := by simp
  holds := by simp
  frame _ _ := rfl
  listed := by simp

end TasksDone

/-- Running one build per root builds them all. -/
theorem runTasks_allBuilt
    {f : ℕ → α → Store → Except BuildError (Store × List (VoxelKey × ℕ))}
    {ord : IterOrder} (hun : Unrelated (tasks.map root))
    (hempty : ∀ t ∈ tasks, ∀ k, IsAncestor (root t) k → store k = [])
    (hbuild : ∀ i t s s' nodes, tasks[i]? = some t → f i t s = .ok (s', nodes) →
      (∀ k, IsAncestor (root t) k → s k = []) → Built I (root t) s s' (nodes.map Prod.fst))
    (hok : ord.runTasks f tasks store = .ok (store', results)) :
    AllBuilt I root tasks store store' results := by
  have hmem : ∀ t : α × ℕ, t ∈ tasks.zipIdx ↔ tasks[t.2]? = some t.1 := fun t =>
    List.mem_zipIdx_iff_getElem?
  obtain ⟨all, res, hperm, h, rfl⟩ := runTasks_ok (g := fun _ _ _ => ([] : List Unit))
    (fun done s res _ => TasksDone I root tasks store done s res) hok TasksDone.start
    fun done t s s' nodes res _ ht hnot hf hdone => by
      have ht' := (hmem t).mp ht
      exact hdone.next hun ht' hnot <| hbuild t.2 t.1 s s' nodes ht' hf fun k =>
        hdone.empty hun hempty ht' hnot
  have hall : ∀ {t i}, tasks[i]? = some t → (t, i) ∈ all := fun {t i} ht =>
    hperm.mem_iff.mpr ((hmem (t, i)).mpr ht)
  have hsome : ∀ i, i < tasks.length → (res i).isSome := fun i hi => by
    obtain ⟨nodes, hres, -⟩ := h.listed _ (hall (List.getElem?_eq_getElem hi))
    rw [hres]
    rfl
  have hzip := fun t nodes => mem_zip_results hsome (t := t) (r := nodes)
  refine ⟨fun t ht => ?_, fun nodes hn => ?_, fun t ht => ?_, fun k hk => ?_,
    fun t nodes ht => ?_, fun t nodes ht => ?_⟩
  · obtain ⟨i, hi⟩ := List.getElem?_of_mem ht
    obtain ⟨nodes, hres, -⟩ := h.listed _ (hall hi)
    exact ⟨nodes, (hzip t nodes).mpr ⟨i, hi, hres⟩⟩
  · obtain ⟨i, hi, hres⟩ := List.mem_filterMap.mp hn
    exact ⟨_, (hzip _ nodes).mpr ⟨i, List.getElem?_eq_getElem (List.mem_range.mp hi), hres⟩⟩
  · obtain ⟨i, hi⟩ := List.getElem?_of_mem ht
    exact h.holds _ (hall hi)
  · exact h.frame k fun t ht => hk t.1 (List.mem_of_getElem? (h.indexed t ht))
  · obtain ⟨i, hi, hres⟩ := (hzip t nodes).mp ht
    obtain ⟨nodes', hres', hunder, -⟩ := h.listed _ (hall hi)
    obtain rfl := Option.some.inj (hres.symm.trans hres')
    exact hunder
  · obtain ⟨i, hi, hres⟩ := (hzip t nodes).mp ht
    obtain ⟨nodes', hres', -, hcomplete⟩ := h.listed _ (hall hi)
    obtain rfl := Option.some.inj (hres.symm.trans hres')
    exact hcomplete

namespace AllBuilt

variable {top : VoxelKey}

/-- The finished subtrees are roots from which a walk up can start. -/
lemma roots (h : AllBuilt I root tasks store store' results) (hun : Unrelated (tasks.map root))
    (hbelow : ∀ t ∈ tasks, IsAncestor top (root t))
    (hcovers : ∀ p ∈ pts, A.Inside p top → ∃ t ∈ tasks, A.Inside p (root t))
    (hempty : ∀ k, IsAncestor top k → store k = [])
    (hinner : ∀ q, IsAncestor top q → inside A pts q ≠ 0 →
      (∀ t ∈ tasks, ¬ IsAncestor (root t) q) → W.Inner q) :
    Roots I top (· ∈ tasks.map root) (stored store') where
  below r hr := by
    obtain ⟨t, ht, rfl⟩ := List.mem_map.mp hr
    exact hbelow t ht
  antichain r s hr hs := hun.antichain hr hs
  covers p hp htop := by
    obtain ⟨t, ht, hin⟩ := hcovers p hp htop
    exact ⟨root t, List.mem_map_of_mem ht, hin⟩
  supported k hk hne := by
    by_contra hnone
    refine hne (stored_eq_zero.mpr ?_)
    rw [h.frame k fun t ht htk => hnone ⟨root t, List.mem_map_of_mem ht, htk⟩, hempty k hk]
  holds r hr := by
    obtain ⟨t, ht, rfl⟩ := List.mem_map.mp hr
    exact h.holds t ht
  inner q hq hne habove := hinner q hq hne fun t ht => habove _ (List.mem_map_of_mem ht)

/-- Where nothing was stored before, every node that holds points is listed by its task. -/
lemma exists_listed (h : AllBuilt I root tasks store store' results) {k : VoxelKey}
    (hempty : store k = []) (hne : store' k ≠ []) : k ∈ results.flatten.map Prod.fst := by
  by_contra hnone
  apply hne
  rw [h.frame k fun t ht htk => ?_, hempty]
  obtain ⟨nodes, hmem⟩ := h.done t ht
  obtain ⟨e, he, rfl⟩ := List.mem_map.mp (h.complete t nodes hmem k htk hne)
  exact hnone (List.mem_map_of_mem (List.mem_flatten.mpr ⟨nodes, (List.of_mem_zip hmem).2, he⟩))

/-- The root keys that are passed on to a merge are roots, and include every root that holds
points. -/
lemma rootKeys (h : AllBuilt I root tasks store store' results) {rootKeys : List VoxelKey}
    (hkeys : ∀ k, k ∈ rootKeys ↔
      ∃ t nodes, (t, nodes) ∈ tasks.zip results ∧ k ∈ keysAt (root t).level nodes) :
    (∀ k ∈ rootKeys, k ∈ tasks.map root) ∧
      ∀ r, r ∈ tasks.map root → store' r ≠ [] → r ∈ rootKeys := by
  refine ⟨fun k hk => ?_, fun r hr hne => ?_⟩
  · obtain ⟨t, nodes, ht, hk⟩ := (hkeys k).mp hk
    obtain ⟨hk, hl⟩ := mem_keysAt.mp hk
    rw [← (h.under t nodes ht k hk).eq_of_level hl.symm]
    exact List.mem_map_of_mem (List.of_mem_zip ht).1
  · obtain ⟨t, ht, rfl⟩ := List.mem_map.mp hr
    obtain ⟨nodes, hmem⟩ := h.done t ht
    exact (hkeys _).mpr ⟨t, nodes, hmem,
      mem_keysAt.mpr ⟨h.complete t nodes hmem _ (IsAncestor.refl _) hne, rfl⟩⟩

end AllBuilt

end Family

/-- No root is deeper than the deepest. -/
lemma level_le_foldl_max (roots : List VoxelKey) {r : VoxelKey} (hr : r ∈ roots) :
    r.level ≤ (roots.map VoxelKey.level).foldl max 0 :=
  OctreeBuilder.le_foldl_max (Or.inl (List.mem_map_of_mem hr))

/-- Merging finished subtrees up to `top` builds the subtree of `top`. -/
theorem AllBuilt.merge {α : Type} {b : OctreeBuilder F} {pts : Multiset RawPoint}
    {W : WalkRules VoxelKey}
    {I : PyramidInvariant b.addressing maxLeafPoints pts b.HandsUp W} {root : α → VoxelKey}
    {tasks : List α} {top : VoxelKey} {store store' store'' : Store}
    {results : List (List (VoxelKey × ℕ))} (h : AllBuilt I root tasks store store' results)
    (hroots : Roots I top (· ∈ tasks.map root) (stored store'))
    (hempty : ∀ k, IsAncestor top k → store k = []) {rootKeys parents : List VoxelKey}
    (hkeys : ∀ k, k ∈ rootKeys ↔
      ∃ t nodes, (t, nodes) ∈ tasks.zip results ∧ k ∈ keysAt (root t).level nodes)
    {ord : IterOrder} {memoryBudget conc perParent : ℕ}
    (hok : b.mergeChunkTops ord memoryBudget store' rootKeys top.level conc perParent =
      .ok (store'', parents)) :
    Built I top store store'' (results.flatten.map Prod.fst ++ parents) := by
  obtain ⟨hroot, hall⟩ := h.rootKeys hkeys
  have hm := OctreeBuilder.mergeChunkTops_merged hroots (fun r => level_le_foldl_max _) hroot hall
    hok
  have hbelow : ∀ t ∈ tasks, IsAncestor top (root t) := fun t ht =>
    hroots.below _ (List.mem_map_of_mem ht)
  refine ⟨hm.holds, fun k hk => ?_, fun k hk => ?_, fun k hk hne => ?_⟩
  · rw [hm.frame k hk]
    exact h.frame k fun t ht htk => hk ((hbelow t ht).trans htk)
  · rcases List.mem_append.mp hk with hk | hk
    · obtain ⟨e, he, rfl⟩ := List.mem_map.mp hk
      obtain ⟨nodes, hn, hen⟩ := List.mem_flatten.mp he
      obtain ⟨t, ht⟩ := h.named nodes hn
      exact (hbelow t (List.of_mem_zip ht).1).trans
        (h.under t nodes ht e.1 (List.mem_map_of_mem hen))
    · exact hm.parents_below k hk
  · rcases hm.recorded k hne with hne | hk'
    · exact List.mem_append_left _ (h.exists_listed (hempty k hk) hne)
    · exact List.mem_append_right _ hk'

end CopcConverter
