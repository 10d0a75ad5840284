import CopcConverter.Foundations.Footprint
import CopcConverter.Foundations.IterOrder
import CopcConverter.Octree.Siblings

/-!
# The in-memory bottom-up loop

`bottom_up_levels` takes a map of leaves up to the root of its subtree, one level after the other,
and writes every node it ends up with to the node store.  In every round the keys of a level are
grouped by their parents, the points of all children are taken out of the map, each group is
sampled, and what was promoted and what remains is put back.

The loop is followed here level by level.  Gathering takes exactly the points of the children,
applying a result changes exactly the nodes of its group, and so a round is one level pass over the
groups, in whatever order they come; the map stays tight, and the keys that are present after a
round are known.  The calls of `grid_sample` are recorded beside the loop.
-/

namespace CopcConverter

open LevelTree TaggedSplit

variable {F : Type} [FloatArith F]

/-- The points of the nodes that are held in memory. -/
abbrev Nodes := BucketMap VoxelKey RawPoint

/-- The node store as a map from keys to points. -/
abbrev Store := VoxelKey → List RawPoint

/-- Write points for a node, overwriting any prior content. -/
def Store.write (store : Store) (k : VoxelKey) (pts : List RawPoint) : Store :=
  Function.update store k pts

/-- Task fed into the grid-sampling step: parent key, child keys and indexed points. -/
structure SampleTask where
  parent : VoxelKey
  children : List VoxelKey
  pts : List (ℕ × RawPoint)

/-- Result coming back from grid-sampling: parent key, child keys, promoted points and per-child
remaining points. -/
structure SampleResult where
  parent : VoxelKey
  children : List VoxelKey
  parentPts : List RawPoint
  remaining : List (List RawPoint)

/-- Take the points of all children out of the map, one task per parent. -/
def gatherTasks : List (VoxelKey × List VoxelKey) → Nodes → List SampleTask × Nodes
  | [], nodes => ([], nodes)
  | (parent, children) :: rest, nodes =>
    let taken := nodes.removeEach children
    let r := gatherTasks rest taken.2
    (⟨parent, children, tagged taken.1⟩ :: r.1, r.2)

/-- Grid-sample one task. -/
def OctreeBuilder.sampleTask (b : OctreeBuilder F) (t : SampleTask) : SampleResult :=
  if t.pts.isEmpty then
    ⟨t.parent, t.children, [], List.replicate t.children.length []⟩
  else
    let r := b.gridSample t.parent t.pts t.children.length
    ⟨t.parent, t.children, r.1, r.2⟩

/-- Put the remainders and the promoted points of one result into the map. -/
def applyResult (nodes : Nodes) (r : SampleResult) : Nodes :=
  (nodes.insertEach r.children r.remaining).insertNonempty r.parent r.parentPts

/-- The groups of level `d`, in the order in which the parents are iterated. -/
def parentGroups (ord : IterOrder) (nodes : Nodes) (d : ℕ) : List (VoxelKey × List VoxelKey) :=
  (ord.sub 1).list
    (groupByParent (((ord.sub 0).list nodes.keys).filter fun k => k.level = d + 1)).pairs

/-- One round of the loop: produce the parents at level `d`. -/
def OctreeBuilder.levelStep (b : OctreeBuilder F) (ord : IterOrder) (nodes : Nodes) (d : ℕ) :
    Nodes :=
  let parentChildren := parentGroups ord nodes d
  if parentChildren.isEmpty then nodes
  else
    let tasks := gatherTasks parentChildren nodes
    (tasks.1.map b.sampleTask).foldl applyResult tasks.2

/-- The loop over the levels `min + n - 1` down to `min`. -/
def OctreeBuilder.bottomUpLoop (b : OctreeBuilder F) (ord : IterOrder) (min : ℕ) :
    ℕ → Nodes → Nodes
  | 0, nodes => nodes
  | n + 1, nodes => bottomUpLoop b ord min n (b.levelStep (ord.sub (min + n)) nodes (min + n))

/-- Bottom-up grid-sample loop over an in-memory map: the store with every node of the finished map
written to it, and the keys of these nodes with their numbers of points. -/
def OctreeBuilder.bottomUpLevels (b : OctreeBuilder F) (ord : IterOrder) (store : Store)
    (nodes : Nodes) (actualMaxDepth minLevel : ℕ) : Store × List (VoxelKey × ℕ) :=
  let nodes := b.bottomUpLoop (ord.sub 0) minLevel (actualMaxDepth - minLevel) nodes
  (((ord.sub 1).list nodes.keys).foldl (fun st k => st.write k (nodes.get k)) store,
    ((ord.sub 2).list nodes.pairs).filterMap fun e =>
      if e.2.isEmpty then none else some (e.1, e.2.length))

/-! ## The calls of the loop -/

/-- The calls of one round. -/
def levelCalls (ord : IterOrder) (nodes : Nodes) (d : ℕ) : List SampleCall :=
  groupCalls nodes.get (parentGroups ord nodes d)

/-- The calls of the loop. -/
def OctreeBuilder.bottomUpCalls (b : OctreeBuilder F) (ord : IterOrder) (min : ℕ) :
    ℕ → Nodes → List SampleCall
  | 0, _ => []
  | n + 1, nodes =>
    levelCalls (ord.sub (min + n)) nodes (min + n) ++
      bottomUpCalls b ord min n (b.levelStep (ord.sub (min + n)) nodes (min + n))

/-! ## One round -/

/-- Sampling a task that gathered nothing is sampling nothing. -/
lemma OctreeBuilder.sampleTask_eq (b : OctreeBuilder F) (t : SampleTask) :
    b.sampleTask t = ⟨t.parent, t.children, (b.gridSample t.parent t.pts t.children.length).1,
      (b.gridSample t.parent t.pts t.children.length).2⟩ := by
  unfold sampleTask
  split_ifs with h
  · unfold gridSample SampleGrid.sample
    rw [if_pos h]
  · rfl

/-- Gathering disjoint groups takes the points of their children out of the map. -/
lemma gatherTasks_eq {P : List (VoxelKey × List VoxelKey)} (hnodup : ∀ t ∈ P, t.2.Nodup)
    (hdisj : P.Pairwise fun t u => t.2.Disjoint u.2) (nodes : Nodes) :
    gatherTasks P nodes = (P.map fun t => ⟨t.1, t.2, tagged (t.2.map nodes.get)⟩,
      nodes.eraseAll (P.flatMap Prod.snd)) := by
  induction P generalizing nodes with
  | nil => rfl
  | cons t P ih =>
    obtain ⟨ht, hP⟩ := List.pairwise_cons.mp hdisj
    obtain ⟨parent, children⟩ := t
    have herase : nodes.eraseAll (children ++ P.flatMap Prod.snd) =
        (nodes.eraseAll children).eraseAll (P.flatMap Prod.snd) := List.foldl_append ..
    rw [gatherTasks, BucketMap.removeEach_eq _ (hnodup _ List.mem_cons_self),
      ih (fun u hu => hnodup u (List.mem_cons_of_mem _ hu)) hP, List.flatMap_cons, herase]
    simp only [List.map_cons, Prod.mk.injEq, List.cons.injEq, true_and, and_true]
    refine List.map_congr_left fun u hu => ?_
    have hsame : u.2.map (nodes.eraseAll children).get = u.2.map nodes.get :=
      List.map_congr_left fun c hc => by
        rw [BucketMap.get_eraseAll, if_neg fun hc' => ht u hu hc' hc]
    rw [hsame]

/-- The nodes a result writes. -/
def SampleResult.footprint (r : SampleResult) (k : VoxelKey) : Prop :=
  k = r.parent ∨ k ∈ r.children

lemma applyResult_local :
    Footprint.Local BucketMap.get SampleResult.footprint applyResult where
  frame nodes r k hk := by
    obtain ⟨hp, hc⟩ := not_or.mp hk
    rw [applyResult, BucketMap.get_insertNonempty, if_neg fun h => hp h.1,
      BucketMap.get_insertEach_of_notMem hc]
  congr nodes nodes' r h k hk := by
    rw [applyResult, applyResult, BucketMap.get_insertNonempty, BucketMap.get_insertNonempty,
      BucketMap.get_insertEach_congr (h k hk)]

lemma mem_foldl_applyResult {results : List SampleResult} {nodes : Nodes} {k : VoxelKey}
    (h : k ∈ results.foldl applyResult nodes) :
    k ∈ nodes ∨ ∃ r ∈ results, r.footprint k := by
  induction results generalizing nodes with
  | nil => exact Or.inl h
  | cons r results ih =>
    rcases ih h with hm | ⟨r', hr', hk⟩
    · rcases BucketMap.mem_insertNonempty.mp hm with ⟨rfl, -⟩ | hm
      · exact Or.inr ⟨r, List.mem_cons_self, Or.inl rfl⟩
      · rcases BucketMap.mem_insertEach hm with hm | hk
        · exact Or.inl hm
        · exact Or.inr ⟨r, List.mem_cons_self, Or.inr hk⟩
    · exact Or.inr ⟨r', List.mem_cons_of_mem _ hr', hk⟩

lemma tight_foldl_applyResult {results : List SampleResult} {nodes : Nodes} (h : nodes.Tight) :
    (results.foldl applyResult nodes).Tight := by
  induction results generalizing nodes with
  | nil => exact h
  | cons r results ih => exact ih ((h.insertEach _ _).insertNonempty _ _)

/-- The groups of a round are the present siblings at level `d + 1`. -/
lemma parentGroups_grouped (ord : IterOrder) (nodes : Nodes) (d : ℕ) :
    Grouped d (· ∈ nodes) (parentGroups ord nodes d) := by
  set keys := ((ord.sub 0).list nodes.keys).filter fun k => k.level = d + 1 with hkeys
  have hmem : ∀ {k}, k ∈ keys ↔ k ∈ nodes ∧ k.level = d + 1 := fun {k} => by
    rw [hkeys, List.mem_filter, IterOrder.mem_list, AList.mem_keys, decide_eq_true_eq]
  have hnodup : keys.Nodup :=
    ((((ord.sub 0).list_perm nodes.keys).nodup_iff).mpr (AList.keys_nodup nodes)).filter _
  have h := grouped_groupByParent hnodup (fun k hk => (hmem.mp hk).2)
    ((ord.sub 1).list_perm (groupByParent keys).pairs)
  refine ⟨h.nodup, h.level, fun q L hq => ⟨(h.children q L hq).1, fun c => ?_⟩,
    fun q c hq hc hck => ?_, h.inhabited⟩
  · rw [(h.children q L hq).2 c]
    refine and_congr_right fun hc => ⟨fun hk => (hmem.mp hk).1, fun hk => hmem.mpr ⟨hk, ?_⟩⟩
    rw [VoxelKey.level_of_isChild hc, h.level q L hq]
  · exact h.complete q c hq hc (hmem.mpr ⟨hck, by rw [VoxelKey.level_of_isChild hc, hq]⟩)

namespace OctreeBuilder

variable (b : OctreeBuilder F) (ord : IterOrder) (nodes : Nodes) (d : ℕ)

/-- The round without its shortcut for a level without children. -/
lemma levelStep_eq : b.levelStep ord nodes d =
    ((parentGroups ord nodes d).map fun t => b.sampleTask ⟨t.1, t.2, tagged (t.2.map nodes.get)⟩
      ).foldl applyResult (nodes.eraseAll ((parentGroups ord nodes d).flatMap Prod.snd)) := by
  have hgr := parentGroups_grouped ord nodes d
  have hdisj : (parentGroups ord nodes d).Pairwise fun t u => t.2.Disjoint u.2 :=
    hgr.pairwise_apart.imp fun h k hk hk' => h k (Or.inr hk) (Or.inr hk')
  unfold levelStep
  simp only
  split_ifs with h
  · rw [List.isEmpty_iff.mp h]
    rfl
  · rw [gatherTasks_eq (fun t ht => (hgr.children t.1 t.2 ht).1) hdisj, List.map_map]
    rfl

/-- What a round does to the nodes of one group. -/
lemma levelStep_group {q : VoxelKey} {L : List VoxelKey} (h : (q, L) ∈ parentGroups ord nodes d) :
    GroupSampled b nodes.get (b.levelStep ord nodes d).get q L := by
  have hgr := parentGroups_grouped ord nodes d
  obtain ⟨hnodup, hchild⟩ := hgr.children q L h
  have hs := b.gridSample_sampled q (L.map nodes.get)
  rw [List.length_map] at hs
  set pp := (b.gridSample q (tagged (L.map nodes.get)) L.length).1 with hpp
  set rem := (b.gridSample q (tagged (L.map nodes.get)) L.length).2
  set erased := nodes.eraseAll ((parentGroups ord nodes d).flatMap Prod.snd)
  have hapart : ((parentGroups ord nodes d).map fun t =>
      b.sampleTask ⟨t.1, t.2, tagged (t.2.map nodes.get)⟩).Pairwise
      (Footprint.Apart SampleResult.footprint) := by
    refine List.pairwise_map.mpr (hgr.pairwise_apart.imp fun hap k => ?_)
    rw [sampleTask_eq, sampleTask_eq]
    exact hap k
  -- the round acts on this group as applying its own result does
  have hview : ∀ k, k = q ∨ k ∈ L → (b.levelStep ord nodes d).get k =
      (applyResult erased ⟨q, L, pp, rem⟩).get k := fun k hk => by
    rw [levelStep_eq]
    refine (Footprint.foldl_view applyResult_local hapart (List.mem_map_of_mem h) ?_ _).trans ?_
    · rw [sampleTask_eq]
      exact hk
    · rw [sampleTask_eq]
  have hqL : q ∉ L := fun hq => by
    have := VoxelKey.level_of_isChild ((hchild q).mp hq).1
    omega
  have hqErased : erased.get q = nodes.get q := by
    rw [BucketMap.get_eraseAll, if_neg]
    intro hq
    obtain ⟨⟨q', L'⟩, ht, hq'⟩ := List.mem_flatMap.mp hq
    have h1 := VoxelKey.level_of_isChild (((hgr.children q' L' ht).2 q).mp hq').1
    have h2 := hgr.level q' L' ht
    have h3 := hgr.level q L h
    omega
  have hLErased : ∀ c ∈ L, erased.get c = [] := fun c hc => by
    rw [BucketMap.get_eraseAll, if_pos (List.mem_flatMap.mpr ⟨(q, L), h, hc⟩)]
  have hmap : L.map (b.levelStep ord nodes d).get = rem := by
    rw [← BucketMap.map_get_insertEach hnodup (hs.length.trans (List.length_map _)) hLErased]
    refine List.map_congr_left fun c hc => ?_
    have hne : c ≠ q := fun he => hqL (he ▸ hc)
    rw [hview c (Or.inr hc), applyResult, BucketMap.get_insertNonempty, if_neg fun h => hne h.1]
  refine ⟨hmap ▸ hs, ?_⟩
  rw [promoted, ← hpp, hview q (Or.inl rfl), applyResult, BucketMap.get_insertNonempty,
    BucketMap.get_insertEach_of_notMem hqL, hqErased]
  by_cases hnil : pp = []
  · simp [hnil]
  · simp [hnil]

/-- A round is a pass over level `d` of the pyramid. -/
lemma levelStep_levelPass :
    LevelPass b.HandsUp maxLeafPoints d (· ∈ nodes) (stored nodes.get)
      (stored (b.levelStep ord nodes d).get) := by
  refine (parentGroups_grouped ord nodes d).levelPass
    (fun q L h => b.levelStep_group ord nodes d h) fun k hk => ?_
  rw [levelStep_eq, Footprint.foldl_frame applyResult_local, BucketMap.get_eraseAll, if_neg]
  · intro hmem
    obtain ⟨t, ht, hkt⟩ := List.mem_flatMap.mp hmem
    exact hk t ht (Or.inr hkt)
  · intro r hr
    obtain ⟨t, ht, rfl⟩ := List.mem_map.mp hr
    rw [sampleTask_eq]
    exact hk t ht

/-- A round adds only parents of present keys. -/
lemma mem_levelStep {k : VoxelKey} (h : k ∈ b.levelStep ord nodes d) :
    k ∈ nodes ∨ k.level = d ∧ ∃ c, IsChild k c ∧ c ∈ nodes := by
  have hgr := parentGroups_grouped ord nodes d
  rw [levelStep_eq] at h
  rcases mem_foldl_applyResult h with hm | ⟨r, hr, hk⟩
  · exact Or.inl (BucketMap.mem_eraseAll.mp hm).1
  · obtain ⟨⟨q, L⟩, ht, rfl⟩ := List.mem_map.mp hr
    rw [sampleTask_eq] at hk
    rcases hk with rfl | hk
    · obtain ⟨c, hc⟩ := List.exists_mem_of_ne_nil _ (hgr.inhabited _ _ ht)
      exact Or.inr ⟨hgr.level _ _ ht, c, (hgr.children _ _ ht).2 c |>.mp hc⟩
    · exact Or.inl ((hgr.children q L ht).2 k |>.mp hk).2

variable {ord nodes d}

/-- A round stays in a subtree that reaches up to its level. -/
lemma below_levelStep {top : VoxelKey} (htop : top.level ≤ d) (h : ∀ k ∈ nodes, IsAncestor top k)
    {k : VoxelKey} (hk : k ∈ b.levelStep ord nodes d) : IsAncestor top k := by
  rcases b.mem_levelStep ord nodes d hk with hk | ⟨hd, c, hc, hcn⟩
  · exact h k hk
  · apply (h c hcn).of_level_le hc.isProperAncestor.isAncestor
    rw [VoxelKey.level_eq, VoxelKey.level_eq, hd]
    exact htop

/-- The loop stays in a subtree that reaches up to its last level. -/
lemma below_bottomUpLoop {top : VoxelKey} {min : ℕ} (htop : top.level ≤ min) {n : ℕ}
    (h : ∀ k ∈ nodes, IsAncestor top k) {k : VoxelKey}
    (hk : k ∈ b.bottomUpLoop ord min n nodes) : IsAncestor top k := by
  induction n generalizing nodes with
  | zero => exact h k hk
  | succ n ih =>
    exact ih (fun k => b.below_levelStep (htop.trans (Nat.le_add_right _ _)) h) hk

variable (ord d)

lemma tight_levelStep (h : nodes.Tight) : (b.levelStep ord nodes d).Tight := by
  rw [levelStep_eq]
  exact tight_foldl_applyResult (h.eraseAll _)

end OctreeBuilder

end CopcConverter
