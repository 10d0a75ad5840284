import CopcConverter.Octree.FinishSubtree

/-!
# Merging subtree roots on the node store

`merge_chunk_tops` is the bottom-up loop over the node store: it starts from roots at various
levels, and level by level it reads the children of every parent from the store, samples them, and
writes the parent and the remainders back.  The parents of a level are processed in batches whose
estimated memory fits the budget, and a parent that exceeds the budget on its own, above a floor of
2 GiB, is an error.

How the batches are cut and in which order their parents are processed makes no difference to the
store, because different parents touch different nodes.  So a level that does not fail is one level
pass, and the merge of finished subtrees, when all roots with points are passed on, finishes the
subtree of the common root.
-/

namespace CopcConverter

open LevelTree TaggedSplit

variable {F : Type} [FloatArith F]

/-- The ways in which a build can fail. -/
inductive BuildError
  /-- `build_node_map called without a chunk plan` -/
  | noChunkPlan
  /-- `merge parent … has … children with combined estimate … MB, exceeding the … MB in-memory merge
  limit` -/
  | mergeTooLarge (parent : VoxelKey) (children estMb limitMb : ℕ)
  deriving DecidableEq, Repr

/-- A merge parent is only rejected when its children exceed this floor and the memory budget. -/
def mergeParentOomFloorBytes : ℕ := 2 * 1024 * 1024 * 1024

/-- One past the largest `u64`. -/
def u64Size : ℕ := 2 ^ 64

/-- Saturating multiplication of `u64`. -/
def saturatingMul (a b : ℕ) : ℕ := min (a * b) (u64Size - 1)

/-- A parent to merge, with its children and its estimated memory cost. -/
structure MergeTask where
  parent : VoxelKey
  children : List VoxelKey
  estMem : ℕ

/-- The loop variables of a merge: the node store, the keys per level, the parents produced. -/
structure MergeState where
  store : Store
  keysByLevel : BucketMap ℕ VoxelKey
  newParents : List VoxelKey

/-- Rewrite a list of nodes, each with its own points. -/
def Store.writeEach (store : Store) (keys : List VoxelKey) (vals : List (List RawPoint)) : Store :=
  (keys.zip vals).foldl (fun st e => Store.write st e.1 e.2) store

/-- Add a key to the set of its level. -/
def insertKey (m : BucketMap ℕ VoxelKey) (level : ℕ) (k : VoxelKey) : BucketMap ℕ VoxelKey :=
  m.insert level ((m.get level).insert k)

/-- Cut the first batch off: parents are added while the memory estimate stays within the cap. -/
def takeBatch (cap : ℕ) : ℕ → List MergeTask → List MergeTask × List MergeTask
  | _, [] => ([], [])
  | mem, t :: rest =>
    if mem + t.estMem > cap then ([], t :: rest)
    else
      let r := takeBatch cap (mem + t.estMem) rest
      (t :: r.1, r.2)

/-- Cut a list of parents into batches; every batch takes at least one. -/
def batches (cap : ℕ) : ℕ → List MergeTask → List (List MergeTask)
  | 0, _ => []
  | _ + 1, [] => []
  | fuel + 1, t :: rest =>
    let r := takeBatch cap t.estMem rest
    (t :: r.1) :: batches cap fuel r.2

namespace OctreeBuilder

variable (b : OctreeBuilder F)

/-- Per-point cost estimate of a merge: the sizes of `(usize, RawPoint)` and `RawPoint`, and the
extras payloads of both. -/
def memPerPoint : ℕ := 64 + 56 + 2 * b.numExtraBytes.toNat

/-- Merge one parent: gather the children from the store, sample, write back. -/
def mergeParent (store : Store) (t : VoxelKey × List VoxelKey) : Store :=
  let allPts := tagged (t.2.map store)
  if allPts.isEmpty then store
  else
    let r := b.gridSample t.1 allPts t.2.length
    let store := store.writeEach t.2 r.2
    if r.1.isEmpty then store else store.write t.1 r.1

/-- Merge the parents of one batch. -/
def mergeBatch (ord : IterOrder) (d : ℕ) (s : MergeState)
    (batch : List MergeTask) : MergeState where
  store := (ord.list batch).foldl (fun st t => b.mergeParent st (t.parent, t.children)) s.store
  keysByLevel := batch.foldl (fun m t => insertKey m d t.parent) s.keysByLevel
  newParents := s.newParents ++ batch.map MergeTask.parent

/-- Merge the batches of one level, one after the other. -/
def mergeBatches (ord : IterOrder) (d : ℕ) : List (List MergeTask) → MergeState → MergeState
  | [], s => s
  | batch :: rest, s =>
    mergeBatches ord d rest (b.mergeBatch (ord.sub rest.length) d s batch)

/-- The groups of level `d`, in the order in which the parents are iterated. -/
def mergeGroups (ord : IterOrder) (s : MergeState) (d : ℕ) : List (VoxelKey × List VoxelKey) :=
  (ord.sub 1).list (groupByParent ((ord.sub 0).list (s.keysByLevel.get (d + 1)))).pairs

/-- One level of the merge: produce the parents at level `d`. -/
def mergeLevel (ord : IterOrder) (memoryBudget batchCap : ℕ) (s : MergeState) (d : ℕ) :
    Except BuildError MergeState :=
  let parentChildren := mergeGroups ord s d
  let oomThreshold := max memoryBudget mergeParentOomFloorBytes
  let tasks := parentChildren.map fun t =>
    let estPoints := (t.2.map fun ck => (s.store ck).length).sum
    (⟨t.1, t.2, saturatingMul estPoints b.memPerPoint⟩ : MergeTask)
  match tasks.find? fun t => t.estMem > oomThreshold with
  | some t =>
    .error (.mergeTooLarge t.parent t.children.length (t.estMem / 1048576) (oomThreshold / 1048576))
  | none =>
    let small := tasks.mergeSort fun s t => decide (t.estMem ≤ s.estMem)
    .ok (b.mergeBatches (ord.sub 2) d (batches batchCap small.length small) s)

/-- The loop over the levels `stop + n - 1` down to `stop`. -/
def mergeLoop (ord : IterOrder) (memoryBudget batchCap stop : ℕ) :
    ℕ → MergeState → Except BuildError MergeState
  | 0, s => .ok s
  | n + 1, s => do
    let s ← b.mergeLevel (ord.sub (stop + n)) memoryBudget batchCap s (stop + n)
    mergeLoop ord memoryBudget batchCap stop n s

/-- The keys organised by level. -/
def keysByLevel (keys : List VoxelKey) : BucketMap ℕ VoxelKey :=
  keys.foldl (fun m k => insertKey m k.level k) ∅

/-- Merge a set of root keys upward, level by level, down to `stopLevel`: the store afterwards and
the parents that were produced. -/
def mergeChunkTops (ord : IterOrder) (memoryBudget : ℕ) (store : Store)
    (chunkRootKeys : List VoxelKey) (stopLevel buildConcurrency perParentBudget : ℕ) :
    Except BuildError (Store × List VoxelKey) :=
  if chunkRootKeys.isEmpty then .ok (store, [])
  else do
    let keys := keysByLevel chunkRootKeys
    let maxChunkLevel := keys.keys.foldl max 0
    let batchCap := saturatingMul buildConcurrency perParentBudget
    let s ← b.mergeLoop ord memoryBudget batchCap stopLevel (maxChunkLevel - stopLevel)
      ⟨store, keys, []⟩
    .ok (s.store, s.newParents)

/-! ## The calls of a merge -/

/-- The `grid_sample` calls of the loop. -/
def mergeLoopCalls (ord : IterOrder) (memoryBudget batchCap stop : ℕ) :
    ℕ → MergeState → List SampleCall
  | 0, _ => []
  | n + 1, s =>
    groupCalls s.store (mergeGroups (ord.sub (stop + n)) s (stop + n)) ++
      match b.mergeLevel (ord.sub (stop + n)) memoryBudget batchCap s (stop + n) with
      | .error _ => []
      | .ok s => mergeLoopCalls ord memoryBudget batchCap stop n s

/-- The `grid_sample` calls of a merge. -/
def mergeCalls (ord : IterOrder) (memoryBudget : ℕ) (store : Store) (chunkRootKeys : List VoxelKey)
    (stopLevel buildConcurrency perParentBudget : ℕ) : List SampleCall :=
  if chunkRootKeys.isEmpty then []
  else
    let keys := keysByLevel chunkRootKeys
    let maxChunkLevel := keys.keys.foldl max 0
    let batchCap := saturatingMul buildConcurrency perParentBudget
    b.mergeLoopCalls ord memoryBudget batchCap stopLevel (maxChunkLevel - stopLevel)
      ⟨store, keys, []⟩

end OctreeBuilder

/-! ## Batches -/

lemma takeBatch_append (cap mem : ℕ) (l : List MergeTask) :
    (takeBatch cap mem l).1 ++ (takeBatch cap mem l).2 = l := by
  induction l generalizing mem with
  | nil => rfl
  | cons t l ih =>
    rw [takeBatch]
    split_ifs
    · rfl
    · exact congrArg (t :: ·) (ih _)

/-- Cutting into batches drops no parent. -/
lemma flatten_batches (cap : ℕ) {fuel : ℕ} {l : List MergeTask} (h : l.length ≤ fuel) :
    (batches cap fuel l).flatten = l := by
  induction fuel generalizing l with
  | zero => rw [List.eq_nil_of_length_eq_zero (Nat.le_zero.mp h)]; rfl
  | succ fuel ih =>
    cases l with
    | nil => rfl
    | cons t rest =>
      have happ := takeBatch_append cap t.estMem rest
      have hlen : (takeBatch cap t.estMem rest).2.length ≤ fuel := by
        have := congrArg List.length happ
        rw [List.length_append] at this
        rw [List.length_cons] at h
        omega
      rw [batches, List.flatten_cons, ih hlen, List.cons_append, happ]

/-! ## The sets of keys -/

lemma get_insertKey (m : BucketMap ℕ VoxelKey) (l l' : ℕ) (k : VoxelKey) :
    (insertKey m l k).get l' = if l' = l then (m.get l).insert k else m.get l' := by
  rw [insertKey, BucketMap.get_insert]

/-- A key is in the set of its level. -/
def MergeState.Tracked (s : MergeState) (k : VoxelKey) : Prop := k ∈ s.keysByLevel.get k.level

/-- Every set of keys is duplicate-free and holds keys of its level. -/
structure Levelled (m : BucketMap ℕ VoxelKey) : Prop where
  nodup : ∀ l, (m.get l).Nodup
  level : ∀ l k, k ∈ m.get l → k.level = l

lemma Levelled.insertKey {m : BucketMap ℕ VoxelKey} (h : Levelled m) (k : VoxelKey) :
    Levelled (insertKey m k.level k) where
  nodup l := by
    rw [get_insertKey]
    split_ifs
    · exact (h.nodup _).insert
    · exact h.nodup l
  level l j hj := by
    rw [get_insertKey] at hj
    split_ifs at hj with hl
    · rcases List.mem_insert_iff.mp hj with rfl | hj
      · exact hl.symm
      · rw [hl]
        exact h.level _ j hj
    · exact h.level l j hj

lemma Levelled.foldl {m : BucketMap ℕ VoxelKey} (h : Levelled m) (keys : List VoxelKey) :
    Levelled (keys.foldl (fun m k => CopcConverter.insertKey m k.level k) m) := by
  induction keys generalizing m with
  | nil => exact h
  | cons k keys ih => exact ih (h.insertKey k)

/-- Adding keys adds exactly them. -/
lemma mem_foldl_insertKey {m : BucketMap ℕ VoxelKey} {keys : List VoxelKey} {k : VoxelKey} :
    k ∈ (keys.foldl (fun m k => insertKey m k.level k) m).get k.level ↔
      k ∈ m.get k.level ∨ k ∈ keys := by
  induction keys generalizing m with
  | nil => simp
  | cons a keys ih =>
    rw [List.foldl_cons, ih, get_insertKey, List.mem_cons]
    split_ifs with hl
    · rw [List.mem_insert_iff, hl]
      tauto
    · have hne : k ≠ a := fun he => hl (by rw [he])
      tauto

namespace OctreeBuilder

lemma levelled_keysByLevel (keys : List VoxelKey) : Levelled (keysByLevel keys) := by
  refine Levelled.foldl ⟨fun l => ?_, fun l k hk => ?_⟩ keys
  · simp
  · simp at hk

lemma mem_keysByLevel {keys : List VoxelKey} {k : VoxelKey} :
    k ∈ (keysByLevel keys).get k.level ↔ k ∈ keys := by
  rw [keysByLevel, mem_foldl_insertKey]
  simp

/-! ## One parent -/

variable (b : OctreeBuilder F)

/-- Rewriting a list of nodes leaves the others alone. -/
lemma writeEach_of_notMem {keys : List VoxelKey} {k : VoxelKey} (h : k ∉ keys)
    (vals : List (List RawPoint)) (store : Store) : store.writeEach keys vals k = store k := by
  induction keys generalizing store vals with
  | nil => rfl
  | cons a keys ih =>
    cases vals with
    | nil => rfl
    | cons v vals =>
      obtain ⟨ha, hk⟩ := not_or.mp (mt List.mem_cons.mpr h)
      apply (ih hk vals (store.write a v)).trans
      rw [Store.write, Function.update_of_ne ha]

/-- Rewriting a list of different nodes gives them their new points. -/
lemma map_writeEach {keys : List VoxelKey} {vals : List (List RawPoint)}
    (hnodup : keys.Nodup) (hlen : vals.length = keys.length) (store : Store) :
    keys.map (store.writeEach keys vals) = vals := by
  induction keys generalizing store vals with
  | nil => exact (List.eq_nil_of_length_eq_zero hlen).symm
  | cons a keys ih =>
    obtain ⟨ha, hk⟩ := List.nodup_cons.mp hnodup
    obtain ⟨v, vals, rfl⟩ := List.exists_cons_of_length_eq_add_one hlen
    change (store.write a v).writeEach keys vals a ::
      keys.map ((store.write a v).writeEach keys vals) = v :: vals
    rw [ih hk (by simpa using hlen), writeEach_of_notMem ha, Store.write, Function.update_self]

/-- What rewriting leaves at a node depends only on what was there. -/
lemma writeEach_congr {store store' : Store} {k : VoxelKey} (h : store k = store' k)
    (keys : List VoxelKey) (vals : List (List RawPoint)) :
    store.writeEach keys vals k = store'.writeEach keys vals k := by
  unfold Store.writeEach
  induction keys.zip vals generalizing store store' with
  | nil => exact h
  | cons e l ih =>
    apply ih
    change Store.write store e.1 e.2 k = Store.write store' e.1 e.2 k
    by_cases he : k = e.1
    · rw [Store.write, Store.write, he, Function.update_self, Function.update_self]
    · rw [Store.write, Store.write, Function.update_of_ne he, Function.update_of_ne he, h]

/-- Merging a parent samples its group. -/
lemma mergeParent_group {q : VoxelKey} {L : List VoxelKey} (hnodup : L.Nodup) (hq : q ∉ L)
    (store : Store) : GroupSampled b store (b.mergeParent store (q, L)) q L := by
  have hs := b.gridSample_sampled q (L.map store)
  rw [List.length_map] at hs
  unfold mergeParent
  simp only
  split_ifs with hempty hpp
  · have hflat : (L.map store).flatten = [] := by
      rw [← map_snd_tagged, List.isEmpty_iff.mp hempty, List.map_nil]
    obtain ⟨hpp, hrem⟩ := hs.idle hflat
    have hsame : L.map store = (b.gridSample q (tagged (L.map store)) L.length).2 := by
      refine List.ext_getElem (by rw [hs.length]) fun i h₁ h₂ => ?_
      rw [hrem _ (List.getElem_mem h₂)]
      exact List.flatten_eq_nil_iff.mp hflat _ (List.getElem_mem h₁)
    rw [← hsame] at hs
    exact ⟨hs, by rw [promoted, if_pos hpp]⟩
  · have hmap := map_writeEach hnodup (hs.length.trans (List.length_map _)) store
    rw [← hmap] at hs
    refine ⟨hs, ?_⟩
    rw [promoted, if_pos (List.isEmpty_iff.mp hpp), writeEach_of_notMem hq]
  · have hne : (b.gridSample q (tagged (L.map store)) L.length).1 ≠ [] := by simpa using hpp
    have hmap := map_writeEach hnodup (hs.length.trans (List.length_map _)) store
    rw [← hmap] at hs
    refine ⟨?_, by rw [promoted, if_neg hne, Store.write, Function.update_self]⟩
    have hsame : ∀ vals pts, L.map (Store.write (store.writeEach L vals) q pts) =
        L.map (store.writeEach L vals) := fun vals pts =>
      List.map_congr_left fun c hc => by
        have hcq : c ≠ q := fun he => hq (he ▸ hc)
        rw [Store.write, Function.update_of_ne hcq]
    rw [hsame]
    exact hs

/-- Merging a parent touches the parent and its children, and looks at nothing else. -/
lemma mergeParent_local :
    Footprint.Local (fun st : Store => st) Grouped.footprint b.mergeParent where
  frame store t k hk := by
    obtain ⟨hp, hc⟩ := not_or.mp hk
    unfold mergeParent
    simp only
    split_ifs
    · rfl
    · exact writeEach_of_notMem hc _ _
    · rw [Store.write, Function.update_of_ne hp, writeEach_of_notMem hc]
  congr store store' t h k hk := by
    have hsame : t.2.map store = t.2.map store' :=
      List.map_congr_left fun c hc => h c (Or.inr hc)
    unfold mergeParent
    simp only
    rw [hsame]
    split_ifs
    · exact h k hk
    · exact writeEach_congr (h k hk) _ _
    · by_cases hkq : k = t.1
      · rw [Store.write, Store.write, hkq, Function.update_self, Function.update_self]
      · rw [Store.write, Store.write, Function.update_of_ne hkq, Function.update_of_ne hkq]
        exact writeEach_congr (h k hk) _ _

/-! ## One level -/

/-- The batches are processed in some order of their parents. -/
lemma mergeBatches_store (ord : IterOrder) (d : ℕ) (bs : List (List MergeTask)) (s : MergeState) :
    ∃ Q : List MergeTask, Q.Perm bs.flatten ∧ (b.mergeBatches ord d bs s).store =
      Q.foldl (fun st t => b.mergeParent st (t.parent, t.children)) s.store := by
  induction bs generalizing s with
  | nil => exact ⟨[], List.Perm.refl _, rfl⟩
  | cons batch rest ih =>
    obtain ⟨Q, hQ, hstore⟩ := ih (b.mergeBatch (ord.sub rest.length) d s batch)
    refine ⟨(ord.sub rest.length).list batch ++ Q, ?_, ?_⟩
    · rw [List.flatten_cons]
      exact ((ord.sub rest.length).list_perm batch).append hQ
    · rw [List.foldl_append]
      exact hstore

lemma mergeBatches_keys (ord : IterOrder) (d : ℕ) (bs : List (List MergeTask)) (s : MergeState) :
    (b.mergeBatches ord d bs s).keysByLevel =
      (bs.flatten.map MergeTask.parent).foldl (fun m k => insertKey m d k) s.keysByLevel := by
  induction bs generalizing s with
  | nil => rfl
  | cons batch rest ih =>
    rw [mergeBatches, ih, List.flatten_cons, List.map_append, List.foldl_append]
    exact congrArg
      (fun m => (rest.flatten.map MergeTask.parent).foldl (fun m k => insertKey m d k) m)
      List.foldl_map.symm

lemma mergeBatches_newParents (ord : IterOrder) (d : ℕ) (bs : List (List MergeTask))
    (s : MergeState) : (b.mergeBatches ord d bs s).newParents =
      s.newParents ++ bs.flatten.map MergeTask.parent := by
  induction bs generalizing s with
  | nil => simp [mergeBatches]
  | cons batch rest ih =>
    rw [mergeBatches, ih, mergeBatch, List.flatten_cons, List.map_append, List.append_assoc]

/-- What a level does when it does not fail: the groups are merged in some order, and their parents
are recorded. -/
structure LevelMerged (P : List (VoxelKey × List VoxelKey)) (d : ℕ) (s s' : MergeState) : Prop where
  store : ∃ Q : List (VoxelKey × List VoxelKey), Q.Perm P ∧
    s'.store = Q.foldl b.mergeParent s.store
  keys : ∃ parents : List VoxelKey, parents.Perm (P.map Prod.fst) ∧
    s'.keysByLevel = parents.foldl (fun m k => insertKey m d k) s.keysByLevel ∧
    s'.newParents = s.newParents ++ parents

lemma mergeLevel_ok {ord : IterOrder} {memoryBudget batchCap d : ℕ} {s s' : MergeState}
    (h : b.mergeLevel ord memoryBudget batchCap s d = .ok s') :
    b.LevelMerged (mergeGroups ord s d) d s s' := by
  unfold mergeLevel at h
  simp only at h
  set tasks := (mergeGroups ord s d).map fun t => (⟨t.1, t.2, saturatingMul
    (t.2.map fun ck => (s.store ck).length).sum b.memPerPoint⟩ : MergeTask) with htasks
  set small := tasks.mergeSort fun s t => decide (t.estMem ≤ s.estMem) with hsmall
  have hperm : small.Perm tasks := List.mergeSort_perm _ _
  have hflat : (batches batchCap small.length small).flatten = small :=
    flatten_batches batchCap le_rfl
  have hpairs : tasks.map (fun t => (t.parent, t.children)) = mergeGroups ord s d := by
    rw [htasks, List.map_map]
    exact List.map_id _
  split at h
  · cases h
  · obtain rfl := Except.ok.inj h
    obtain ⟨Q, hQ, hstore⟩ := b.mergeBatches_store (ord.sub 2) d
      (batches batchCap small.length small) s
    refine ⟨⟨Q.map fun t => (t.parent, t.children), ?_, ?_⟩, small.map MergeTask.parent, ?_, ?_, ?_⟩
    · rw [← hpairs]
      rw [hflat] at hQ
      exact (hQ.trans hperm).map _
    · rw [hstore, List.foldl_map]
    · rw [← hpairs, List.map_map]
      exact hperm.map _
    · rw [mergeBatches_keys, hflat]
    · rw [mergeBatches_newParents, hflat]

/-! ## The walk up -/

section Walk

variable {b} {pts : Multiset RawPoint} {W : WalkRules VoxelKey}
  {I : PyramidInvariant b.addressing maxLeafPoints pts b.HandsUp W} {top : VoxelKey}
  {R : VoxelKey → Prop} {store₀ : Store}

/-- The state of the merge before it produces the parents at level `d - 1`. -/
structure MergeWalk (I : PyramidInvariant b.addressing maxLeafPoints pts b.HandsUp W)
    (top : VoxelKey) (R : VoxelKey → Prop) (store₀ : Store) (d : ℕ) (s : MergeState) : Prop where
  frontier : Frontier I top R (stored store₀) d s.Tracked (stored s.store)
  levelled : Levelled s.keysByLevel
  shallow : ∀ k, s.Tracked k → k.level < d → R k
  below : ∀ k, s.Tracked k → IsAncestor top k
  roots : ∀ k, R k → store₀ k ≠ [] → s.Tracked k
  frame : ∀ k, ¬ IsAncestor top k → s.store k = store₀ k
  recorded : ∀ k, s.store k ≠ [] → store₀ k ≠ [] ∨ k ∈ s.newParents
  parents : ∀ k ∈ s.newParents, IsAncestor top k

/-- The groups of a level are the tracked siblings. -/
lemma mergeGroups_grouped {s : MergeState} (h : Levelled s.keysByLevel) (ord : IterOrder) (d : ℕ) :
    Grouped d s.Tracked (mergeGroups ord s d) := by
  set keys := (ord.sub 0).list (s.keysByLevel.get (d + 1))
  have hmem : ∀ {k}, k ∈ keys ↔ k ∈ s.keysByLevel.get (d + 1) := fun {k} => IterOrder.mem_list
  have hg := grouped_groupByParent
    ((((ord.sub 0).list_perm _).nodup_iff).mpr (h.nodup (d + 1)))
    (fun k hk => h.level _ k (hmem.mp hk)) ((ord.sub 1).list_perm (groupByParent keys).pairs)
  refine ⟨hg.nodup, hg.level, fun q L hq => ⟨(hg.children q L hq).1, fun c => ?_⟩,
    fun q c hq hc hck => ?_, hg.inhabited⟩
  · rw [(hg.children q L hq).2 c, hmem]
    refine and_congr_right fun hc => ?_
    rw [MergeState.Tracked, VoxelKey.level_of_isChild hc, hg.level q L hq]
  · refine hg.complete q c hq hc (hmem.mpr ?_)
    rwa [MergeState.Tracked, VoxelKey.level_of_isChild hc, hq] at hck

/-- Recording parents at level `d` adds exactly them. -/
lemma LevelMerged.tracked {P : List (VoxelKey × List VoxelKey)} {d : ℕ} {s s' : MergeState}
    (h : b.LevelMerged P d s s') (hP : ∀ t ∈ P, t.1.level = d) (hs : Levelled s.keysByLevel) :
    Levelled s'.keysByLevel ∧ (∀ k, s'.Tracked k ↔ s.Tracked k ∨ ∃ L, (k, L) ∈ P) ∧
      ∀ k, k ∈ s'.newParents ↔ k ∈ s.newParents ∨ ∃ L, (k, L) ∈ P := by
  obtain ⟨parents, hperm, hkeys, hnew⟩ := h.keys
  have hmem : ∀ k, k ∈ parents ↔ ∃ L, (k, L) ∈ P := fun k => by
    rw [hperm.mem_iff, List.mem_map]
    constructor
    · rintro ⟨⟨k, L⟩, hL, rfl⟩
      exact ⟨L, hL⟩
    · rintro ⟨L, hL⟩
      exact ⟨(k, L), hL, rfl⟩
  have hown : parents.foldl (fun m k => insertKey m d k) s.keysByLevel =
      parents.foldl (fun m k => insertKey m k.level k) s.keysByLevel := by
    refine List.foldl_ext _ _ _ fun m k hk => ?_
    obtain ⟨L, hL⟩ := (hmem k).mp hk
    rw [show k.level = d from hP _ hL]
  rw [hown] at hkeys
  refine ⟨hkeys ▸ hs.foldl parents, fun k => ?_, fun k => ?_⟩
  · rw [MergeState.Tracked, hkeys, mem_foldl_insertKey, hmem]
    rfl
  · rw [hnew, List.mem_append, hmem]

/-- The groups of a level are sampled as if each were alone. -/
lemma LevelMerged.sampled {present : VoxelKey → Prop} {P : List (VoxelKey × List VoxelKey)} {d : ℕ}
    {s s' : MergeState} (h : b.LevelMerged P d s s') (hg : Grouped d present P) :
    (∀ q L, (q, L) ∈ P → GroupSampled b s.store s'.store q L) ∧
      ∀ k, (∀ t ∈ P, ¬ Grouped.footprint t k) → s'.store k = s.store k := by
  obtain ⟨Q, hQ, hstore⟩ := h.store
  have hapart : Q.Pairwise (Footprint.Apart Grouped.footprint) :=
    (hQ.pairwise_iff fun hap k hk hk' => hap k hk' hk).mpr hg.pairwise_apart
  refine ⟨fun q L hq => ?_, fun k hk => ?_⟩
  · obtain ⟨hnodup, hchild⟩ := hg.children q L hq
    have hqL : q ∉ L := fun hmem => by
      have := VoxelKey.level_of_isChild ((hchild q).mp hmem).1
      omega
    refine (b.mergeParent_group hnodup hqL s.store).congr fun k hk => ?_
    rw [hstore]
    exact Footprint.foldl_view b.mergeParent_local hapart (hQ.mem_iff.mpr hq) hk s.store
  · rw [hstore]
    exact Footprint.foldl_frame b.mergeParent_local (fun t ht => hk t (hQ.mem_iff.mp ht)) s.store

/-- One level of the merge. -/
lemma MergeWalk.level (hroots : Roots I top R (stored store₀)) {d : ℕ} {s s' : MergeState}
    (h : MergeWalk I top R store₀ (d + 1) s) (htop : top.level ≤ d) {ord : IterOrder}
    (hm : b.LevelMerged (mergeGroups ord s d) d s s') :
    MergeWalk I top R store₀ d s' := by
  have hg := mergeGroups_grouped h.levelled ord d
  set P := mergeGroups ord s d
  obtain ⟨hlev, htracked, hnew⟩ := hm.tracked (fun t ht => hg.level t.1 t.2 ht) h.levelled
  obtain ⟨hsampled, hframe⟩ := hm.sampled hg
  have hparentBelow : ∀ q L, (q, L) ∈ P → IsAncestor top q := fun q L hq => by
    obtain ⟨c, hc⟩ := List.exists_mem_of_ne_nil _ (hg.inhabited q L hq)
    obtain ⟨hqc, hct⟩ := ((hg.children q L hq).2 c).mp hc
    apply (h.below c hct).of_level_le hqc.isProperAncestor.isAncestor
    rw [VoxelKey.level_eq, VoxelKey.level_eq, hg.level q L hq]
    exact htop
  refine ⟨?_, hlev, fun k hk hl => ?_, fun k hk => ?_, fun k hR hne => ?_, fun k hk => ?_,
    fun k hne => ?_, fun k hk => ?_⟩
  · refine h.frontier.next hroots (hg.levelPass hsampled hframe) (fun c hc hl => ?_)
      (fun c hct hl hopen hnT => ?_) htop
    · rcases (htracked c).mp hc with hc | ⟨L, hL⟩
      · exact Or.inl (h.shallow c hc (Nat.lt_succ_of_le hl.le))
      · obtain ⟨c', hc'⟩ := List.exists_mem_of_ne_nil _ (hg.inhabited c L hL)
        exact Or.inr ⟨c', ((hg.children c L hL).2 c').mp hc'⟩
    · have hsame : s'.store c = s.store c := by
        apply hframe c
        rintro ⟨q, L⟩ ht (rfl | hcL)
        · exact hnT ((htracked _).mpr (Or.inr ⟨L, ht⟩))
        · have h1 := VoxelKey.level_of_isChild (((hg.children q L ht).2 c).mp hcL).1
          have h2 := hg.level q L ht
          have h3 : c.level = d := hl
          omega
      have hzero : stored s'.store c = stored store₀ c := by
        rw [← h.frontier.shallow c (Nat.lt_succ_of_le hl.le), stored, hsame]
        rfl
      rw [hzero]
      by_cases hRc : R c
      · by_contra hne
        exact hnT ((htracked c).mpr (Or.inl (h.roots c hRc (mt stored_eq_zero.mpr hne))))
      · exact hroots.eq_zero_of_open hct hopen hRc
  · rcases (htracked k).mp hk with hk | ⟨L, hL⟩
    · exact h.shallow k hk (by omega)
    · exact absurd (hg.level k L hL) (by omega)
  · rcases (htracked k).mp hk with hk | ⟨L, hL⟩
    · exact h.below k hk
    · exact hparentBelow k L hL
  · exact (htracked k).mpr (Or.inl (h.roots k hR hne))
  · rw [← h.frame k hk]
    apply hframe k
    rintro ⟨q, L⟩ ht (rfl | hkL)
    · exact hk (hparentBelow _ L ht)
    · exact hk (h.below k (((hg.children q L ht).2 k).mp hkL).2)
  · by_cases hfoot : ∃ t ∈ P, Grouped.footprint t k
    · obtain ⟨⟨q, L⟩, ht, rfl | hkL⟩ := hfoot
      · exact Or.inr ((hnew _).mpr (Or.inr ⟨L, ht⟩))
      · -- a child only loses points
        obtain ⟨hnodup, hchild⟩ := hg.children q L ht
        have hstep := (hg.levelPass hsampled hframe).sampled q (hg.level q L ht)
        obtain ⟨L', -, hstep, -⟩ := hstep
        have hle := hstep.child_le ((hchild k).mp hkL).1
        have hne' : s.store k ≠ [] := fun hnil => hne <| stored_eq_zero.mp <|
          Multiset.le_zero.mp (hle.trans (stored_eq_zero.mpr hnil).le)
        exact (h.recorded k hne').imp_right fun hk => (hnew k).mpr (Or.inl hk)
    · have hsame := hframe k fun t ht hf => hfoot ⟨t, ht, hf⟩
      rw [hsame] at hne
      exact (h.recorded k hne).imp_right fun hk => (hnew k).mpr (Or.inl hk)
  · rcases (hnew k).mp hk with hk | ⟨L, hL⟩
    · exact h.parents k hk
    · exact hparentBelow k L hL

/-- The whole merge loop. -/
lemma MergeWalk.loop (hroots : Roots I top R (stored store₀)) {ord : IterOrder}
    {memoryBudget batchCap stop n : ℕ} {s s' : MergeState}
    (h : MergeWalk I top R store₀ (stop + n) s) (htop : top.level ≤ stop)
    (hok : b.mergeLoop ord memoryBudget batchCap stop n s = .ok s') :
    MergeWalk I top R store₀ stop s' := by
  induction n generalizing s with
  | zero =>
    obtain rfl := Except.ok.inj hok
    exact h
  | succ n ih =>
    rw [mergeLoop] at hok
    cases hl : b.mergeLevel (ord.sub (stop + n)) memoryBudget batchCap s (stop + n) with
    | error e =>
      rw [hl] at hok
      cases hok
    | ok s₁ =>
      rw [hl] at hok
      exact ih (h.level hroots (htop.trans (Nat.le_add_right _ _)) (b.mergeLevel_ok hl)) hok

/-- What a merge up to `top` leaves: a finished subtree, nothing else changed, and every node that
holds points held some before or is a new parent. -/
structure Merged (I : PyramidInvariant b.addressing maxLeafPoints pts b.HandsUp W)
    (top : VoxelKey) (store store' : Store) (parents : List VoxelKey) : Prop where
  holds : I.Holds top (stored store')
  frame : ∀ k, ¬ IsAncestor top k → store' k = store k
  recorded : ∀ k, store' k ≠ [] → store k ≠ [] ∨ k ∈ parents
  parents_below : ∀ k ∈ parents, IsAncestor top k

lemma le_foldl_max {l : List ℕ} {a x : ℕ} (h : x ∈ l ∨ x ≤ a) : x ≤ l.foldl max a := by
  induction l generalizing a with
  | nil => exact h.resolve_left List.not_mem_nil
  | cons y l ih =>
    apply ih
    rcases h with h | h
    · rcases List.mem_cons.mp h with rfl | h
      · exact Or.inr (le_max_right _ _)
      · exact Or.inl h
    · exact Or.inr (h.trans (le_max_left _ _))

/-- The levels that a merge of some roots goes through. -/
def mergeLevels (rootKeys : List VoxelKey) (stop : ℕ) : ℕ :=
  (keysByLevel rootKeys).keys.foldl max 0 - stop

/-- A merge may start from the roots that hold points. -/
lemma mergeWalk_start (hroots : Roots I top R (stored store₀)) {D : ℕ}
    (hD : ∀ r, R r → r.level ≤ D) {rootKeys : List VoxelKey} (hkeys : ∀ k ∈ rootKeys, R k)
    (hall : ∀ r, R r → store₀ r ≠ [] → r ∈ rootKeys) :
    MergeWalk I top R store₀ (top.level + mergeLevels rootKeys top.level)
      ⟨store₀, keysByLevel rootKeys, []⟩ := by
  have hzero : ∀ c, R c → c ∉ rootKeys → stored store₀ c = 0 := fun c hc hnot => by
    by_contra hne
    exact hnot (hall c hc (mt stored_eq_zero.mpr hne))
  have htracked : ∀ k, MergeState.Tracked ⟨store₀, keysByLevel rootKeys, []⟩ k ↔ k ∈ rootKeys :=
    fun k => mem_keysByLevel
  have hmax : ∀ k ∈ rootKeys, k.level ≤ (keysByLevel rootKeys).keys.foldl max 0 := fun k hk => by
    refine le_foldl_max (Or.inl (AList.mem_keys.mp (BucketMap.mem_of_get_ne_nil fun h0 => ?_)))
    have := mem_keysByLevel.mpr hk
    rw [h0] at this
    cases this
  refine ⟨.start_above hroots (fun r hr => (hD r hr).trans (Nat.le_add_left D _))
    (Nat.le_add_right _ _) (fun c hc _ => hkeys c ((htracked c).mp hc))
    (fun c hc _ hnT => hzero c hc fun hmem => hnT ((htracked c).mpr hmem))
    (fun c hc hl => hzero c hc fun hmem => ?_), levelled_keysByLevel rootKeys,
    fun k hk _ => hkeys k ((htracked k).mp hk),
    fun k hk => hroots.below k (hkeys k ((htracked k).mp hk)),
    fun k hk hne => (htracked k).mpr (hall k hk hne), fun _ _ => rfl, fun _ hne => Or.inl hne,
    by simp⟩
  have := hmax c hmem
  rw [VoxelKey.level_eq, mergeLevels] at hl
  omega

/-- A merge is its loop: without roots the loop has no level to go through. -/
lemma mergeChunkTops_eq (b : OctreeBuilder F) (ord : IterOrder) (memoryBudget : ℕ) (store : Store)
    (rootKeys : List VoxelKey) (stop conc perParent : ℕ) :
    b.mergeChunkTops ord memoryBudget store rootKeys stop conc perParent =
        (b.mergeLoop ord memoryBudget (saturatingMul conc perParent) stop
          (mergeLevels rootKeys stop) ⟨store, keysByLevel rootKeys, []⟩).map
            (fun s => (s.store, s.newParents)) ∧
      b.mergeCalls ord memoryBudget store rootKeys stop conc perParent =
        b.mergeLoopCalls ord memoryBudget (saturatingMul conc perParent) stop
          (mergeLevels rootKeys stop) ⟨store, keysByLevel rootKeys, []⟩ := by
  unfold mergeChunkTops mergeCalls
  split_ifs with hnil
  · rw [List.isEmpty_iff.mp hnil]
    have hlevels : mergeLevels [] stop = 0 := Nat.zero_sub stop
    rw [hlevels]
    exact ⟨rfl, rfl⟩
  · refine ⟨?_, rfl⟩
    simp only [mergeLevels]
    cases b.mergeLoop ord memoryBudget (saturatingMul conc perParent) stop
      ((keysByLevel rootKeys).keys.foldl max 0 - stop) ⟨store, keysByLevel rootKeys, []⟩ <;> rfl

/-- The state in which the loop of a merge ends. -/
lemma mergeChunkTops_ok {ord : IterOrder} {memoryBudget stop conc perParent : ℕ}
    {store store' : Store} {rootKeys parents : List VoxelKey}
    (hok : b.mergeChunkTops ord memoryBudget store rootKeys stop conc perParent =
      .ok (store', parents)) : ∃ s, b.mergeLoop ord memoryBudget (saturatingMul conc perParent) stop
        (mergeLevels rootKeys stop) ⟨store, keysByLevel rootKeys, []⟩ = .ok s ∧
      s.store = store' ∧ s.newParents = parents := by
  rw [(mergeChunkTops_eq ..).1] at hok
  cases hloop : b.mergeLoop ord memoryBudget (saturatingMul conc perParent) stop
      (mergeLevels rootKeys stop) ⟨store, keysByLevel rootKeys, []⟩ with
  | error e =>
    rw [hloop] at hok
    cases hok
  | ok s =>
    rw [hloop] at hok
    cases hok
    exact ⟨s, rfl, rfl, rfl⟩

/-- Merging finished subtrees up to `top`, when all of their roots that hold points are passed on,
finishes the subtree of `top`. -/
theorem mergeChunkTops_merged (hroots : Roots I top R (stored store₀)) {D : ℕ}
    (hD : ∀ r, R r → r.level ≤ D) {rootKeys : List VoxelKey} (hkeys : ∀ k ∈ rootKeys, R k)
    (hall : ∀ r, R r → store₀ r ≠ [] → r ∈ rootKeys) {ord : IterOrder}
    {memoryBudget conc perParent : ℕ} {store' : Store} {parents : List VoxelKey}
    (hok : b.mergeChunkTops ord memoryBudget store₀ rootKeys top.level conc perParent =
      .ok (store', parents)) :
    Merged I top store₀ store' parents := by
  obtain ⟨s, hloop, rfl, rfl⟩ := mergeChunkTops_ok hok
  have hend := (mergeWalk_start hroots hD hkeys hall).loop hroots le_rfl hloop
  exact ⟨hend.frontier.holds_top hroots.below, hend.frame, hend.recorded, hend.parents⟩

end Walk

end OctreeBuilder

/-- Merging roots that are all at the stop level does nothing. -/
lemma OctreeBuilder.mergeChunkTops_idle (b : OctreeBuilder F) (ord : IterOrder) (memoryBudget : ℕ)
    (store : Store) {rootKeys : List VoxelKey} {stop : ℕ} (h : ∀ k ∈ rootKeys, k.level = stop)
    (conc perParent : ℕ) :
    b.mergeChunkTops ord memoryBudget store rootKeys stop conc perParent = .ok (store, []) := by
  have hkeys : ∀ (l : List VoxelKey) (m : BucketMap ℕ VoxelKey), (∀ k ∈ l, k.level = stop) →
      (∀ d ∈ m, d = stop) → ∀ d ∈ l.foldl (fun m k => insertKey m k.level k) m, d = stop := by
    intro l
    induction l with
    | nil => exact fun _ _ hm => hm
    | cons k l ih =>
      intro m hl hm
      refine ih _ (fun j hj => hl j (List.mem_cons_of_mem _ hj)) fun d hd => ?_
      rcases AList.mem_insert _ |>.mp hd with rfl | hd
      · exact hl k List.mem_cons_self
      · exact hm d hd
  have hmax : ∀ (l : List ℕ) (a : ℕ), a ≤ stop → (∀ d ∈ l, d = stop) → l.foldl max a ≤ stop := by
    intro l
    induction l with
    | nil => exact fun _ h _ => h
    | cons d l ih =>
      intro a ha hl
      exact ih _ (max_le ha (hl d List.mem_cons_self).le) fun j hj =>
        hl j (List.mem_cons_of_mem _ hj)
  have hlevels : mergeLevels rootKeys stop = 0 := Nat.sub_eq_zero_of_le <|
    hmax _ 0 (Nat.zero_le _) fun d hd => hkeys rootKeys ∅ h
      (fun d hd => absurd hd (AList.notMem_empty d)) d (AList.mem_keys.mpr hd)
  rw [(mergeChunkTops_eq ..).1, hlevels]
  rfl

end CopcConverter
