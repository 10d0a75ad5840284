import CopcConverter.Octree.Int32Column

/-!
# A pile of points in a plan over 32-bit keys

A chunk with too many points for its memory budget is spilled.  When its points are a pile, the
split level is the deepest candidate and the pile is one sub-octant, whose leaves may come to lie
below level 31.  The build of such a chunk is followed to its end, and then the build of a plan in
which no other chunk has points.

The point that moves up ends at the key of the column at the level of the chunk.  The column is that
of the parents of the leaf, whatever voxels they are, so this need not be the key of the chunk.
-/

namespace CopcConverter

open LevelTree Interleave TaggedSplit

variable {F : Type} [FloatArith F]

/-! ## The chunk of a pile -/

section Chunk

variable {b : OctreeBuilder F} {chunk : PlannedChunk} {p : RawPoint} {m n chunkMemBudget : ℕ}
  {c : ℕ → VoxelKey}

/-- A pile that exceeds the budget is spilled into one sub-octant, as deep as the candidates go. -/
lemma spillOf_pile (ord : IterOrder) (hn : maxPointsInBudget chunkMemBudget < n) :
    b.splitLevelOf (ord.sub 0) chunk (List.replicate n p) chunkMemBudget =
        chunk.level + spillDepthCap ∧
      (b.spillOf ord chunk (List.replicate n p) chunkMemBudget).subRoots =
        [b.keyOf p (chunk.level + spillDepthCap)] ∧
      (b.spillOf ord chunk (List.replicate n p) chunkMemBudget).files 0 = List.replicate n p := by
  have hmem : p ∈ List.replicate n p := List.mem_replicate.mpr ⟨by omega, rfl⟩
  have hlevel : b.splitLevelOf (ord.sub 0) chunk (List.replicate n p) chunkMemBudget =
      chunk.level + spillDepthCap :=
    (b.splitsAt_chooseSplitLevel (ord.sub 0) (List.ne_nil_of_mem hmem) chunk.key
      (maxPointsInBudget chunkMemBudget)).unique (splitsAt_replicate hn)
  obtain ⟨hnodup, hroots, hfiles⟩ := b.spill_files (ord.sub 1)
    (b.splitLevelOf (ord.sub 0) chunk (List.replicate n p) chunkMemBudget)
    (max (chunkMemBudget / 4 / RawPoint.recordSize b.numExtraBytes) 1) (List.replicate n p)
  rw [← OctreeBuilder.spillOf] at hnodup hroots hfiles
  rw [hlevel] at hroots hfiles
  have hsub : (b.spillOf ord chunk (List.replicate n p) chunkMemBudget).subRoots =
      [b.keyOf p (chunk.level + spillDepthCap)] := by
    refine List.perm_singleton.mp ((List.perm_ext_iff_of_nodup hnodup
      (List.nodup_singleton _)).mpr fun k => ?_)
    rw [hroots, List.mem_singleton]
    constructor
    · rintro ⟨q, hq, rfl⟩
      rw [List.eq_of_mem_replicate hq]
    · rintro rfl
      exact ⟨p, hmem, rfl⟩
  refine ⟨hlevel, hsub, ?_⟩
  rw [hfiles 0 _ (by rw [hsub]; rfl), List.filter_replicate]
  simp

/-- The keys that a merge from level `l` up to level `s` adds to a list of nodes from level `l` on:
one of them is at level `s`, and none is above. -/
lemma keysAt_merged {s l : ℕ} (hsl : s < l) (h : ∀ d, d ≤ l → (c d).level = d)
    {listed : List (VoxelKey × ℕ)} (hlisted : ∀ e ∈ listed, l ≤ e.1.level) :
    keysAt s (listed ++ ((List.range' s (l - s)).reverse.map c).map fun k => (k, 0)) = [c s] ∧
      ∀ e ∈ listed ++ ((List.range' s (l - s)).reverse.map c).map fun k => (k, 0),
        s ≤ e.1.level := by
  refine ⟨?_, fun e he => ?_⟩
  · have hold : (listed.map Prod.fst).filter (fun k => decide (k.level = s)) = [] := by
      refine List.filter_eq_nil_iff.mpr fun k hk => ?_
      obtain ⟨e, he, rfl⟩ := List.mem_map.mp hk
      have := hlisted e he
      simp only [decide_eq_true_eq]
      omega
    have hdeeper : ((List.range' (s + 1) (l - s - 1)).reverse.map c).filter
        (fun k => decide (k.level = s)) = [] := by
      refine List.filter_eq_nil_iff.mpr fun k hk => ?_
      obtain ⟨d, hd, rfl⟩ := List.mem_map.mp hk
      rw [List.mem_reverse, List.mem_range'_1] at hd
      rw [decide_eq_true_eq, h d (by omega)]
      omega
    have hrange : List.range' s (l - s) = s :: List.range' (s + 1) (l - s - 1) := by
      rw [← List.range'_succ, Nat.sub_add_cancel (by omega)]
    have hfst : ∀ L : List VoxelKey, (L.map fun k => (k, 0)).map Prod.fst = L := fun L => by
      rw [List.map_map]
      exact List.map_id L
    rw [keysAt, List.map_append, List.filter_append, hold, hfst, hrange, List.reverse_cons,
      List.map_append, List.filter_append, hdeeper, List.map_singleton]
    simp [h s hsl.le]
  · rcases List.mem_append.mp he with he | he
    · exact hsl.le.trans (hlisted e he)
    · obtain ⟨k, hk, rfl⟩ := List.mem_map.mp he
      obtain ⟨d, hd, rfl⟩ := List.mem_map.mp hk
      rw [List.mem_reverse, List.mem_range'_1] at hd
      rw [h d (by omega)]
      exact hd.1

/-- The sub-octant of a pile is merged up to the level of the chunk. -/
lemma run_spilledJob32_pile (σ : Schedules) (ord : IterOrder) (memoryBudget : ℕ)
    (hreach : chunk.level + spillDepthCap ≤ i32Levels)
    (hover : maxPointsInBudget chunkMemBudget < n) (hn : maxLeafPoints < n)
    (hm : chunk.level + spillDepthCap + chunkLocalExtraLevels F n = m)
    (hdeep : chunk.level + spillDepthCap < m) (hcap : chunkDepthCap ≤ m) (hc : Column m c)
    (hleaf : c m = b.keyOf32 p m) (hmem : b.memPerPoint ≤ mergeParentOomFloorBytes)
    (store : Store) :
    ∃ store' listed, (b.spilledJob32 σ ord memoryBudget chunk (List.replicate n p)
        chunkMemBudget).run store = .ok (store', listed) ∧
      Piled c m chunk.level p n store' listed := by
  obtain ⟨hlevel, hsub, hfile⟩ := @spillOf_pile F _ b chunk p n chunkMemBudget ord hover
  set l := chunk.level + spillDepthCap with hl
  set s := b.spillOf ord chunk (List.replicate n p) chunkMemBudget with hs
  obtain ⟨built, listed, hrun, htop, hleaf', hkeys, hbelow⟩ := b.run_subtreeJob32_pile
    ((σ.sub 1).sub 0) ((ord.sub 3).sub 0) (b.keyOf p l) hm hdeep hcap hc hleaf hn store
  change built (c l) = [p] at htop
  change keysAt l listed = [c l] at hkeys
  have hjobs : (Job.interleave (σ.sub 0).here
      (s.subRoots.mapIdx (b.subOctantJob32 (σ.sub 1) (ord.sub 3) s.files))).run store =
        .ok (built, [listed]) := by
    rw [hsub]
    change (Job.interleave (σ.sub 0).here [b.subOctantJob32 (σ.sub 1) (ord.sub 3) s.files 0
      (b.keyOf p l)]).run store = _
    rw [Job.run_interleave (List.pairwise_singleton _ _), Job.sequence,
      OctreeBuilder.subOctantJob32, hfile, List.length_replicate, Job.run_bind_ok hrun]
    rfl
  obtain ⟨store', hmerge, htop', hframe⟩ := b.run_mergeTopsJob32_single (σ.sub 2) (ord.sub 4)
    memoryBudget chunk.level (hc.mono hdeep.le) (Nat.le_add_right _ _) hmem 1 chunkMemBudget htop
  obtain ⟨hkeys', hbelow'⟩ := keysAt_merged (c := c) (s := chunk.level) (l := l)
    (Nat.lt_add_of_pos_right (by decide)) (fun d hd => hc.level d (hd.trans hdeep.le)) hbelow
  set merged := (List.range' chunk.level (l - chunk.level)).reverse.map c with hmerged
  refine ⟨store', listed ++ merged.map fun k => (k, 0), ?_, htop', ?_, hkeys', hbelow'⟩
  · unfold OctreeBuilder.spilledJob32
    simp only
    rw [OctreeBuilder.splitLevelOf32_eq _ hreach, hlevel, OctreeBuilder.spillOf32_eq ord hreach,
      ← hs, Job.run_bind_ok hjobs]
    simp only [List.flatMap_cons, List.flatMap_nil, List.append_nil, hkeys, List.flatten_cons,
      List.flatten_nil]
    rw [if_neg (by simp), Job.run_bind_ok hmerge]
    rfl
  · rw [hframe _ fun d hd => hc.ne le_rfl (hd.trans hdeep.le) (by omega), hleaf']

end Chunk

/-! ## Keys and the parents that they have -/

lemma VoxelKey.level_iterate_up32 (k : VoxelKey) (n : ℕ) :
    (VoxelKey.up32^[n] k).level = k.level - n := by
  have hup : ∀ j : VoxelKey, j.up32.level = j.level - 1 := fun j => by
    unfold VoxelKey.up32 VoxelKey.parent32
    split_ifs with h0
    · rw [Option.getD_none, h0]
    · rfl
  induction n with
  | zero => rfl
  | succ n ih => rw [Function.iterate_succ_apply', hup, ih, Nat.sub_sub]

lemma VoxelKey.ancestorAt32_self (k : VoxelKey) : k.ancestorAt32 k.level = k := by
  rw [VoxelKey.ancestorAt32, Nat.sub_self]
  rfl

/-- A key and its ancestors make a column. -/
lemma column_ancestorAt32 (k : VoxelKey) : Column k.level k.ancestorAt32 where
  level d hd := by
    rw [VoxelKey.ancestorAt32, VoxelKey.level_iterate_up32]
    omega
  parent d hd := by
    have hsucc : k.ancestorAt32 d = (k.ancestorAt32 (d + 1)).up32 := by
      unfold VoxelKey.ancestorAt32
      rw [← Function.iterate_succ_apply' VoxelKey.up32, show (k.level - (d + 1)).succ = k.level - d
        by omega]
    have hlevel : (k.ancestorAt32 (d + 1)).level ≠ 0 := by
      rw [VoxelKey.ancestorAt32, VoxelKey.level_iterate_up32]
      omega
    rw [hsucc, VoxelKey.up32, VoxelKey.parent32, if_neg hlevel, Option.getD_some]

/-! ## The plan of a pile -/

/-- The roots of a plan of which only one chunk has points. -/
lemma OctreeBuilder.chunkRootKeys_single {chunk : PlannedChunk} (pre post : List PlannedChunk)
    (listed : List (VoxelKey × ℕ)) : chunkRootKeys (pre ++ chunk :: post)
      (List.replicate pre.length [] ++ listed :: List.replicate post.length []) =
        keysAt chunk.level listed := by
  have hnone : ∀ l : List PlannedChunk,
      (l.zip (List.replicate l.length [])).flatMap (fun e => keysAt e.1.level e.2) = [] := fun l =>
    List.flatMap_eq_nil_iff.mpr fun e he => by
      rw [List.eq_of_mem_replicate (List.of_mem_zip he).2]
      rfl
  unfold chunkRootKeys
  rw [List.zip_append (List.length_replicate ..).symm, List.flatMap_append, hnone,
    List.zip_cons_cons, List.flatMap_cons, hnone, List.append_nil, List.nil_append]

/-- A chunk without points is not built. -/
lemma OctreeBuilder.buildChunkJob32_nil (b : OctreeBuilder F) (σ : Schedules) (ord : IterOrder)
    (memoryBudget cores : ℕ) {files : ℕ → List RawPoint} {j : ℕ} (hfile : files j = [])
    (chunk : PlannedChunk) :
    b.buildChunkJob32 σ ord memoryBudget cores none files j chunk = .pure [] := by
  have hfits : saturatingMul (actualPoints none files j) perChunkBytesPerPointBuild ≤
      (buildConcurrencyAndBudget F memoryBudget cores).2 := by
    rw [actualPoints, hfile, List.length_nil, saturatingMul, Nat.zero_mul]
    exact Nat.zero_le _
  refine (if_pos hfits).trans ?_
  rw [hfile]
  rfl

/-- A pile of `n` points whose chunk is spilled and whose leaves, at level `m`, are below the
sub-octant. -/
structure SpilledPile (b : OctreeBuilder F) (chunkMemBudget : ℕ) (chunk : PlannedChunk)
    (p : RawPoint) (n m : ℕ) : Prop where
  reach : chunk.level + spillDepthCap ≤ i32Levels
  exceeds : chunkMemBudget < saturatingMul n perChunkBytesPerPointBuild
  dense : maxPointsInBudget chunkMemBudget < n
  crowded : maxLeafPoints < n
  depth : chunk.level + spillDepthCap + chunkLocalExtraLevels F n = m
  deep : chunk.level + spillDepthCap < m
  cap : chunkDepthCap ≤ m
  room : b.memPerPoint ≤ mergeParentOomFloorBytes

namespace SpilledPile

variable {b : OctreeBuilder F} {chunk : PlannedChunk} {p : RawPoint}
  {m n chunkMemBudget i : ℕ} {files : ℕ → List RawPoint}

/-- The build of the chunk leaves one point at its level of the column. -/
lemma run_chunkJob32 (h : SpilledPile b chunkMemBudget chunk p n m) (σ : Schedules)
    (ord : IterOrder) (memoryBudget : ℕ) (hfile : files i = List.replicate n p) (store : Store) :
    ∃ store' listed, (b.chunkJob32 σ ord memoryBudget none files chunkMemBudget i chunk).run store =
        .ok (store', listed) ∧
      Piled (b.keyOf32 p m).ancestorAt32 m chunk.level p n store' listed := by
  have hactual : actualPoints none files i = n := by
    rw [actualPoints, hfile, List.length_replicate]
  have hleaf : (b.keyOf32 p m).ancestorAt32 m = b.keyOf32 p m :=
    VoxelKey.ancestorAt32_self (b.keyOf32 p m)
  obtain ⟨store', listed, hrun, hpiled⟩ := run_spilledJob32_pile (b := b) (p := p) σ ord
    memoryBudget h.reach h.dense h.crowded h.depth h.deep h.cap
    (column_ancestorAt32 (b.keyOf32 p m)) hleaf h.room store
  refine ⟨store', listed, ?_, hpiled⟩
  unfold OctreeBuilder.chunkJob32
  simp only
  rw [hactual, if_neg (Nat.not_le.mpr h.exceeds), hfile]
  exact hrun

/-- The build of a plan in which only this chunk has points leaves the others in their leaf. -/
lemma run_interleavedNodeMap32 {plan : ChunkPlan} {memoryBudget cores : ℕ}
    (h : SpilledPile b (buildConcurrencyAndBudget F memoryBudget cores).2 chunk p n m)
    (hchunk : plan.chunks[i]? = some chunk) (ord : IterOrder) :
    ∃ store nodes, b.interleavedNodeMap32 .sequential ord memoryBudget cores (some plan) none
        (fileAt i (List.replicate n p)) = .ok (store, nodes) ∧
      store (b.keyOf32 p m) = List.replicate (n - 1) p := by
  obtain ⟨pre, post, hsplit, rfl⟩ : ∃ pre post, plan.chunks = pre ++ chunk :: post ∧
      pre.length = i := by
    obtain ⟨hi, rfl⟩ := List.getElem?_eq_some_iff.mp hchunk
    exact ⟨plan.chunks.take i, plan.chunks.drop (i + 1), by simp, by simp [hi.le]⟩
  set files := fileAt pre.length (List.replicate n p) with hfiles
  set job := b.buildChunkJob32 (Schedules.sequential.sub 1) (ord.sub 1) memoryBudget cores none
    files with hjob
  obtain ⟨built, listed, hrun, hpiled⟩ := h.run_chunkJob32
    ((Schedules.sequential.sub 1).sub pre.length) ((ord.sub 1).sub pre.length) memoryBudget
    (show files pre.length = List.replicate n p from if_pos rfl) fun _ => []
  have hjobs := Lists.mapIdx_eq_single (f := job) pre post chunk fun j ch hj =>
    b.buildChunkJob32_nil _ _ memoryBudget cores (show files j = [] from if_neg hj) ch
  have hchunks : (Job.interleave (Schedules.sequential.sub 0).here (plan.chunks.mapIdx job)).run
      (fun _ => []) = .ok (built, List.replicate pre.length [] ++
        listed :: List.replicate post.length []) := by
    rw [hsplit, hjobs]
    exact Job.run_sequence_single hrun _ _
  have hbelow : chunk.level < m := (Nat.le_add_right _ _).trans_lt h.deep
  have hcolumn : Column m (b.keyOf32 p m).ancestorAt32 := column_ancestorAt32 (b.keyOf32 p m)
  obtain ⟨store, hmerge, -, hframe⟩ := b.run_mergeTopsJob32_single (Schedules.sequential.sub 2)
    (ord.sub 2) memoryBudget 0 (hcolumn.mono hbelow.le) (Nat.zero_le _) h.room
    (buildConcurrencyAndBudget F memoryBudget cores).1
    (buildConcurrencyAndBudget F memoryBudget cores).2 hpiled.top
  obtain ⟨keys, hplan⟩ : ∃ keys,
      (b.planJob32 .sequential ord memoryBudget cores plan none files).run (fun _ => []) =
        .ok (store, keys) := by
    unfold OctreeBuilder.planJob32
    rw [Job.run_bind_ok hchunks]
    simp only
    rw [hsplit, OctreeBuilder.chunkRootKeys_single, hpiled.keys, Job.run_bind_ok hmerge]
    exact ⟨_, rfl⟩
  refine ⟨store, assembleNodes32 store keys, ?_, ?_⟩
  · unfold OctreeBuilder.interleavedNodeMap32
    simp only
    rw [if_neg (by rw [hsplit]; simp), hplan]
    rfl
  · have hm : (b.keyOf32 p m).ancestorAt32 m = b.keyOf32 p m :=
      VoxelKey.ancestorAt32_self (b.keyOf32 p m)
    rw [← hm, hframe _ fun d hd => hcolumn.ne le_rfl (hd.trans hbelow.le) (by omega), hpiled.leaf]

end SpilledPile

/-! ## Piles of six hundred million points -/

/-- Six hundred million points at one place. -/
def pilePoints (p : RawPoint) : List RawPoint := List.replicate 600000000 p

lemma eq_of_mem_pilePoints {p q : RawPoint} (h : q ∈ pilePoints p) : q = p :=
  List.eq_of_mem_replicate (n := 600000000) h

/-- The plan of some points on a grid of depth 9, with a chunk target of one point. -/
def finePlan (points : List RawPoint) : ChunkPlan :=
  planOf (unitBuilder.countPoints (2 ^ 9) 9 points) 9 1

/-- A chunk of a plan, at level 15, has a pile in its file. -/
structure PileChunk (plan : ChunkPlan) (files : ℕ → List RawPoint) (p : RawPoint) (i : ℕ)
    (chunk : PlannedChunk) : Prop where
  planned : plan.chunks[i]? = some chunk
  level : chunk.level = 15
  key : chunk.key = unitBuilder.keyOf p 15
  file : files i = pilePoints p

/-- The planner gives a pile such a chunk. -/
lemma exists_pile_chunk {points : List RawPoint} {p : RawPoint} (hlen : points.length < 2 ^ 32)
    (hp : points.countP (fun q => unitBuilder.keyOf q 9 = unitBuilder.keyOf p 9) = 600000000) :
    ∃ (i : ℕ) (chunk : PlannedChunk), (finePlan points).chunks[i]? = some chunk ∧
      chunk.level = 15 ∧ chunk.key = unitBuilder.keyOf p 15 := by
  have hsplit : splitExtraLevels 600000000 1 = 6 := by decide +kernel
  have hcount : cellTotal (unitBuilder.countPoints (2 ^ 9) 9 points) 9 (unitBuilder.keyOf p 9) =
      600000000 := (OctreeBuilder.cellTotal_countPoints unitBuilder hlen p).trans hp
  obtain ⟨i, chunk, hchunk, hkey, hlevel, -⟩ :=
    OctreeBuilder.exists_split_chunk unitBuilder p (hcount.symm ▸ (by norm_num : 1 < 600000000))
  have hlevel : chunk.level = 15 := by rw [hlevel, hcount, hsplit]
  exact ⟨i, chunk, hchunk, hlevel, by rw [← hkey, hlevel]⟩

namespace PileChunk

variable {plan : ChunkPlan} {files : ℕ → List RawPoint} {p : RawPoint} {i : ℕ}
  {chunk : PlannedChunk}

/-- With a budget of 16 GiB the chunk is spilled, and the leaf of the pile is at level 32. -/
lemma spilled (h : PileChunk plan files p i chunk) :
    SpilledPile unitBuilder (buildConcurrencyAndBudget ℚ (2 ^ 34) 1).2 chunk p 600000000 32 := by
  have hbudget : (buildConcurrencyAndBudget ℚ (2 ^ 34) 1).2 = 6871947673 := by decide +kernel
  have hextra : chunkLocalExtraLevels ℚ 600000000 = 5 := by decide +kernel
  rw [hbudget]
  refine ⟨?_, by decide, by decide, by decide, ?_, ?_, by decide, by decide⟩
  · rw [h.level]
    decide
  · rw [h.level, hextra]
    decide
  · rw [h.level]
    decide

/-- The build of the chunk accesses the key at level 15 of the column of the leaf. -/
lemma touches (h : PileChunk plan files p i chunk) {k : VoxelKey}
    (hk : (unitBuilder.keyOf32 p 32).ancestorAt32 15 = k) :
    (unitBuilder.buildChunkJob32 .sequential .listed (2 ^ 34) 1 none files i chunk).Touches k := by
  by_contra hfree
  obtain ⟨store, listed, hrun, hpiled⟩ := h.spilled.run_chunkJob32
    (Schedules.sequential.sub i) (IterOrder.listed.sub i) (2 ^ 34) h.file fun _ => []
  have htop := hpiled.top
  rw [h.level, hk, Job.run_frame hfree hrun] at htop
  cases htop

/-- The leaf of the pile fits where its voxel at level 32 does. -/
lemma leavesSmall (h : PileChunk plan files p i chunk) (hp : (unitBuilder.keyOf p 32).Small) :
    unitBuilder.SpilledLeavesSmall (files i) chunk.level
      (buildConcurrencyAndBudget ℚ (2 ^ 34) 1).2 := by
  intro l hl q hq
  rw [h.file, pilePoints] at hl hq ⊢
  obtain rfl := List.eq_of_mem_replicate hq
  obtain rfl := hl.unique (splitsAt_replicate h.spilled.dense)
  rw [List.countP_replicate, if_pos (decide_eq_true rfl), h.spilled.depth]
  exact hp

end PileChunk

/-- The build of one pile keeps points in the leaf, wherever its key is. -/
lemma exists_pile_run (p : RawPoint) : ∃ files store nodes,
    Distributed unitBuilder (finePlan (pilePoints p)).chunks files ↑(pilePoints p) ∧
    unitBuilder.interleavedNodeMap32 .sequential .listed (2 ^ 34) 1
      (some (finePlan (pilePoints p))) none files = .ok (store, nodes) ∧
    store (unitBuilder.keyOf32 p 32) ≠ [] ∧
    ((unitBuilder.keyOf p 32).Small →
      unitBuilder.LeavesInRange (2 ^ 34) 1 (finePlan (pilePoints p)) none files) := by
  have hlen : (pilePoints p).length < 2 ^ 32 := by
    rw [pilePoints, List.length_replicate]
    norm_num
  obtain ⟨i, chunk, hchunk, hlevel, hkey⟩ := @exists_pile_chunk _ p hlen (by
    rw [pilePoints, List.countP_replicate, if_pos (decide_eq_true rfl)])
  have hpile : PileChunk (finePlan (pilePoints p)) (fileAt i (pilePoints p)) p i chunk :=
    ⟨hchunk, hlevel, hkey, if_pos rfl⟩
  obtain ⟨store, nodes, hrun, hleaf⟩ := hpile.spilled.run_interleavedNodeMap32 hchunk .listed
  refine ⟨fileAt i (pilePoints p), store, nodes, distributed_fileAt hchunk fun x hx => ?_, hrun,
    ?_, fun hp k c hk _ => ?_⟩
  · rw [eq_of_mem_pilePoints hx, hlevel, hkey]
  · rw [hleaf]
    exact List.ne_nil_of_length_pos (by rw [List.length_replicate]; norm_num)
  · by_cases hki : k = i
    · subst hki
      obtain rfl := Option.some.inj (hk.symm.trans hchunk)
      exact hpile.leavesSmall hp
    · rw [fileAt, if_neg hki]
      exact fun l _ x hx => by cases hx

/-- The chunks of a plan for piles at two places. -/
structure TwoPiles (plan : ChunkPlan) (files : ℕ → List RawPoint) (p q : RawPoint) (i j : ℕ)
    (c d : PlannedChunk) : Prop where
  left : PileChunk plan files p i c
  right : PileChunk plan files q j d
  ne : i ≠ j
  others : ∀ k, k ≠ i → k ≠ j → files k = []
  distributed : Distributed unitBuilder plan.chunks files ↑(pilePoints p ++ pilePoints q)

/-- Piles in different cells have chunks of their own. -/
lemma exists_twoPiles {p q : RawPoint} (h9 : unitBuilder.keyOf p 9 ≠ unitBuilder.keyOf q 9)
    (h15 : unitBuilder.keyOf p 15 ≠ unitBuilder.keyOf q 15) : ∃ files i j c d,
      TwoPiles (finePlan (pilePoints p ++ pilePoints q)) files p q i j c d := by
  have hlen : (pilePoints p ++ pilePoints q).length < 2 ^ 32 := by
    rw [pilePoints, pilePoints, List.length_append, List.length_replicate, List.length_replicate]
    norm_num
  obtain ⟨i, c, hc, hclevel, hckey⟩ := @exists_pile_chunk _ p hlen (by
    rw [List.countP_append, pilePoints, pilePoints, List.countP_replicate, List.countP_replicate,
      if_pos (decide_eq_true rfl), if_neg (by simpa using h9.symm)])
  obtain ⟨j, d, hd, hdlevel, hdkey⟩ := @exists_pile_chunk _ q hlen (by
    rw [List.countP_append, pilePoints, pilePoints, List.countP_replicate, List.countP_replicate,
      if_neg (by simpa using h9), if_pos (decide_eq_true rfl)])
  have hij : i ≠ j := by
    rintro rfl
    obtain rfl := Option.some.inj (hc.symm.trans hd)
    exact h15 (hckey.symm.trans hdkey)
  refine ⟨fun k => fileAt i (pilePoints p) k ++ fileAt j (pilePoints q) k, i, j, c, d,
    ⟨hc, hclevel, hckey, ?_⟩, ⟨hd, hdlevel, hdkey, ?_⟩, hij, fun k hki hkj => ?_, ?_⟩
  · rw [fileAt, if_pos rfl, fileAt, if_neg hij, List.append_nil]
  · rw [fileAt, if_neg hij.symm, fileAt, if_pos rfl, List.nil_append]
  · rw [fileAt, if_neg hki, fileAt, if_neg hkj]
    rfl
  · refine (distributed_fileAt hc fun x hx => ?_).append (distributed_fileAt hd fun x hx => ?_)
    · rw [eq_of_mem_pilePoints hx, hclevel, hckey]
    · rw [eq_of_mem_pilePoints hx, hdlevel, hdkey]

/-- The leaves of both piles fit where their voxels do. -/
lemma TwoPiles.leavesInRange {plan : ChunkPlan} {files : ℕ → List RawPoint} {p q : RawPoint}
    {i j : ℕ} {c d : PlannedChunk} (h : TwoPiles plan files p q i j c d)
    (hp : (unitBuilder.keyOf p 32).Small) (hq : (unitBuilder.keyOf q 32).Small) :
    unitBuilder.LeavesInRange (2 ^ 34) 1 plan none files := by
  intro k chunk hk hover
  by_cases hki : k = i
  · subst hki
    obtain rfl := Option.some.inj (hk.symm.trans h.left.planned)
    exact h.left.leavesSmall hp
  · by_cases hkj : k = j
    · subst hkj
      obtain rfl := Option.some.inj (hk.symm.trans h.right.planned)
      exact h.right.leavesSmall hq
    · rw [h.others k hki hkj]
      exact fun l _ x hx => by cases hx

end CopcConverter
