import CopcConverter.Foundations.Offers
import CopcConverter.Octree.Int32Agreement

/-!
# When a build leaves no gap

A build leaves an empty node between two nodes with points when a collapse takes all points of a
child that is already a thinned sample: the child is left empty above its own descendants.  Whether
that happens is decided by what the voxels offer to their parents.  A voxel whose points are not
sampled offers all of them; a crowded voxel, one with more than `maxLeafPoints` points above the
depth at which leaves are no longer split, offers what moves up from the offers of its children: all
of it if it is little, and else the first point of every cell of its sampling grid.  This speaks of
the points and of the plan, and of no run of the build (`VoxelOffers`).

There is no gap if every crowded voxel that offers points is fed: its children offer more than
`maxLeafPoints` points together, and each of them that has points offers some (`VoxelsFed`).  The
order of points with equal Morton codes is open in `VoxelOffers`, as it depends on the iteration
order of hash maps; so a build without gaps is fed by some offers, and it is enough that all offers
feed it.  Over 32-bit keys this holds where the leaves fit.
-/

namespace CopcConverter

open LevelTree TaggedSplit

variable {F : Type} [FloatArith F] {b : OctreeBuilder F} {pts : Multiset RawPoint} {ord : IterOrder}
  {memoryBudget cores : ℕ} {plan : ChunkPlan} {chunkActualCounts : Option (List ℕ)}
  {files : ℕ → List RawPoint}

/-! ## Gaps in the list of nodes -/

/-- No listed node without points lies strictly between two listed nodes with points. -/
def GapFree (nodes : List (VoxelKey × ℕ)) : Prop :=
  ∀ a ∈ nodes, ∀ c ∈ nodes, 0 < a.2 → 0 < c.2 → ∀ k, IsProperAncestor a.1 k →
    IsProperAncestor k c.1 → ∃ e ∈ nodes, e.1 = k ∧ 0 < e.2

/-- The list of a build has no gap when its store has none. -/
lemma Listing.gapFree_iff {store : Store} {nodes : List (VoxelKey × ℕ)} (h : Listing store nodes)
    (hout : ∀ k, ¬ IsAncestor VoxelKey.root k → store k = []) :
    GapFree nodes ↔ Gapless VoxelKey.root (stored store) := by
  have hpos : ∀ e ∈ nodes, 0 < e.2 ↔ store e.1 ≠ [] := fun e he => by
    rw [h.counts e he, List.length_pos_iff]
  have hentry : ∀ k, store k ≠ [] → ∃ e ∈ nodes, e.1 = k ∧ 0 < e.2 := fun k hne => by
    obtain ⟨e, he, rfl⟩ := List.mem_map.mp (h.complete k hne)
    exact ⟨e, he, rfl, (hpos e he).mpr hne⟩
  constructor
  · intro hgap a m k _ ham hmk ha hk hm
    obtain ⟨ea, hea, rfl, hea0⟩ := hentry a fun hnil => ha (stored_eq_zero.mpr hnil)
    obtain ⟨ek, hek, rfl, hek0⟩ := hentry k fun hnil => hk (stored_eq_zero.mpr hnil)
    obtain ⟨e, he, rfl, he0⟩ := hgap ea hea ek hek hea0 hek0 m ham hmk
    exact (hpos e he).mp he0 (stored_eq_zero.mp hm)
  · intro hgap a ha c hc ha0 hc0 k hak hkc
    have hane := (hpos a ha).mp ha0
    have hroot : IsAncestor VoxelKey.root a.1 := by
      by_contra hnot
      exact hane (hout a.1 hnot)
    refine hentry k fun hnil => ?_
    exact hgap a.1 k c.1 hroot hak hkc (fun h0 => hane (stored_eq_zero.mp h0))
      (fun h0 => (hpos c hc).mp hc0 (stored_eq_zero.mp h0)) (stored_eq_zero.mpr hnil)

namespace OctreeBuilder

/-! ## The floor of the leaves -/

/-- Leaves at or below a voxel are not split any further.  The leaves of a chunk that is built in
memory are split down to the depth cap, or start below it; in a chunk that is split at level `l`,
those of every voxel at that level start at a depth given by the number of its points. -/
def AtFloor (b : OctreeBuilder F) (pts : Multiset RawPoint) (memoryBudget cores : ℕ)
    (plan : ChunkPlan) (chunkActualCounts : Option (List ℕ)) (files : ℕ → List RawPoint)
    (v : VoxelKey) : Prop :=
  ∃ i chunk, plan.chunks[i]? = some chunk ∧ IsAncestor chunk.key v ∧
    if saturatingMul (actualPoints chunkActualCounts files i) perChunkBytesPerPointBuild ≤
        (buildConcurrencyAndBudget F memoryBudget cores).2 then
      leafFloor F chunk.level (actualPoints chunkActualCounts files i) ≤ v.level
    else
      ∃ l, SplitsAt b (files i) chunk.level
        (maxPointsInBudget (buildConcurrencyAndBudget F memoryBudget cores).2) l ∧
          b.SpillFloor pts l v

/-- The level chosen to split a chunk is the one at which it is split, also without points. -/
lemma splitsAt_splitLevelOf (b : OctreeBuilder F) (ord : IterOrder) (chunk : PlannedChunk)
    (points : List RawPoint) (chunkMemBudget : ℕ) :
    SplitsAt b points chunk.level (maxPointsInBudget chunkMemBudget)
      (b.splitLevelOf ord chunk points chunkMemBudget) := by
  rcases eq_or_ne points [] with rfl | hne
  · change SplitsAt b [] chunk.level _ (chunk.level + 1)
    exact ⟨Nat.lt_succ_self _, Nat.add_le_add_left (by decide) _,
      fun m hm hlt => absurd hlt (Nat.not_lt.mpr hm), Or.inr fun _ => Nat.zero_le _⟩
  · exact b.splitsAt_chooseSplitLevel ord hne chunk.key _

/-- The floor of a build does not depend on any order of iteration. -/
lemma buildFloor_iff_atFloor {v : VoxelKey} :
    b.BuildFloor ord pts memoryBudget cores plan chunkActualCounts files v ↔
      b.AtFloor pts memoryBudget cores plan chunkActualCounts files v := by
  refine exists₂_congr fun i chunk => and_congr_right fun _ => and_congr_right fun _ => ?_
  have hsplit := b.splitsAt_splitLevelOf (((ord.sub 1).sub i).sub 0) chunk (files i)
    (buildConcurrencyAndBudget F memoryBudget cores).2
  unfold ChunkFloor
  split_ifs
  · rfl
  · refine ⟨fun h => ⟨_, hsplit, h⟩, ?_⟩
    rintro ⟨l, hl, h⟩
    rwa [← hl.unique hsplit]

/-- What is below the floor is at the floor. -/
lemma AtFloor.mono {v w : VoxelKey}
    (h : b.AtFloor pts memoryBudget cores plan chunkActualCounts files v) (hvw : IsAncestor v w) :
    b.AtFloor pts memoryBudget cores plan chunkActualCounts files w := by
  obtain ⟨i, chunk, hi, hv, hfloor⟩ := h
  refine ⟨i, chunk, hi, hv.trans hvw, ?_⟩
  have hle : v.level ≤ w.level := hvw.1
  split_ifs at hfloor ⊢
  · exact hfloor.trans hle
  · obtain ⟨l, hl, hvl, hdepth⟩ := hfloor
    refine ⟨l, hl, hvl.trans hle, ?_⟩
    have hsame : ancestorAt v l = ancestorAt w l := by
      conv_lhs => rw [← hvw.2]
      exact ancestorAt_ancestorAt hvl hvw.1
    rw [← hsame]
    exact hdepth.trans hle

/-! ## Offers -/

/-- The points that every voxel offers to its parent: all of its points, or what moves up from the
offers of its children in its sampling grid if it has more than `maxLeafPoints` points and is not at
the floor. -/
def VoxelOffers (b : OctreeBuilder F) (pts : Multiset RawPoint) (memoryBudget cores : ℕ)
    (plan : ChunkPlan) (chunkActualCounts : Option (List ℕ)) (files : ℕ → List RawPoint)
    (O : VoxelKey → Multiset RawPoint) : Prop :=
  Offers b.addressing maxLeafPoints pts
    (b.AtFloor pts memoryBudget cores plan chunkActualCounts files) b.HandsUp VoxelKey.root O

/-- Every voxel of more than `maxLeafPoints` points that is not at the floor is offered more than
`maxLeafPoints` points, and some by each of its children that has points, unless it offers none
itself. -/
def VoxelsFed (b : OctreeBuilder F) (pts : Multiset RawPoint) (memoryBudget cores : ℕ)
    (plan : ChunkPlan) (chunkActualCounts : Option (List ℕ)) (files : ℕ → List RawPoint)
    (O : VoxelKey → Multiset RawPoint) : Prop :=
  Fed b.addressing maxLeafPoints pts
    (b.AtFloor pts memoryBudget cores plan chunkActualCounts files) VoxelKey.root O

/-- The rules of the offers are lawful: what moves up depends on nothing but the children. -/
lemma lawful_handsUp (b : OctreeBuilder F) (pts : Multiset RawPoint) (memoryBudget cores : ℕ)
    (plan : ChunkPlan) (chunkActualCounts : Option (List ℕ)) (files : ℕ → List RawPoint) :
    Lawful (b.AtFloor pts memoryBudget cores plan chunkActualCounts files) b.HandsUp where
  deep _ _ h hvw := h.mono hvw
  congr heq h := by
    obtain ⟨f, hf, rfl⟩ := h
    exact ⟨f, fun c hc => (hf c hc).trans (heq c hc).symm, rfl⟩
  nil _ _ := ⟨fun _ => [], by simp, rfl⟩

/-- A build tells by some offers whether it has left a gap. -/
lemma buildNodeMap_accounted (hd : Distributed b plan.chunks files pts)
    (hun : Unrelated (plan.chunks.map PlannedChunk.key))
    (hroot : ∀ c ∈ plan.chunks, IsAncestor VoxelKey.root c.key) {store : Store}
    {nodes : List (VoxelKey × ℕ)}
    (hok : b.buildNodeMap ord memoryBudget cores (some plan) chunkActualCounts files =
      .ok (store, nodes)) :
    ∃ O, b.VoxelOffers pts memoryBudget cores plan chunkActualCounts files O ∧
      (GapFree nodes ↔ b.VoxelsFed pts memoryBudget cores plan chunkActualCounts files O) := by
  have hallow : (offerRules b.addressing maxLeafPoints pts
      (b.AtFloor pts memoryBudget cores plan chunkActualCounts files)).Allow b.addressing
      maxLeafPoints pts VoxelKey.root
      (b.BuildFloor ord pts memoryBudget cores plan chunkActualCounts files) := by
    refine ⟨fun k _ hleaf hcrowded => ?_, fun k _ _ hnot hfloor => ?_⟩
    · rcases hleaf with hfew | hfloor
      · exact absurd hcrowded.1 (Nat.not_lt.mpr hfew)
      · exact hcrowded.2 (buildFloor_iff_atFloor.mp hfloor)
    · exact hnot (buildFloor_iff_atFloor.mpr hfloor)
  obtain ⟨hacc, hout, hlist⟩ := buildNodeMap_built
    (I := offerInvariant b.addressing maxLeafPoints pts
      (b.lawful_handsUp pts memoryBudget cores plan chunkActualCounts files))
    hd hun hroot hallow hok
  obtain ⟨O, hO, -, hgap⟩ := hacc.offers
  exact ⟨O, hO, (hlist.gapFree_iff hout).trans hgap⟩

/-- **When a build leaves no gap**, where the leaves fit: it leaves none if the voxels are fed by
whatever they may offer, and if it leaves none, they are fed by something they may offer. -/
theorem interleavedNodeMap32_gapFree {σ : Schedules} {grid : ℕ → UInt32}
    {gridDepth chunkTarget : ℕ} {store : Store} {nodes : List (VoxelKey × ℕ)}
    (hgrid : gridDepth ≤ 9)
    (hd : Distributed b (planOf grid gridDepth chunkTarget).chunks files pts)
    (hfits : b.LeavesInRange memoryBudget cores (planOf grid gridDepth chunkTarget)
      chunkActualCounts files)
    (hok : b.interleavedNodeMap32 σ ord memoryBudget cores
      (some (planOf grid gridDepth chunkTarget)) chunkActualCounts files = .ok (store, nodes)) :
    ((∀ O, b.VoxelOffers pts memoryBudget cores (planOf grid gridDepth chunkTarget)
          chunkActualCounts files O →
        b.VoxelsFed pts memoryBudget cores (planOf grid gridDepth chunkTarget) chunkActualCounts
          files O) → GapFree nodes) ∧
      (GapFree nodes → ∃ O,
        b.VoxelOffers pts memoryBudget cores (planOf grid gridDepth chunkTarget) chunkActualCounts
          files O ∧
        b.VoxelsFed pts memoryBudget cores (planOf grid gridDepth chunkTarget) chunkActualCounts
          files O) := by
  have hbuild := (interleavedNodeMap32_iff hgrid hd.routed hfits σ ord (store, nodes)).mp hok
  obtain ⟨O, hO, hgap⟩ := buildNodeMap_accounted hd planOf_unrelated
    (fun _ => planOf_below_root) hbuild
  exact ⟨fun h => hgap.mpr (h O hO), fun h => ⟨O, hO, hgap.mp h⟩⟩

end OctreeBuilder

/-! ## A root that is fed -/

/-- The chunk of the two piles is the root. -/
lemma leavesInRange_sampled (memoryBudget : ℕ) : unitBuilder.LeavesInRange memoryBudget 1
    (planOf sampledGrid 1 1000000) none sampledFiles := by
  refine OctreeBuilder.leavesInRange_of_shallow fun chunk hchunk => ?_
  rw [planOf_sampled] at hchunk
  rw [List.mem_singleton.mp hchunk]
  exact Nat.zero_le 6

/-- Of two piles in different places at most one passes. -/
lemma length_filter_piles_le {α : Type} {x y : α} (n : ℕ) {P : α → Bool}
    (h : ¬ (P x = true ∧ P y = true)) :
    ((List.replicate n x ++ List.replicate n y).filter P).length ≤ n := by
  rw [List.filter_append, List.filter_replicate, List.filter_replicate, List.length_append]
  split_ifs with hx hy
  · exact absurd ⟨hx, hy⟩ h
  all_goals simp

/-- A voxel below the root has the points of one pile at most. -/
lemma card_inside_sampled {v : VoxelKey} (hv : IsProperAncestor VoxelKey.root v) :
    (inside unitBuilder.addressing ↑(sampledFiles 0) v).card ≤ maxLeafPoints := by
  obtain ⟨c, hc, hcv⟩ := hv.exists_child
  refine (Multiset.card_le_card (inside_le_of_isAncestor hcv)).trans ?_
  rw [inside_eq_filter, sampledFiles, if_pos rfl, Multiset.filter_coe, Multiset.coe_card]
  refine (length_filter_piles_le 60000 ?_).trans (by decide)
  simp only [decide_eq_true_eq]
  rintro ⟨hlow, hhigh⟩
  have hcl : level c = 1 := hc.1
  rw [hcl] at hlow hhigh
  exact absurd (hlow.trans hhigh.symm) (by decide +kernel)

/-- The two piles leave no gap: only the root is crowded, and its children offer all points. -/
theorem interleavedNodeMap32_gapFree_sampled : ∃ store nodes,
    unitBuilder.interleavedNodeMap32 .sequential .listed (2 ^ 30) 1
      (some (planOf sampledGrid 1 1000000)) none sampledFiles = .ok (store, nodes) ∧
    GapFree nodes := by
  obtain ⟨store, nodes, hok⟩ := buildNodeMap_sampled
  have hrun := (OctreeBuilder.interleavedNodeMap32_iff (by norm_num) distributed_sampled.routed
    (leavesInRange_sampled _) .sequential .listed (store, nodes)).mpr hok
  refine ⟨store, nodes, hrun, (OctreeBuilder.interleavedNodeMap32_gapFree (by norm_num)
    distributed_sampled (leavesInRange_sampled _) hrun).1 fun O hO v hv hcrowded _ => ?_⟩
  obtain rfl : VoxelKey.root = v := by
    by_contra hne
    exact absurd hcrowded.1 (Nat.not_lt.mpr (card_inside_sampled (hv.proper hne)))
  have hwhole : ∀ c, IsChild VoxelKey.root c →
      O c = inside unitBuilder.addressing ↑(sampledFiles 0) c := fun c hc =>
    hO.whole c hc.isProperAncestor.isAncestor fun h =>
      absurd h.1 (Nat.not_lt.mpr (card_inside_sampled hc.isProperAncestor))
  refine ⟨fun L hL => ?_, fun c hc hin => (hwhole c hc).symm ▸ hin⟩
  rw [hL.gathered_eq_inside hwhole]
  exact hcrowded.1

end CopcConverter
