import CopcConverter.Octree.NodeMap

/-!
# The adaptive subdivision of the leaves

The loop that splits leaves with too many points, and what it leaves behind.  All leaves start at
one level, and every round splits all oversized leaves into leaves one level deeper.  So the
oversized leaves are always at the deepest level, which is why giving up on one of them at the depth
cap leaves no oversized leaf above the cap.

The loop ends after at most as many rounds as there are levels up to the cap.  The leaves it leaves
are a cut of the subtree: every point is in exactly one of them, the one that its own voxel names,
and no leaf is above another one.  Coincident points show that the cap is reached: more copies of
one point than a leaf may hold are split down to it.
-/

namespace CopcConverter

open LevelTree

namespace OctreeBuilder

variable {F : Type} [FloatArith F] {b : OctreeBuilder F} {pts : Multiset RawPoint}
  {root : VoxelKey} {s : Nodes × ℕ}

/-- What the subdivision loop leaves behind, for the points of a subtree that were classified at
`leafDepth`. -/
structure Subdivided (b : OctreeBuilder F) (points : List RawPoint) (leafDepth : ℕ)
    (s : Nodes × ℕ) : Prop where
  settled : Settled s
  contents : (s.1.keys.map fun k => (↑(BucketMap.get s.1 k) : Multiset RawPoint)).sum = ↑points
  own : ∀ k ∈ s.1, ∀ p ∈ BucketMap.get s.1 k, b.keyOf p k.level = k
  prefixFree : ∀ a k, a ∈ s.1 → k ∈ s.1 → ¬ IsProperAncestor a k
  depth : ∀ k ∈ s.1, k.level ≤ s.2
  deepest : points ≠ [] → ∃ k ∈ s.1, k.level = s.2
  empty : points = [] → s = (∅, leafDepth)
  capped : ∀ k ∈ s.1, maxLeafPoints < (BucketMap.get s.1 k).length → chunkDepthCap ≤ k.level

/-- **The subdivision loop terminates, and its leaves hold the points in a prefix-free way**: with
fuel for more rounds than there are levels up to the cap it ends by its own tests, in whatever order
the oversized leaves are visited, and every leaf that is still oversized is at the cap or deeper. -/
theorem subdivide_subdivided (b : OctreeBuilder F) (ord : IterOrder) {fuel : ℕ}
    (hfuel : chunkDepthCap < fuel) {root : VoxelKey} {leafDepth : ℕ}
    (hdepth : root.level ≤ leafDepth) {points : List RawPoint}
    (hunder : ∀ p ∈ points, b.keyOf p root.level = root) :
    b.Subdivided points leafDepth
      (b.subdivide ord fuel (b.leavesAt points leafDepth, leafDepth)) := by
  have hpts : (↑points : Multiset RawPoint) = inside b.addressing ↑points root := by
    classical
    rw [inside_eq_filter]
    exact (Multiset.filter_eq_self.mpr hunder).symm
  have hstart : b.Leaves ↑points root (b.leavesAt points leafDepth, leafDepth) :=
    leaves_leavesAt hpts hdepth
  have hleaves := hstart.subdivide ord fuel
  have hfront := (atFront_leavesAt points leafDepth).subdivide hstart ord fuel
  have hsettled := hstart.subdivide_settled ord hfuel
  refine ⟨hsettled, ?_, fun k hk p hp => ?_, fun a k ha hk hproper => ?_, hleaves.depth,
    fun hne => ?_, fun hnil => ?_, fun k hk hlarge => ?_⟩
  · rw [hleaves.cut.contents, ← hpts]
  · have hin : p ∈ inside b.addressing ↑points k := by
      rw [← hleaves.cut.exact k hk]
      exact hp
    exact (mem_inside.mp hin).2
  · exact hproper.1.ne (congrArg level
      (hleaves.cut.antichain a k ha hk hproper.isAncestor))
  · obtain ⟨p, hp⟩ := List.exists_mem_of_ne_nil points hne
    obtain ⟨k, hk, -⟩ := hleaves.cut.covers p hp (hunder p hp)
    exact hfront.attained ⟨k, hk⟩
  · subst hnil
    obtain ⟨n, rfl⟩ := Nat.exists_eq_succ_of_ne_zero
      (Nat.ne_of_gt ((Nat.zero_le _).trans_lt hfuel))
    rcases subdivide_succ (b := b) ord n (b.leavesAt [] leafDepth, leafDepth) with
      ⟨-, heq⟩ | ⟨⟨k, hk⟩, -⟩
    · exact heq
    · exact absurd hk.1 (AList.notMem_empty k)
  · exact (atFront_leavesAt points leafDepth).capped hstart ord hfuel ⟨hk, hlarge⟩

end OctreeBuilder

/-- More copies of one point than a leaf may hold are split down to the cap. -/
theorem subdivide_subdivided_copies : unitBuilder.Subdivided
    (List.replicate (maxLeafPoints + 1) (pointAt 0 0 0)) 0
    (unitBuilder.subdivide .listed (chunkDepthCap + 1)
      (unitBuilder.leavesAt (List.replicate (maxLeafPoints + 1) (pointAt 0 0 0)) 0, 0)) :=
  @OctreeBuilder.subdivide_subdivided ℚ _ unitBuilder .listed (chunkDepthCap + 1) (by decide)
    VoxelKey.root 0 (by decide) _ fun p _ => unitBuilder.keyOf_zero p

end CopcConverter
