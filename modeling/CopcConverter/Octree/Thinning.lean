import CopcConverter.Foundations.Bitmap
import CopcConverter.Foundations.FirstOfClass
import CopcConverter.Octree.GridSample

/-!
# Which points grid sampling moves up

Of many points the first one of every grid cell, in Morton order and then in input order, is
accepted for the parent; afterwards every child all of whose points were accepted gets one of them
back.  Here this is derived from the loop of the source with its bitmap, and turned into statements
about the result alone.

Parent points and remainders together are the input, and every point that stays is under its own
child.  The points of the parent lie in different cells, each of them is the first one of its cell,
and no child that contributed points is left empty.  So the number of points of the parent is known
from the cells and from the children that were given one back, and it is never zero.  At the end the
points of the parent are given by a condition on every single point, without any loop.
-/

namespace CopcConverter

open TaggedSplit FirstOfClass

variable {F : Type} [FloatArith F]

/-- A point with the number of its child and its position in the input. -/
abbrev IndexedPoint := (ℕ × RawPoint) × ℕ

namespace SampleGrid

variable (g : SampleGrid)

/-- The grid cell of an indexed point. -/
def cellOf (t : IndexedPoint) : ℕ := g.gridIdx t.1.2

/-- Morton order, ties by input order. -/
def Before (t u : IndexedPoint) : Prop :=
  g.mortonKey t.1.2 < g.mortonKey u.1.2 ∨ (g.mortonKey t.1.2 = g.mortonKey u.1.2 ∧ t.2 < u.2)

instance : DecidableRel g.Before := fun t u =>
  inferInstanceAs (Decidable (g.mortonKey t.1.2 < g.mortonKey u.1.2 ∨
    (g.mortonKey t.1.2 = g.mortonKey u.1.2 ∧ t.2 < u.2)))

/-- The point is the first one of its cell. -/
def FirstOfCell (pts : List (ℕ × RawPoint)) (t : IndexedPoint) : Prop :=
  IsFirst g.cellOf g.Before pts.zipIdx t

instance (pts : List (ℕ × RawPoint)) (t : IndexedPoint) : Decidable (g.FirstOfCell pts t) :=
  inferInstanceAs (Decidable (IsFirst g.cellOf g.Before pts.zipIdx t))

/-- The children that contributed points all of which are the first ones of their cells. -/
def whollyFirst (pts : List (ℕ × RawPoint)) (nChildren : ℕ) : Finset ℕ :=
  (Finset.range nChildren).filter fun ci =>
    (∃ t ∈ pts.zipIdx, t.1.1 = ci) ∧ ∀ t ∈ pts.zipIdx, t.1.1 = ci → g.FirstOfCell pts t

/-! ## The grid and the order -/

/-- Every cell has a bit in the bitmap. -/
lemma gridIdx_lt (p : RawPoint) : g.gridIdx p < 32768 * 64 := by
  obtain ⟨hx, hx'⟩ := gridCellAxis_mem (p.x.toInt - g.originX) g.intSize
  obtain ⟨hy, hy'⟩ := gridCellAxis_mem (p.y.toInt - g.originY) g.intSize
  obtain ⟨hz, hz'⟩ := gridCellAxis_mem (p.z.toInt - g.originZ) g.intSize
  unfold gridIdx
  simp only [gridCellsPerAxis] at *
  omega

lemma before_asymm (t u : IndexedPoint) (h : g.Before t u) : ¬ g.Before u t := by
  rintro (hlt | ⟨heq, hlt⟩)
  · rcases h with hlt' | ⟨heq', -⟩
    · exact absurd hlt' (UInt64.lt_asymm hlt)
    · rw [heq'] at hlt
      exact UInt64.lt_irrefl _ hlt
  · rcases h with hlt' | ⟨-, hlt'⟩
    · rw [heq] at hlt'
      exact UInt64.lt_irrefl _ hlt'
    · omega

/-- The points in Morton order, with their positions in the input. -/
def sortedPoints (pts : List (ℕ × RawPoint)) : List IndexedPoint :=
  pts.zipIdx.mergeSort (List.zipIdxLE fun s t => decide (g.mortonKey s.2 ≤ g.mortonKey t.2))

lemma map_fst_sortedPoints (pts : List (ℕ × RawPoint)) : (g.sortedPoints pts).map Prod.fst =
    pts.mergeSort fun s t => decide (g.mortonKey s.2 ≤ g.mortonKey t.2) :=
  List.mergeSort_zipIdx

lemma sortedPoints_perm (pts : List (ℕ × RawPoint)) : (g.sortedPoints pts).Perm pts.zipIdx :=
  List.mergeSort_perm _ _

lemma pairwise_sortedPoints (pts : List (ℕ × RawPoint)) :
    (g.sortedPoints pts).Pairwise g.Before := by
  have hle : (g.sortedPoints pts).Pairwise fun t u =>
      List.zipIdxLE (fun s t => decide (g.mortonKey s.2 ≤ g.mortonKey t.2)) t u = true := by
    apply List.pairwise_mergeSort
    · apply List.zipIdxLE_trans
      intro s t u hst htu
      simp only [decide_eq_true_eq] at *
      exact UInt64.le_trans hst htu
    · apply List.zipIdxLE_total
      intro s t
      simp only [Bool.or_eq_true, decide_eq_true_eq]
      exact UInt64.le_total _ _
  have hidx : (g.sortedPoints pts).Pairwise fun t u => t.2 ≠ u.2 := by
    have hnodup : (pts.zipIdx.map Prod.snd).Nodup := by
      rw [List.zipIdx_map_snd]
      exact List.nodup_range'
    have hnodup' := (((g.sortedPoints_perm pts).map Prod.snd).nodup_iff).mpr hnodup
    exact List.pairwise_map.mp hnodup'
  apply (hle.and hidx).imp
  rintro t u ⟨hle, hne⟩
  unfold List.zipIdxLE at hle
  split_ifs at hle with hkey hkey'
  · simp only [decide_eq_true_eq] at hkey hkey' hle
    exact Or.inr ⟨UInt64.le_antisymm hkey hkey', by omega⟩
  · simp only [decide_eq_true_eq, UInt64.not_le] at hkey hkey'
    exact Or.inl hkey'

end SampleGrid

/-! ## The partition loop -/

/-- What the partition has done after the points `done` of all points `all`: the bitmap holds their
cells, the first ones of their cells are accepted and the others stay with their children. -/
structure Partitioned (g : SampleGrid) (nChildren : ℕ) (all done : List IndexedPoint)
    (s : Partition) : Prop where
  size : s.occupied.size = 32768
  occupied : ∀ i, Bitmap.Mem s.occupied i ↔ ∃ u ∈ done, g.cellOf u = i
  parentPts : s.parentPts = (done.filter fun t => IsFirst g.cellOf g.Before all t).map Prod.fst
  length : s.remaining.length = nChildren
  remaining : ∀ i < nChildren, s.remaining.getD i [] =
    (done.filter fun t => t.1.1 = i ∧ ¬ IsFirst g.cellOf g.Before all t).map fun t => t.1.2

/-- The partition step in terms of the bitmap. -/
lemma Partition.step_eq (gridIdx : RawPoint → ℕ) (s : Partition) (t : ℕ × RawPoint) :
    s.step gridIdx t =
      if Bitmap.wordOf s.occupied (gridIdx t.2) &&& Bitmap.mask (gridIdx t.2) = 0 then
        { s with
          occupied := Bitmap.insert s.occupied (gridIdx t.2)
          parentPts := s.parentPts ++ [t] }
      else { s with remaining := s.remaining.modify t.1 (· ++ [t.2]) } := rfl

variable {g : SampleGrid} {nChildren : ℕ}

/-- One point of the partition. -/
lemma Partitioned.step {done rest : List IndexedPoint} {t : IndexedPoint} {s : Partition}
    (h : Partitioned g nChildren (done ++ t :: rest) done s)
    (hsorted : (done ++ t :: rest).Pairwise g.Before) :
    Partitioned g nChildren (done ++ t :: rest) (done ++ [t]) (s.step g.gridIdx t.1) := by
  have hfirst : IsFirst g.cellOf g.Before (done ++ t :: rest) t ↔
      ¬ Bitmap.Mem s.occupied (g.gridIdx t.1.2) := by
    rw [isFirst_append_cons hsorted g.before_asymm, h.occupied]
    push Not
    rfl
  have hbits : ∀ i, (∃ u ∈ done ++ [t], g.cellOf u = i) ↔
      i = g.gridIdx t.1.2 ∨ Bitmap.Mem s.occupied i := by
    intro i
    rw [h.occupied]
    constructor
    · rintro ⟨u, hu, rfl⟩
      rcases List.mem_append.mp hu with hu | hu
      · exact Or.inr ⟨u, hu, rfl⟩
      · rw [List.mem_singleton.mp hu]
        exact Or.inl rfl
    · rintro (rfl | ⟨u, hu, rfl⟩)
      · exact ⟨t, by simp, rfl⟩
      · exact ⟨u, List.mem_append_left _ hu, rfl⟩
  rw [Partition.step_eq]
  split_ifs with hzero
  · have hnew := hfirst.mpr ((Bitmap.and_mask_eq_zero_iff _ _).mp hzero)
    refine ⟨by rw [Bitmap.size_insert, h.size], fun i => ?_, ?_, h.length, fun i hi => ?_⟩
    · rw [Bitmap.mem_insert (by rw [h.size]; exact g.gridIdx_lt _), hbits]
    · simp only [List.filter_append, List.map_append, h.parentPts]
      simp [hnew]
    · simp only [List.filter_append, List.map_append, h.remaining i hi]
      simp [hnew]
  · have hmem : Bitmap.Mem s.occupied (g.gridIdx t.1.2) := by
      by_contra hmem
      exact hzero ((Bitmap.and_mask_eq_zero_iff _ _).mpr hmem)
    have hnew : ¬ IsFirst g.cellOf g.Before (done ++ t :: rest) t := fun h => hfirst.mp h hmem
    refine ⟨h.size, fun i => ?_, ?_, by rw [List.length_modify, h.length], fun i hi => ?_⟩
    · rw [hbits]
      constructor
      · exact Or.inr
      · rintro (rfl | hi)
        · exact hmem
        · exact hi
    · simp only [List.filter_append, List.map_append, h.parentPts]
      simp [hnew]
    · rw [Split.getD_modify _ _ (by rw [h.length]; exact hi), h.remaining i hi]
      simp only [List.filter_append, List.map_append]
      by_cases hti : t.1.1 = i
      · simp [hti, hnew]
      · simp [hti]

/-- The whole partition. -/
lemma Partitioned.foldl {all done rest : List IndexedPoint} {s : Partition}
    (h : Partitioned g nChildren all done s) (hall : done ++ rest = all)
    (hsorted : all.Pairwise g.Before) :
    Partitioned g nChildren all all ((rest.map Prod.fst).foldl (Partition.step g.gridIdx) s) := by
  induction rest generalizing done s with
  | nil =>
    rw [List.append_nil] at hall
    rwa [hall] at h
  | cons t rest ih =>
    subst hall
    rw [List.map_cons, List.foldl_cons]
    exact ih (h.step hsorted) (by simp)

/-- Before the first point. -/
lemma Partitioned.start (all : List IndexedPoint) :
    Partitioned g nChildren all []
      ⟨Array.replicate 32768 0, [], List.replicate nChildren []⟩ where
  size := Array.size_replicate
  occupied i := by
    constructor
    · exact fun h => absurd h (Bitmap.not_mem_replicate _ i)
    · rintro ⟨u, hu, -⟩
      cases hu
  parentPts := rfl
  length := List.length_replicate
  remaining i hi := by simp [hi]

/-- The partition of some points. -/
def SampleGrid.partition (g : SampleGrid) (pts : List (ℕ × RawPoint)) (nChildren : ℕ) : Partition :=
  ((g.sortedPoints pts).map Prod.fst).foldl (Partition.step g.gridIdx)
    ⟨Array.replicate 32768 0, [], List.replicate nChildren []⟩

lemma partitioned_partition (g : SampleGrid) (pts : List (ℕ × RawPoint)) (nChildren : ℕ) :
    Partitioned g nChildren (g.sortedPoints pts) (g.sortedPoints pts)
      (g.partition pts nChildren) :=
  (Partitioned.start _).foldl (List.nil_append _) (g.pairwise_sortedPoints pts)

lemma split_partition (g : SampleGrid) {pts : List (ℕ × RawPoint)}
    (htags : ∀ t ∈ pts, t.1 < nChildren) :
    Split nChildren pts (g.partition pts nChildren).parentPts
      (g.partition pts nChildren).remaining := by
  have hperm : ((g.sortedPoints pts).map Prod.fst).Perm pts := by
    rw [g.map_fst_sortedPoints]
    exact List.mergeSort_perm _ _
  have htags' : ∀ t ∈ (g.sortedPoints pts).map Prod.fst, t.1 < nChildren := fun t ht =>
    htags t (hperm.mem_iff.mp ht)
  have hloop := Partition.foldl_split g.gridIdx
    (s := ⟨Array.replicate 32768 0, [], List.replicate nChildren []⟩) Split.nil htags'
  rw [List.nil_append] at hloop
  exact hloop.perm hperm

/-! ## Giving points back -/

/-- The child contributed points. -/
def SampleGrid.childHasPts (g : SampleGrid) (pts : List (ℕ × RawPoint)) (ci : ℕ) : Bool :=
  ((g.sortedPoints pts).map Prod.fst).any fun t => t.1 == ci

lemma childHasPts_iff (g : SampleGrid) {pts : List (ℕ × RawPoint)} {ci : ℕ} :
    g.childHasPts pts ci = true ↔ ∃ t ∈ pts.zipIdx, t.1.1 = ci := by
  simp only [SampleGrid.childHasPts, List.any_map, List.any_eq_true, Function.comp_apply,
    beq_iff_eq, (g.sortedPoints_perm pts).mem_iff]

/-- A child that has a point contributed it. -/
lemma childHasPts_of_share (g : SampleGrid) {pts : List (ℕ × RawPoint)} {ci : ℕ}
    (h : share ci pts ≠ 0) : g.childHasPts pts ci = true := by
  rw [childHasPts_iff]
  by_contra hnone
  refine h (share_eq_zero.mpr fun t ht hti => hnone ?_)
  rw [← List.zipIdx_map_fst 0 pts] at ht
  obtain ⟨u, hu, rfl⟩ := List.mem_map.mp ht
  exact ⟨u, hu, hti⟩

/-- The loop that gives points back goes through the children that contributed and have nothing
left, which are those all of whose points are the first ones of their cells. -/
lemma filter_protected (g : SampleGrid) (pts : List (ℕ × RawPoint)) (nChildren : ℕ) :
    ((Finset.range nChildren).filter fun i => g.childHasPts pts i &&
      ((g.partition pts nChildren).remaining.getD i []).isEmpty) = g.whollyFirst pts nChildren := by
  have hmem : ∀ u, u ∈ g.sortedPoints pts ↔ u ∈ pts.zipIdx := fun u =>
    (g.sortedPoints_perm pts).mem_iff
  apply Finset.filter_congr
  intro i hi
  have hempty : ((g.partition pts nChildren).remaining.getD i []).isEmpty = true ↔
      ∀ t ∈ pts.zipIdx, t.1.1 = i → g.FirstOfCell pts t := by
    rw [(partitioned_partition g pts nChildren).remaining i (Finset.mem_range.mp hi),
      List.isEmpty_iff, List.map_eq_nil_iff, List.filter_eq_nil_iff]
    refine forall_congr' fun t => ?_
    rw [hmem, decide_eq_true_eq, not_and, not_not, isFirst_congr hmem]
    rfl
  rw [Bool.and_eq_true, childHasPts_iff, hempty]

/-- Such a child has a point among the accepted ones. -/
lemma exists_accepted (g : SampleGrid) {pts : List (ℕ × RawPoint)} {i : ℕ}
    (h : i ∈ g.whollyFirst pts nChildren) :
    ∃ t ∈ (g.partition pts nChildren).parentPts, t.1 = i := by
  have hmem : ∀ u, u ∈ g.sortedPoints pts ↔ u ∈ pts.zipIdx := fun u =>
    (g.sortedPoints_perm pts).mem_iff
  obtain ⟨-, ⟨t, ht, hti⟩, hall⟩ := Finset.mem_filter.mp h
  refine ⟨t.1, ?_, hti⟩
  rw [(partitioned_partition g pts nChildren).parentPts]
  refine List.mem_map.mpr ⟨t, List.mem_filter.mpr ⟨(hmem t).mpr ht, decide_eq_true ?_⟩, rfl⟩
  exact (isFirst_congr hmem t).mpr (hall t ht hti)

/-! ## The outcome -/

/-- The cells that hold a point. -/
def SampleGrid.occupiedCells (g : SampleGrid) (pts : List (ℕ × RawPoint)) : Finset ℕ :=
  (pts.map fun t => g.gridIdx t.2).toFinset

/-- There is an accepted point for every occupied cell. -/
lemma length_parentPts (g : SampleGrid) (pts : List (ℕ × RawPoint)) (nChildren : ℕ) :
    (g.partition pts nChildren).parentPts.length = (g.occupiedCells pts).card := by
  have hcells : ((g.sortedPoints pts).map g.cellOf).toFinset = g.occupiedCells pts := by
    ext c
    rw [SampleGrid.occupiedCells, List.mem_toFinset, List.mem_toFinset,
      ((g.sortedPoints_perm pts).map g.cellOf).mem_iff]
    nth_rewrite 2 [← List.zipIdx_map_fst 0 pts]
    rw [List.map_map]
    rfl
  rw [(partitioned_partition g pts nChildren).parentPts, List.length_map, ← hcells]
  exact length_firsts (g.pairwise_sortedPoints pts) g.before_asymm

/-- The accepted points lie in different cells. -/
lemma nodup_parentPts (g : SampleGrid) (pts : List (ℕ × RawPoint)) (nChildren : ℕ) :
    ((g.partition pts nChildren).parentPts.map fun t => g.gridIdx t.2).Nodup := by
  rw [(partitioned_partition g pts nChildren).parentPts, List.map_map]
  exact nodup_map_firsts (g.pairwise_sortedPoints pts)

/-- The accepted and the remaining elements of a split, each with its tag, are all elements. -/
lemma perm_of_split {pts acc : List (ℕ × RawPoint)} {rem : List (List RawPoint)}
    (h : Split nChildren pts acc rem) (htags : ∀ t ∈ pts, t.1 < nChildren) :
    (acc ++ tagged rem).Perm pts := by
  apply perm_of_share
  intro i
  rw [share_append, share_tagged]
  by_cases hi : i < nChildren
  · exact h.balanced i hi
  · have hacc : share i acc = 0 := share_eq_zero.mpr fun t ht hti => hi (hti ▸ h.tags t ht)
    have hpts : share i pts = 0 := share_eq_zero.mpr fun t ht hti => hi (hti ▸ htags t ht)
    have hlen : rem.length ≤ i := by
      rw [h.length]
      exact Nat.not_lt.mp hi
    rw [hacc, hpts, List.getD_eq_default _ _ hlen]
    rfl

/-- Sampling many points: the partition and the loop that gives points back. -/
lemma SampleGrid.sample_of_many (g : SampleGrid) {pts : List (ℕ × RawPoint)}
    (hmany : maxLeafPoints < pts.length) :
    g.sample pts nChildren =
      let r := (List.range nChildren).foldl (protect (g.childHasPts pts))
        ((g.partition pts nChildren).parentPts, (g.partition pts nChildren).remaining)
      (r.1.map Prod.snd, r.2) := by
  have hne : ¬ pts.isEmpty = true := by
    intro hempty
    rw [List.isEmpty_iff.mp hempty] at hmany
    exact absurd hmany (Nat.not_lt_zero _)
  have hhas : g.childHasPts pts = fun ci =>
      (pts.mergeSort fun s t => decide (g.mortonKey s.2 ≤ g.mortonKey t.2)).any
        fun t => t.1 == ci := by
    funext ci
    rw [SampleGrid.childHasPts, g.map_fst_sortedPoints]
  simp only [SampleGrid.partition, hhas, SampleGrid.map_fst_sortedPoints]
  rw [sample, if_neg hne, if_neg (Nat.not_le.mpr hmany)]
  rfl

/-- A child that contributed and has nothing left can be given a point back. -/
lemma exists_giveBack (g : SampleGrid) {pts : List (ℕ × RawPoint)} {i : ℕ} (hi : i < nChildren)
    (hgive : g.childHasPts pts i && ((g.partition pts nChildren).remaining.getD i []).isEmpty) :
    ∃ t ∈ (g.partition pts nChildren).parentPts, t.1 = i := by
  apply exists_accepted g
  rw [← filter_protected g pts nChildren]
  exact Finset.mem_filter.mpr ⟨Finset.mem_range.mpr hi, hgive⟩

/-- The points of the parent lie in different cells. -/
lemma SampleGrid.nodup_sample (g : SampleGrid) {pts : List (ℕ × RawPoint)}
    (hmany : maxLeafPoints < pts.length) : ((g.sample pts nChildren).1.map g.gridIdx).Nodup := by
  rw [g.sample_of_many hmany]
  set s := g.partition pts nChildren
  obtain ⟨hsub, -⟩ := protect_count (s := (s.parentPts, s.remaining)) fun i hi =>
    @exists_giveBack nChildren g pts i hi
  rw [List.map_map]
  exact (nodup_parentPts g pts nChildren).sublist (hsub.map _)

/-- So there are no more of them than grid cells. -/
lemma SampleGrid.length_sample_le (g : SampleGrid) {pts : List (ℕ × RawPoint)}
    (hmany : maxLeafPoints < pts.length) :
    (g.sample pts nChildren).1.length ≤ (gridCellsPerAxis ^ 3).toNat := by
  have hcells : ((g.sample pts nChildren).1.map g.gridIdx).toFinset ⊆
      Finset.range (gridCellsPerAxis ^ 3).toNat := by
    intro i hi
    obtain ⟨p, -, rfl⟩ := List.mem_map.mp (List.mem_toFinset.mp hi)
    exact Finset.mem_range.mpr (g.gridIdx_lt p)
  have hcard := Finset.card_le_card hcells
  rwa [List.toFinset_card_of_nodup (g.nodup_sample hmany), List.length_map,
    Finset.card_range] at hcard

/-- **What thinning does.**  Parent points and remainders are the input, every point under its own
child; the parent points lie in different cells; no contributing child is left empty; and the parent
has a point for every occupied cell but one fewer for every child all of whose points are the first
ones of their cells. -/
theorem OctreeBuilder.gridSample_thinned (b : OctreeBuilder F) (parent : VoxelKey)
    {pts : List (ℕ × RawPoint)} {nChildren : ℕ} (hmany : maxLeafPoints < pts.length)
    (htags : ∀ t ∈ pts, t.1 < nChildren) :
    (∃ acc : List (ℕ × RawPoint), acc.map Prod.snd = (b.gridSample parent pts nChildren).1 ∧
      (acc ++ tagged (b.gridSample parent pts nChildren).2).Perm pts) ∧
    (b.gridSample parent pts nChildren).2.length = nChildren ∧
    ((b.gridSample parent pts nChildren).1.map (b.sampleGrid parent).gridIdx).Nodup ∧
    (∀ t ∈ pts, (b.gridSample parent pts nChildren).2.getD t.1 [] ≠ []) ∧
    (b.gridSample parent pts nChildren).1.length +
      ((b.sampleGrid parent).whollyFirst pts nChildren).card =
        ((b.sampleGrid parent).occupiedCells pts).card := by
  have hnodup : ((b.gridSample parent pts nChildren).1.map (b.sampleGrid parent).gridIdx).Nodup :=
    (b.sampleGrid parent).nodup_sample hmany
  set g := b.sampleGrid parent with hg
  have hsample : b.gridSample parent pts nChildren = g.sample pts nChildren := rfl
  rw [hsample, g.sample_of_many hmany] at hnodup ⊢
  set s := g.partition pts nChildren
  obtain ⟨hsplit, hkept⟩ := protect_all (s := (s.parentPts, s.remaining)) (split_partition g htags)
    (fun i => childHasPts_of_share g) le_rfl
  obtain ⟨-, -, -, hcount⟩ := protect_count (s := (s.parentPts, s.remaining)) fun i hi =>
    @exists_giveBack nChildren g pts i hi
  refine ⟨⟨_, rfl, perm_of_split hsplit htags⟩, hsplit.length, hnodup, fun t ht => ?_, ?_⟩
  · apply hkept t.1 (htags t ht)
    intro h0
    exact share_eq_zero.mp h0 t ht rfl
  · rw [List.length_map, ← length_parentPts g pts nChildren, ← filter_protected g pts nChildren]
    exact hcount

/-! ## The points that move up -/

namespace SampleGrid

/-- Sampling moves a point up: it is the first one of its cell, and its child has a later point, or
one that is not the first of its cell. -/
def MovesUp (g : SampleGrid) (pts : List (ℕ × RawPoint)) (t : IndexedPoint) : Prop :=
  g.FirstOfCell pts t ∧
    ∃ u ∈ pts.zipIdx, u.1.1 = t.1.1 ∧ (g.Before t u ∨ ¬ g.FirstOfCell pts u)

instance (g : SampleGrid) (pts : List (ℕ × RawPoint)) (t : IndexedPoint) :
    Decidable (g.MovesUp pts t) :=
  inferInstanceAs (Decidable (g.FirstOfCell pts t ∧
    ∃ u ∈ pts.zipIdx, u.1.1 = t.1.1 ∧ (g.Before t u ∨ ¬ g.FirstOfCell pts u)))

/-- The points that sampling moves up, said without its loops: all of at most `maxLeafPoints`
points, and of more points the first one of every cell, where a child all of whose points are the
first ones of their cells keeps the last of them. -/
def movedUp (g : SampleGrid) (pts : List (ℕ × RawPoint)) : List RawPoint :=
  if pts.length ≤ maxLeafPoints then pts.map Prod.snd
  else (pts.zipIdx.filter fun t => g.MovesUp pts t).map fun t => t.1.2

end SampleGrid

/-- A child is given a point back when all of its points are the first ones of their cells. -/
lemma giveBack_iff (g : SampleGrid) {pts : List (ℕ × RawPoint)} {i : ℕ} (hi : i < nChildren) :
    (g.childHasPts pts i && ((g.partition pts nChildren).remaining.getD i []).isEmpty) = true ↔
      i ∈ g.whollyFirst pts nChildren := by
  rw [← filter_protected, Finset.mem_filter, Finset.mem_range]
  exact (and_iff_right hi).symm

/-- What is accepted and not given back are the points that move up. -/
lemma movesUp_iff {pts : List (ℕ × RawPoint)} (htags : ∀ t ∈ pts, t.1 < nChildren)
    {accepted : List IndexedPoint}
    (haccepted : ∀ u, u ∈ accepted ↔ u ∈ pts.zipIdx ∧ g.FirstOfCell pts u) {t : IndexedPoint}
    (ht : t ∈ pts.zipIdx) :
    g.MovesUp pts t ↔ ¬ (t.1.1 ∈ g.whollyFirst pts nChildren ∧
      LastTagged g.Before Prod.fst accepted t) ∧ g.FirstOfCell pts t := by
  have htag : t.1.1 < nChildren := htags t.1 (List.fst_mem_of_mem_zipIdx ht)
  rw [and_comm]
  refine and_congr_right fun hfirst => ?_
  constructor
  · rintro ⟨u, hu, hut, hlater⟩ ⟨hwholly, hlast⟩
    have hall := (Finset.mem_filter.mp hwholly).2.2
    rcases hlater with hlater | hnot
    · exact hlast u ((haccepted u).mpr ⟨hu, hall u hu hut⟩) hut hlater
    · exact hnot (hall u hu hut)
  · intro hkept
    by_contra hnone
    push Not at hnone
    refine hkept ⟨Finset.mem_filter.mpr ⟨Finset.mem_range.mpr htag, ⟨t, ht, rfl⟩,
      fun u hu hut => (hnone u hu hut).2⟩, fun u hu hut => ?_⟩
    exact (hnone u ((haccepted u).mp hu).1 hut).1

/-- **Sampling moves these points up**, in some order. -/
theorem SampleGrid.sample_perm_movedUp (g : SampleGrid) {pts : List (ℕ × RawPoint)}
    (htags : ∀ t ∈ pts, t.1 < nChildren) :
    (g.sample pts nChildren).1.Perm (g.movedUp pts) := by
  by_cases hmany : maxLeafPoints < pts.length
  · have hmem : ∀ u, u ∈ g.sortedPoints pts ↔ u ∈ pts.zipIdx := fun u =>
      (g.sortedPoints_perm pts).mem_iff
    have hfirst : ∀ u, IsFirst g.cellOf g.Before (g.sortedPoints pts) u ↔ g.FirstOfCell pts u :=
      fun u => isFirst_congr hmem u
    set accepted := (g.sortedPoints pts).filter fun t => g.FirstOfCell pts t with haccepted
    have hparent : (g.partition pts nChildren).parentPts = accepted.map Prod.fst := by
      rw [(partitioned_partition g pts nChildren).parentPts]
      simp only [hfirst, haccepted]
    have hgives : ∀ i < nChildren, g.childHasPts pts i &&
        ((g.partition pts nChildren).remaining.getD i []).isEmpty →
          ∃ t ∈ accepted, t.1.1 = i := by
      intro i hi hgive
      obtain ⟨t, ht, hti⟩ := exists_giveBack g hi hgive
      rw [hparent] at ht
      obtain ⟨u, hu, rfl⟩ := List.mem_map.mp ht
      exact ⟨u, hu, hti⟩
    have hback := foldl_protect_map
      (s := ((g.partition pts nChildren).parentPts, (g.partition pts nChildren).remaining)) hparent
      ((g.pairwise_sortedPoints pts).sublist List.filter_sublist) g.before_asymm hgives
    rw [g.sample_of_many hmany, movedUp, if_neg (Nat.not_le.mpr hmany)]
    simp only
    rw [hback, List.map_map, haccepted, List.filter_filter]
    refine List.Perm.map _ (((g.sortedPoints_perm pts).filter _).trans ?_)
    refine List.Perm.of_eq (List.filter_congr fun t ht => ?_)
    have htag : t.1.1 < nChildren := htags t.1 (List.fst_mem_of_mem_zipIdx ht)
    have hmoves := @movesUp_iff g nChildren pts htags accepted (fun u => by
      rw [haccepted, List.mem_filter, hmem, decide_eq_true_eq]) t ht
    rw [← Bool.decide_and, decide_eq_decide, ← haccepted, hmoves, and_iff_right htag,
      giveBack_iff g htag]
  · have hfew := Nat.not_lt.mp hmany
    rw [movedUp, if_pos hfew, sample, if_pos hfew]
    split_ifs with hempty
    · rw [List.isEmpty_iff.mp hempty]
      exact List.Perm.refl _
    · exact List.Perm.refl _

/-! ## Copies of one point -/

/-- The builder of the unit cube with unit scales. -/
def sampleBuilder : OctreeBuilder ℚ where
  cx := 0
  cy := 0
  cz := 0
  halfsize := 1
  scaleX := 1
  scaleY := 1
  scaleZ := 1
  offsetX := 0
  offsetY := 0
  offsetZ := 0
  numExtraBytes := 0

/-- Many copies of one point from a single child: the child keeps points. -/
theorem gridSample_thinned_copies :
    (sampleBuilder.gridSample VoxelKey.root (List.replicate 100001 (0, default)) 1).2.length = 1 ∧
      (sampleBuilder.gridSample VoxelKey.root (List.replicate 100001 (0, default)) 1).2.getD 0 []
        ≠ [] := by
  have hmany : maxLeafPoints < (List.replicate 100001 ((0, default) : ℕ × RawPoint)).length := by
    rw [List.length_replicate]
    decide
  have htags : ∀ t ∈ List.replicate 100001 ((0, default) : ℕ × RawPoint), t.1 < 1 := by
    intro t ht
    rw [List.eq_of_mem_replicate ht]
    decide
  obtain ⟨-, hlen, -, hkept, -⟩ := sampleBuilder.gridSample_thinned VoxelKey.root hmany htags
  refine ⟨hlen, hkept (0, default) ?_⟩
  rw [List.mem_replicate]
  exact ⟨by decide, rfl⟩

end CopcConverter
