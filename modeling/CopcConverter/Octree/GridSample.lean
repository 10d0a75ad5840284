import CopcConverter.Foundations.Pyramid
import CopcConverter.Foundations.TaggedSplit
import CopcConverter.Octree.Geometry

/-!
# Grid sampling

`grid_sample` decides which of the points gathered from the children of a voxel move up into it.
Points that are few enough for one node all move.  Of more points, the first one in every cell of a
grid of 128 cells a side moves up, in Morton order of their coordinates within the voxel; the others
stay in their children, and a child all of whose points would move keeps one.

The function is defined as the source has it, with the coordinates relative to the voxel in 64-bit
integers, the clamps of the cell index, and the bitmap of the occupied cells.  What the rest of the
build needs to know about it is `Sampled`: what moves up and what stays make up what was there, and
nothing comes from nothing.
-/

namespace CopcConverter

open LevelTree TaggedSplit

variable {F : Type} [FloatArith F]

/-- Maximum points per leaf voxel before we subdivide further. -/
def maxLeafPoints : ℕ := 100000

/-- Grid cells per axis for LOD thinning. -/
def gridCellsPerAxis : ℤ := 128

/-! ## The sampling grid -/

/-- Map a single-axis offset onto a sampling-grid cell index. -/
def gridCellAxis (offset intSize : ℤ) : ℤ :=
  max 0 (min ((max offset 0 * gridCellsPerAxis) / intSize) (gridCellsPerAxis - 1))

/-- A cell index is below 128. -/
lemma gridCellAxis_mem (offset intSize : ℤ) :
    0 ≤ gridCellAxis offset intSize ∧ gridCellAxis offset intSize ≤ 127 := by
  unfold gridCellAxis gridCellsPerAxis
  omega

/-- Spread the low 21 bits of `v` three apart. -/
def spread (v : UInt64) : UInt64 :=
  let v := v &&& 0x1FFFFF
  let v := (v ||| (v <<< 32)) &&& 0x1F00000000FFFF
  let v := (v ||| (v <<< 16)) &&& 0x1F0000FF0000FF
  let v := (v ||| (v <<< 8)) &&& 0x100F00F00F00F00F
  let v := (v ||| (v <<< 4)) &&& 0x10C30C30C30C30C3
  (v ||| (v <<< 2)) &&& 0x1249249249249249

/-- Morton code of three coordinates. -/
def morton3 (x y z : UInt32) : UInt64 :=
  spread x.toUInt64 ||| (spread y.toUInt64 <<< 1) ||| (spread z.toUInt64 <<< 2)

/-- Parent voxel geometry in integer coordinate space. -/
structure SampleGrid where
  originX : ℤ
  originY : ℤ
  originZ : ℤ
  intSize : ℤ

/-- The sampling grid of a voxel. -/
def OctreeBuilder.sampleGrid (b : OctreeBuilder F) (parent : VoxelKey) : SampleGrid :=
  let voxelSizeWorld := FloatArith.lit 2 * b.halfsize / FloatArith.lit (2 ^ parent.level)
  let origin (c offset scale : F) (v : ℕ) : ℤ :=
    FloatArith.toI64 (FloatArith.round
      ((c - b.halfsize + FloatArith.lit v * voxelSizeWorld - offset) / scale))
  { originX := origin b.cx b.offsetX b.scaleX parent.x
    originY := origin b.cy b.offsetY b.scaleY parent.y
    originZ := origin b.cz b.offsetZ b.scaleZ parent.z
    intSize := FloatArith.toI64 (FloatArith.max
      (FloatArith.round
        (voxelSizeWorld / FloatArith.min (FloatArith.min b.scaleX b.scaleY) b.scaleZ))
      (FloatArith.lit gridCellsPerAxis)) }

/-- The Morton code of a point within the voxel. -/
def SampleGrid.mortonKey (g : SampleGrid) (p : RawPoint) : UInt64 :=
  let d (v : Int32) (origin : ℤ) : UInt32 := UInt32.ofNat (max (v.toInt - origin) 0).toNat
  morton3 (d p.x g.originX) (d p.y g.originY) (d p.z g.originZ)

/-- The grid cell of a point. -/
def SampleGrid.gridIdx (g : SampleGrid) (p : RawPoint) : ℕ :=
  let gx := gridCellAxis (p.x.toInt - g.originX) g.intSize
  let gy := gridCellAxis (p.y.toInt - g.originY) g.intSize
  let gz := gridCellAxis (p.z.toInt - g.originZ) g.intSize
  (gx + gy * gridCellsPerAxis + gz * gridCellsPerAxis * gridCellsPerAxis).toNat

/-! ## The partition loop -/

/-- The loop variables of the partition: the occupancy bitmap, the accepted points and what remains
for every child. -/
structure Partition where
  occupied : Array UInt64
  parentPts : List (ℕ × RawPoint)
  remaining : List (List RawPoint)

/-- One point of the partition: the first point of a cell is accepted, any other stays. -/
def Partition.step (gridIdx : RawPoint → ℕ) (s : Partition) (t : ℕ × RawPoint) : Partition :=
  let idx := gridIdx t.2
  let word := idx >>> 6
  let mask : UInt64 := 1 <<< UInt64.ofNat (idx &&& 63)
  if s.occupied.getD word 0 &&& mask = 0 then
    { s with
      occupied := s.occupied.setIfInBounds word (s.occupied.getD word 0 ||| mask)
      parentPts := s.parentPts ++ [t] }
  else
    { s with remaining := s.remaining.modify t.1 (· ++ [t.2]) }

/-- Sampling in a grid: the points of the parent, and what remains of every child. -/
def SampleGrid.sample (g : SampleGrid) (pts : List (ℕ × RawPoint)) (nChildren : ℕ) :
    List RawPoint × List (List RawPoint) :=
  if pts.isEmpty then
    ([], List.replicate nChildren [])
  else if pts.length ≤ maxLeafPoints then
    (pts.map Prod.snd, List.replicate nChildren [])
  else
    let pts := pts.mergeSort fun s t => decide (g.mortonKey s.2 ≤ g.mortonKey t.2)
    let childHasPts (ci : ℕ) : Bool := pts.any fun t => t.1 == ci
    let nCells := (gridCellsPerAxis * gridCellsPerAxis * gridCellsPerAxis).toNat
    let s := pts.foldl (Partition.step g.gridIdx)
      ⟨Array.replicate (nCells / 64) 0, [], List.replicate nChildren []⟩
    -- every child that contributed points keeps at least one
    let r := (List.range nChildren).foldl (protect childHasPts) (s.parentPts, s.remaining)
    (r.1.map Prod.snd, r.2)

/-- Grid-based spatial sampling for one parent node, in the grid of its voxel. -/
def OctreeBuilder.gridSample (b : OctreeBuilder F) (parent : VoxelKey) (pts : List (ℕ × RawPoint))
    (nChildren : ℕ) : List RawPoint × List (List RawPoint) :=
  (b.sampleGrid parent).sample pts nChildren

lemma Partition.step_split (gridIdx : RawPoint → ℕ) {n : ℕ} {pts : List (ℕ × RawPoint)}
    {s : Partition} {t : ℕ × RawPoint} (h : Split n pts s.parentPts s.remaining) (ht : t.1 < n) :
    Split n (pts ++ [t]) (s.step gridIdx t).parentPts (s.step gridIdx t).remaining := by
  unfold Partition.step
  simp only
  split_ifs
  · exact h.accept ht
  · exact h.reject

/-- The partition loop splits what it has gone through. -/
lemma Partition.foldl_split (gridIdx : RawPoint → ℕ) {n : ℕ} {done pts : List (ℕ × RawPoint)}
    {s : Partition} (h : Split n done s.parentPts s.remaining) (hpts : ∀ t ∈ pts, t.1 < n) :
    Split n (done ++ pts) (pts.foldl (Partition.step gridIdx) s).parentPts
      (pts.foldl (Partition.step gridIdx) s).remaining := by
  induction pts generalizing done s with
  | nil => simpa using h
  | cons t pts ih =>
    have hnext := ih (Partition.step_split gridIdx h (hpts t List.mem_cons_self)) fun u hu =>
      hpts u (List.mem_cons_of_mem _ hu)
    rwa [List.append_assoc, List.singleton_append] at hnext

/-! ## What sampling does -/

/-- The outcome of sampling the buckets of some children: nothing from nothing, everything from at
most `maxLeafPoints` points, and otherwise a part that leaves no contributing child empty. -/
structure Sampled (buckets : List (List RawPoint)) (parentPts : List RawPoint)
    (remaining : List (List RawPoint)) : Prop where
  length : remaining.length = buckets.length
  idle : buckets.flatten = [] → parentPts = [] ∧ ∀ r ∈ remaining, r = []
  collapse : buckets.flatten.length ≤ maxLeafPoints →
    parentPts = buckets.flatten ∧ ∀ r ∈ remaining, r = []
  total : (↑parentPts : Multiset RawPoint) + (remaining.map Multiset.ofList).sum = ↑buckets.flatten
  kept : maxLeafPoints < buckets.flatten.length → ∀ i, i < buckets.length →
    (↑(remaining.getD i []) : Multiset RawPoint) ≤ ↑(buckets.getD i []) ∧
      (buckets.getD i [] ≠ [] → remaining.getD i [] ≠ [])

lemma sum_replicate_nil (n : ℕ) :
    ((List.replicate n ([] : List RawPoint)).map Multiset.ofList).sum = 0 := by
  simp

/-- Sampling in any grid samples the buckets of the children. -/
lemma SampleGrid.sample_sampled (g : SampleGrid) (buckets : List (List RawPoint)) :
    Sampled buckets (g.sample (tagged buckets) buckets.length).1
      (g.sample (tagged buckets) buckets.length).2 := by
  have hlen : (tagged buckets).length = buckets.flatten.length := by
    rw [← map_snd_tagged, List.length_map]
  have hnone : ∀ r ∈ List.replicate buckets.length ([] : List RawPoint), r = [] :=
    fun r hr => List.eq_of_mem_replicate hr
  unfold sample
  split_ifs with hempty hcap
  · have h0 : buckets.flatten = [] := by
      rw [← map_snd_tagged, List.isEmpty_iff.mp hempty, List.map_nil]
    refine ⟨List.length_replicate, fun _ => ⟨rfl, hnone⟩, fun _ => ⟨h0.symm, hnone⟩, ?_, ?_⟩
    · rw [sum_replicate_nil, h0]
      rfl
    · intro hlt
      rw [h0] at hlt
      exact absurd hlt (by simp)
  · refine ⟨List.length_replicate, fun h0 => ⟨?_, hnone⟩, fun _ => ⟨map_snd_tagged _, hnone⟩,
      ?_, ?_⟩
    · exact (map_snd_tagged buckets).trans h0
    · rw [sum_replicate_nil, map_snd_tagged]
      exact add_zero _
    · intro hlt
      omega
  · set pts := (tagged buckets).mergeSort fun s t => decide (g.mortonKey s.2 ≤ g.mortonKey t.2)
      with hpts
    have hperm : pts.Perm (tagged buckets) := List.mergeSort_perm _ _
    have htags : ∀ t ∈ pts, t.1 < buckets.length := fun t ht =>
      mem_tagged_lt (hperm.mem_iff.mp ht)
    have hcontrib : ∀ i, share i pts ≠ 0 → (pts.any fun t => t.1 == i) = true := by
      intro i hi
      by_contra hany
      refine hi (share_eq_zero.mpr fun t ht he => hany ?_)
      exact List.any_eq_true.mpr ⟨t, ht, by simpa using he⟩
    have hloop := Partition.foldl_split g.gridIdx
      (s := ⟨Array.replicate ((gridCellsPerAxis * gridCellsPerAxis * gridCellsPerAxis).toNat / 64)
        0, [], List.replicate buckets.length []⟩) Split.nil htags
    rw [List.nil_append] at hloop
    obtain ⟨hsplit, hkept⟩ := protect_all
      (s := ((pts.foldl (Partition.step g.gridIdx) _).parentPts,
        (pts.foldl (Partition.step g.gridIdx) _).remaining)) hloop hcontrib le_rfl
    have hshare : ∀ i, share i pts = ↑(buckets.getD i []) := fun i => by
      rw [share_perm hperm, share_tagged]
    refine ⟨hsplit.length, fun h0 => ?_, fun hle => ?_, ?_, fun _ i hi => ⟨?_, fun hne => ?_⟩⟩
    · rw [h0] at hlen
      exact absurd (hlen.le.trans (Nat.zero_le _)) hcap
    · omega
    · have htotal := hsplit.total htags
      rwa [Multiset.coe_eq_coe.mpr (hperm.map Prod.snd), map_snd_tagged] at htotal
    · rw [← hshare i]
      exact hsplit.rem_le hi
    · apply hkept i hi
      rw [hshare i]
      simpa using hne

/-- `grid_sample` samples the buckets of the children. -/
theorem OctreeBuilder.gridSample_sampled (b : OctreeBuilder F) (parent : VoxelKey)
    (buckets : List (List RawPoint)) :
    Sampled buckets (b.gridSample parent (tagged buckets) buckets.length).1
      (b.gridSample parent (tagged buckets) buckets.length).2 :=
  (b.sampleGrid parent).sample_sampled buckets

end CopcConverter
