import CopcConverter.Chunking.Plan
import CopcConverter.Octree.FinishSubtree

/-!
# Voxel keys with 32-bit coordinates

The source keeps the coordinates of a voxel in `i32`.  A descent of more than 31 levels overflows
them: a release build wraps `2 * v + 1` around, and `parent` then halves a negative coordinate,
rounding towards zero.  Here are the operations on keys with this arithmetic.  A key stays a
`VoxelKey`, whose coordinates are now read as 32-bit patterns, so that the build over these keys
can be compared with the build over unbounded coordinates.

Where the coordinates of a voxel fit, as they do down to level 31, the operations are those on
unbounded coordinates.  Where they do not fit they are others: a leaf at level 32 in the upper half
of the cube has ancestors that none of its points lie in.
-/

namespace CopcConverter

open LevelTree

variable {F : Type} [FloatArith F]

/-- The deepest level whose voxel coordinates fit an `i32`. -/
def i32Levels : ℕ := 31

/-! ## Coordinates -/

/-- The pattern of a coordinate. -/
def bits (v : Int32) : ℕ := v.toUInt32.toNat

/-- The coordinate with a pattern. -/
def coordinate (n : ℕ) : Int32 := Int32.ofNat n

/-- Half of a coordinate, rounded towards zero. -/
def halve (n : ℕ) : ℕ := bits (coordinate n / 2)

/-- The arithmetic right shift of a coordinate. -/
def shiftRight32 (n shift : ℕ) : ℕ := bits (Int32.ofInt ((coordinate n).toInt >>> shift))

/-- The pattern wraps a number around. -/
lemma bits_coordinate (n : ℕ) : bits (coordinate n) = n % 2 ^ 32 := by
  unfold bits coordinate
  rw [Int32.toUInt32_ofNat', UInt32.toNat_ofNat']

lemma coordinate_double (n : ℕ) : coordinate n * 2 = coordinate (n * 2) := by
  unfold coordinate
  rw [Int32.ofNat_mul]
  rfl

lemma coordinate_double_add_one (n : ℕ) : coordinate n * 2 + 1 = coordinate (n * 2 + 1) := by
  unfold coordinate
  rw [Int32.ofNat_add, Int32.ofNat_mul]
  rfl

lemma toInt_coordinate {n : ℕ} (h : n < 2 ^ i32Levels) : (coordinate n).toInt = n :=
  Int32.toInt_ofNat_of_lt h

/-- The pattern of a coordinate that is not negative is the coordinate. -/
lemma bits_of_toInt {v : Int32} {n : ℕ} (h : v.toInt = n) : bits v = n := by
  have hv : v = coordinate n := by
    rw [← Int32.ofInt_toInt v, h]
    rfl
  have hlt := v.toInt_lt
  rw [hv, bits_coordinate]
  omega

lemma halve_of_lt {n : ℕ} (h : n < 2 ^ i32Levels) : halve n = n / 2 := by
  refine bits_of_toInt ?_
  rw [Int32.toInt_div_of_ne_right _ _ (by decide), toInt_coordinate h]
  rfl

lemma shiftRight32_of_lt {n : ℕ} (h : n < 2 ^ i32Levels) (shift : ℕ) :
    shiftRight32 n shift = n >>> shift := by
  have hle : n >>> shift ≤ n := Nat.shiftRight_le n shift
  refine bits_of_toInt ?_
  rw [toInt_coordinate h]
  exact Int32.toInt_ofNat_of_lt (hle.trans_lt h)

/-! ## The operations on keys -/

/-- Parent key (none for the root level). -/
def VoxelKey.parent32 (k : VoxelKey) : Option VoxelKey :=
  if k.level = 0 then none
  else some { level := k.level - 1, x := halve k.x, y := halve k.y, z := halve k.z }

/-- One step up along `parent32`; a root stays where it is. -/
def VoxelKey.up32 (k : VoxelKey) : VoxelKey := k.parent32.getD k

/-- The ancestor of a key at a shallower level, along the parents. -/
def VoxelKey.ancestorAt32 (k : VoxelKey) (l : ℕ) : VoxelKey := VoxelKey.up32^[k.level - l] k

/-- `v` is an ancestor of `k` other than `k`, along the parents. -/
def IsProperAncestor32 (v k : VoxelKey) : Prop := v.level < k.level ∧ k.ancestorAt32 v.level = v

lemma VoxelKey.level_of_parent32 {k q : VoxelKey} (h : k.parent32 = some q) :
    k.level = q.level + 1 := by
  unfold VoxelKey.parent32 at h
  split_ifs at h with h0
  · obtain rfl := Option.some.inj h
    change k.level = k.level - 1 + 1
    omega

/-- One axis of a descent: the voxel coordinate so far and the centre of the current voxel. -/
structure AxisDescent32 (F : Type) where
  v : Int32
  o : F

/-- One level down along one axis. -/
def AxisDescent32.step (x half : F) (a : AxisDescent32 F) : AxisDescent32 F :=
  if FloatArith.ge x a.o then ⟨a.v * 2 + 1, a.o + half⟩ else ⟨a.v * 2, a.o - half⟩

/-- The loop variables of `point_to_key`. -/
structure Descent32 (F : Type) where
  half : F
  ax : AxisDescent32 F
  ay : AxisDescent32 F
  az : AxisDescent32 F

/-- The body of the loop of `point_to_key`. -/
def Descent32.step (x y z : F) (s : Descent32 F) : Descent32 F :=
  let half := s.half / FloatArith.lit 2
  ⟨half, s.ax.step x half, s.ay.step y half, s.az.step z half⟩

/-- Assign a point to the voxel at the given tree depth. -/
def pointToKey32 (x y z cx cy cz halfsize : F) (depth : ℕ) : VoxelKey :=
  let s := (Descent32.step x y z)^[depth] ⟨halfsize, ⟨0, cx⟩, ⟨0, cy⟩, ⟨0, cz⟩⟩
  { level := depth, x := bits s.ax.v, y := bits s.ay.v, z := bits s.az.v }

namespace OctreeBuilder

variable (b : OctreeBuilder F)

/-- The voxel of a stored point at a depth. -/
def keyOf32 (p : RawPoint) (depth : ℕ) : VoxelKey :=
  pointToKey32 (b.worldX p) (b.worldY p) (b.worldZ p) b.cx b.cy b.cz b.halfsize depth

/-- Classify one point into its leaf voxel and push it there. -/
def pushIntoLeaf32 (leaves : Nodes) (raw : RawPoint) (leafDepth : ℕ) : Nodes :=
  leaves.push (b.keyOf32 raw leafDepth) raw

/-- The sampling grid of a voxel. -/
def sampleGrid32 (parent : VoxelKey) : SampleGrid :=
  let voxelSizeWorld := FloatArith.lit 2 * b.halfsize / FloatArith.lit (2 ^ parent.level)
  let origin (c offset scale : F) (v : ℕ) : ℤ :=
    FloatArith.toI64 (FloatArith.round
      ((c - b.halfsize + FloatArith.lit (coordinate v).toInt * voxelSizeWorld - offset) / scale))
  { originX := origin b.cx b.offsetX b.scaleX parent.x
    originY := origin b.cy b.offsetY b.scaleY parent.y
    originZ := origin b.cz b.offsetZ b.scaleZ parent.z
    intSize := FloatArith.toI64 (FloatArith.max
      (FloatArith.round
        (voxelSizeWorld / FloatArith.min (FloatArith.min b.scaleX b.scaleY) b.scaleZ))
      (FloatArith.lit gridCellsPerAxis)) }

/-- Grid-based spatial sampling for one parent node, in the grid of its voxel. -/
def gridSample32 (parent : VoxelKey) (pts : List (ℕ × RawPoint)) (nChildren : ℕ) :
    List RawPoint × List (List RawPoint) :=
  (b.sampleGrid32 parent).sample pts nChildren

end OctreeBuilder

/-! ## Where no coordinate overflows -/

/-- A voxel of the octree whose coordinates fit an `i32`. -/
structure VoxelKey.Small (k : VoxelKey) : Prop where
  inOctree : k.InOctree
  x : k.x < 2 ^ i32Levels
  y : k.y < 2 ^ i32Levels
  z : k.z < 2 ^ i32Levels

namespace VoxelKey.Small

variable {k : VoxelKey}

/-- Voxels down to level 31 fit. -/
lemma of_level_le (hk : k.InOctree) (hl : k.level ≤ i32Levels) : k.Small := by
  obtain ⟨hx, hy, hz⟩ := hk
  have hpow : 2 ^ k.level ≤ 2 ^ i32Levels := Nat.pow_le_pow_right (by norm_num) hl
  exact ⟨⟨hx, hy, hz⟩, hx.trans_le hpow, hy.trans_le hpow, hz.trans_le hpow⟩

lemma parent32_eq (h : k.Small) : k.parent32 = k.parent := by
  unfold VoxelKey.parent32 VoxelKey.parent
  rw [halve_of_lt h.x, halve_of_lt h.y, halve_of_lt h.z]

/-- The parent of a key of the octree is one. -/
lemma parent (h : k.Small) {q : VoxelKey} (hq : k.parent = some q) : q.Small := by
  have hl := VoxelKey.level_of_parent hq
  rw [VoxelKey.parent_of_level_ne_zero (by omega)] at hq
  obtain rfl := Option.some.inj hq
  obtain ⟨⟨hx, hy, hz⟩, hx', hy', hz'⟩ := h
  have hl : k.level = k.level - 1 + 1 := hl
  rw [hl, pow_succ] at hx hy hz
  refine ⟨⟨?_, ?_, ?_⟩, ?_, ?_, ?_⟩
  all_goals
    simp only
    omega

lemma up32_eq (h : k.Small) : k.up32 = LevelTree.up k := by
  change k.parent32.getD k = k.parent.getD k
  rw [h.parent32_eq]

lemma up (h : k.Small) : (LevelTree.up k).Small := by
  by_cases h0 : k.level = 0
  · have hup : LevelTree.up k = k := by
      change k.parent.getD k = k
      rw [VoxelKey.parent_eq_none.mpr h0, Option.getD_none]
    rwa [hup]
  · have hp := VoxelKey.parent_of_level_ne_zero h0
    rw [VoxelKey.up_eq_of_parent hp]
    exact h.parent hp

/-- The parents of the source lead to the ancestors of the octree. -/
lemma iterate_up32_eq (h : k.Small) (n : ℕ) :
    VoxelKey.up32^[n] k = LevelTree.up^[n] k ∧ (LevelTree.up^[n] k).Small := by
  induction n with
  | zero => exact ⟨rfl, h⟩
  | succ n ih =>
    obtain ⟨heq, hsmall⟩ := ih
    rw [Function.iterate_succ_apply', Function.iterate_succ_apply', heq]
    exact ⟨hsmall.up32_eq, hsmall.up⟩

lemma ancestorAt32_eq (h : k.Small) (l : ℕ) : k.ancestorAt32 l = ancestorAt k l :=
  (h.iterate_up32_eq (k.level - l)).1

lemma isProperAncestor32_iff (h : k.Small) {v : VoxelKey} :
    IsProperAncestor32 v k ↔ IsProperAncestor v k := by
  unfold IsProperAncestor32
  rw [h.ancestorAt32_eq]
  rfl

end VoxelKey.Small

/-! ## The descent -/

/-- The coordinate of a wrapped descent is the one of an unbounded descent, wrapped around. -/
structure AxisDescent32.Wraps (a : AxisDescent32 F) (u : AxisDescent F) : Prop where
  v : a.v = coordinate u.v
  o : a.o = u.o

lemma AxisDescent32.Wraps.step {a : AxisDescent32 F} {u : AxisDescent F} (h : a.Wraps u)
    (x half : F) : (a.step x half).Wraps (u.step x half) := by
  obtain ⟨hv, ho⟩ := h
  unfold AxisDescent32.step AxisDescent.step
  rw [hv, ho]
  split_ifs
  · exact ⟨coordinate_double_add_one u.v, rfl⟩
  · exact ⟨coordinate_double u.v, rfl⟩

/-- The loop variables of both descents. -/
structure Descent32.Wraps (s : Descent32 F) (u : Descent F) : Prop where
  half : s.half = u.half
  ax : s.ax.Wraps u.ax
  ay : s.ay.Wraps u.ay
  az : s.az.Wraps u.az

lemma Descent32.Wraps.step {s : Descent32 F} {u : Descent F} (h : s.Wraps u) (x y z : F) :
    (s.step x y z).Wraps (u.step x y z) := by
  obtain ⟨hh, hx, hy, hz⟩ := h
  unfold Descent32.step Descent.step
  rw [hh]
  exact ⟨rfl, hx.step _ _, hy.step _ _, hz.step _ _⟩

lemma Descent32.Wraps.iterate {s : Descent32 F} {u : Descent F} (h : s.Wraps u) (x y z : F)
    (n : ℕ) : ((Descent32.step x y z)^[n] s).Wraps ((Descent.step x y z)^[n] u) := by
  induction n with
  | zero => exact h
  | succ n ih =>
    rw [Function.iterate_succ_apply', Function.iterate_succ_apply']
    exact ih.step x y z

/-- **What `point_to_key` computes**: the coordinates of the voxel, wrapped around. -/
theorem pointToKey32_eq (x y z cx cy cz halfsize : F) (depth : ℕ) :
    pointToKey32 x y z cx cy cz halfsize depth =
      let k := pointToKey x y z cx cy cz halfsize depth
      ⟨depth, k.x % 2 ^ 32, k.y % 2 ^ 32, k.z % 2 ^ 32⟩ := by
  have hstart : Descent32.Wraps (F := F) ⟨halfsize, ⟨0, cx⟩, ⟨0, cy⟩, ⟨0, cz⟩⟩
      ⟨halfsize, ⟨0, cx⟩, ⟨0, cy⟩, ⟨0, cz⟩⟩ := ⟨rfl, ⟨rfl, rfl⟩, ⟨rfl, rfl⟩, ⟨rfl, rfl⟩⟩
  obtain ⟨-, hx, hy, hz⟩ := hstart.iterate x y z depth
  unfold pointToKey32 pointToKey
  simp only [hx.v, hy.v, hz.v, bits_coordinate]

namespace OctreeBuilder

variable (b : OctreeBuilder F)

/-- The voxels of a point down to level 31 fit. -/
lemma small_keyOf (p : RawPoint) {d : ℕ} (h : d ≤ i32Levels) : (b.keyOf p d).Small :=
  .of_level_le (pointToKey_lt ..) h

lemma keyOf32_of_small {p : RawPoint} {d : ℕ} (h : (b.keyOf p d).Small) :
    b.keyOf32 p d = b.keyOf p d := by
  have hpow : (2 : ℕ) ^ i32Levels ≤ 2 ^ 32 := by decide
  have hwrap := pointToKey32_eq (b.worldX p) (b.worldY p) (b.worldZ p) b.cx b.cy b.cz b.halfsize d
  change b.keyOf32 p d = ⟨d, (b.keyOf p d).x % 2 ^ 32, (b.keyOf p d).y % 2 ^ 32,
    (b.keyOf p d).z % 2 ^ 32⟩ at hwrap
  rw [hwrap, Nat.mod_eq_of_lt (h.x.trans_le hpow), Nat.mod_eq_of_lt (h.y.trans_le hpow),
    Nat.mod_eq_of_lt (h.z.trans_le hpow)]
  rfl

lemma keyOf32_eq (p : RawPoint) {d : ℕ} (h : d ≤ i32Levels) : b.keyOf32 p d = b.keyOf p d :=
  b.keyOf32_of_small (b.small_keyOf p h)

/-- Down to level 31 the leaf of a point is below every voxel that contains the point. -/
lemma ancestorAt32_keyOf32 (p : RawPoint) {k : VoxelKey} (hk : b.keyOf p k.level = k) {d : ℕ}
    (hle : k.level ≤ d) (hd : d ≤ i32Levels) : (b.keyOf32 p d).ancestorAt32 k.level = k := by
  have hpath := b.addressing.isAncestor_addr p hle
  rw [OctreeBuilder.addressing_addr, OctreeBuilder.addressing_addr, hk] at hpath
  rw [b.keyOf32_eq p hd, (b.small_keyOf p hd).ancestorAt32_eq]
  exact hpath.2

lemma sampleGrid32_eq {q : VoxelKey} (h : q.Small) : b.sampleGrid32 q = b.sampleGrid q := by
  unfold sampleGrid32 sampleGrid
  simp only [toInt_coordinate h.x, toInt_coordinate h.y, toInt_coordinate h.z, Int.cast_natCast]

lemma gridSample32_eq {q : VoxelKey} (h : q.Small) (pts : List (ℕ × RawPoint)) (n : ℕ) :
    b.gridSample32 q pts n = b.gridSample q pts n := by
  unfold gridSample32 gridSample
  rw [b.sampleGrid32_eq h]

end OctreeBuilder

end CopcConverter
