import CopcConverter.Octree.RawPoint
import CopcConverter.Octree.VoxelKey

/-!
# From points to voxels

The octree descent `point_to_key`: from the centre and the half-size of the cube, level by level,
into the half of the voxel that holds the coordinate, on each axis.  It is defined over an arbitrary
floating-point arithmetic, of which no law is assumed: nothing that is proved about the octree
depends on how the coordinates are rounded, only on every stage using the same descent on the same
world coordinates.

What does hold whatever the arithmetic: the voxel of a point at a level is the parent of its voxel
one level below, since the descent to the deeper level passes through it.  So the voxels of a point
form one path from the root, which makes the points of an octree the leaves of a tree with levels,
and the coordinates at a level are below two to its power.
-/

namespace CopcConverter

open LevelTree

/-- The `f64` operations of the source.  No law is assumed of them. -/
class FloatArith (F : Type) extends Add F, Sub F, Mul F, Div F where
  /-- The float of a literal or of a converted integer. -/
  lit : ℚ → F
  ge : F → F → Bool
  gt : F → F → Bool
  max : F → F → F
  min : F → F → F
  round : F → F
  /-- The saturating casts `as i64` and `as u64`. -/
  toI64 : F → ℤ
  toU64 : F → ℕ

/-- Exact arithmetic, rounding halves away from zero and saturating the casts. -/
instance : FloatArith ℚ where
  lit := id
  ge a b := decide (b ≤ a)
  gt a b := decide (b < a)
  max := Max.max
  min := Min.min
  round a := if 0 ≤ a then ⌊a + 1 / 2⌋ else ⌈a - 1 / 2⌉
  toI64 a := Max.max (-2 ^ 63) (Min.min (2 ^ 63 - 1) (if 0 ≤ a then ⌊a⌋ else ⌈a⌉))
  toU64 a := Min.min (2 ^ 64 - 1) ⌊a⌋₊

variable {F : Type} [FloatArith F]

/-! ## The descent -/

/-- One axis of a descent: the voxel coordinate so far and the centre of the current voxel. -/
structure AxisDescent (F : Type) where
  v : ℕ
  o : F

/-- One level down along one axis, into the half of the voxel that holds the coordinate. -/
def AxisDescent.step (x half : F) (a : AxisDescent F) : AxisDescent F :=
  if FloatArith.ge x a.o then ⟨a.v * 2 + 1, a.o + half⟩ else ⟨a.v * 2, a.o - half⟩

/-- The loop variables of `point_to_key`. -/
structure Descent (F : Type) where
  half : F
  ax : AxisDescent F
  ay : AxisDescent F
  az : AxisDescent F

/-- The body of the loop of `point_to_key`. -/
def Descent.step (x y z : F) (s : Descent F) : Descent F :=
  let half := s.half / FloatArith.lit 2
  ⟨half, s.ax.step x half, s.ay.step y half, s.az.step z half⟩

/-- Assign a point to the voxel at the given tree depth. -/
def pointToKey (x y z cx cy cz halfsize : F) (depth : ℕ) : VoxelKey :=
  let s := (Descent.step x y z)^[depth] ⟨halfsize, ⟨0, cx⟩, ⟨0, cy⟩, ⟨0, cz⟩⟩
  { level := depth, x := s.ax.v, y := s.ay.v, z := s.az.v }

lemma AxisDescent.step_v (x half : F) (a : AxisDescent F) : (a.step x half).v / 2 = a.v := by
  unfold step
  split_ifs
  · change (a.v * 2 + 1) / 2 = a.v
    omega
  · change a.v * 2 / 2 = a.v
    omega

@[simp] lemma pointToKey_level (x y z cx cy cz halfsize : F) (depth : ℕ) :
    (pointToKey x y z cx cy cz halfsize depth).level = depth := rfl

/-- Descending one level further refines the key. -/
lemma pointToKey_parent (x y z cx cy cz halfsize : F) (depth : ℕ) :
    (pointToKey x y z cx cy cz halfsize (depth + 1)).parent =
      some (pointToKey x y z cx cy cz halfsize depth) := by
  rw [VoxelKey.parent_of_level_ne_zero (by rw [pointToKey_level]; omega)]
  unfold pointToKey
  simp only [Function.iterate_succ_apply', Descent.step, AxisDescent.step_v, Nat.add_sub_cancel]

/-- The coordinates of a key stay within its level. -/
lemma pointToKey_lt (x y z cx cy cz halfsize : F) (depth : ℕ) :
    (pointToKey x y z cx cy cz halfsize depth).x < 2 ^ depth ∧
      (pointToKey x y z cx cy cz halfsize depth).y < 2 ^ depth ∧
        (pointToKey x y z cx cy cz halfsize depth).z < 2 ^ depth := by
  induction depth with
  | zero => simp [pointToKey]
  | succ n ih =>
    have hp := pointToKey_parent x y z cx cy cz halfsize n
    rw [VoxelKey.parent_of_level_ne_zero (by rw [pointToKey_level]; omega)] at hp
    rw [← Option.some.inj hp] at ih
    simp only at ih
    rw [pow_succ]
    omega

/-! ## The octree builder -/

/-- The geometry and record layout that every stage of the build shares. -/
structure OctreeBuilder (F : Type) where
  /-- Octree root center. -/
  cx : F
  cy : F
  cz : F
  /-- Half-size of the root voxel. -/
  halfsize : F
  scaleX : F
  scaleY : F
  scaleZ : F
  offsetX : F
  offsetY : F
  offsetZ : F
  /-- Trailing extra-byte width of every point record. -/
  numExtraBytes : UInt16

namespace OctreeBuilder

variable (b : OctreeBuilder F)

/-- World coordinates of a stored point. -/
def worldX (p : RawPoint) : F := FloatArith.lit p.x.toInt * b.scaleX + b.offsetX

@[inherit_doc worldX] def worldY (p : RawPoint) : F :=
  FloatArith.lit p.y.toInt * b.scaleY + b.offsetY

@[inherit_doc worldX] def worldZ (p : RawPoint) : F :=
  FloatArith.lit p.z.toInt * b.scaleZ + b.offsetZ

/-- The voxel of a stored point at a depth, as every stage of the build computes it. -/
def keyOf (p : RawPoint) (depth : ℕ) : VoxelKey :=
  pointToKey (b.worldX p) (b.worldY p) (b.worldZ p) b.cx b.cy b.cz b.halfsize depth

/-- The voxels of a point form one path from the root. -/
def addressing : Addressing RawPoint VoxelKey where
  addr := b.keyOf
  level_addr _ _ := rfl
  up_addr _ _ := VoxelKey.up_eq_of_parent (pointToKey_parent ..)

@[simp] lemma addressing_addr (p : RawPoint) (l : ℕ) : b.addressing.addr p l = b.keyOf p l := rfl

/-- The descent of every point starts at the global root. -/
@[simp] lemma keyOf_zero (p : RawPoint) : b.keyOf p 0 = VoxelKey.root := rfl

end OctreeBuilder

end CopcConverter
