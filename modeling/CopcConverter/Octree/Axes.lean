import CopcConverter.Octree.Geometry

/-!
# The three axes

The source writes most of its geometry three times, once for every axis, with the names of the
fields as the only difference.  Here the fields of a stored point, of a voxel key, and of the
builder can also be read by an `Axis`, so that what holds of every axis is said once and proved
once: the world coordinate of a stored point, the side of a voxel at a level, and the lower corner
of a voxel.

The accessors are definitions by cases and reduce when the axis is known, so a statement about an
axis and the statement about a named field are the same.  Nothing is proved here; the modules about
containment, about the header bounds and about the grid of a node use the accessors.
-/

namespace CopcConverter

/-- The three axes. -/
inductive Axis where
  | x
  | y
  | z
  deriving DecidableEq

/-- Stored coordinate along one axis. -/
def RawPoint.coord (p : RawPoint) : Axis → Int32
  | .x => p.x
  | .y => p.y
  | .z => p.z

/-- Voxel coordinate along one axis. -/
def VoxelKey.coord (k : VoxelKey) : Axis → ℕ
  | .x => k.x
  | .y => k.y
  | .z => k.z

namespace OctreeBuilder

variable {F : Type} [FloatArith F] (b : OctreeBuilder F)

/-- Octree root center along one axis. -/
def center : Axis → F
  | .x => b.cx
  | .y => b.cy
  | .z => b.cz

/-- Output scale along one axis. -/
def scale : Axis → F
  | .x => b.scaleX
  | .y => b.scaleY
  | .z => b.scaleZ

/-- Output offset along one axis. -/
def offset : Axis → F
  | .x => b.offsetX
  | .y => b.offsetY
  | .z => b.offsetZ

/-- World coordinate of a stored point along one axis. -/
def world (a : Axis) (p : RawPoint) : F :=
  FloatArith.lit (p.coord a).toInt * b.scale a + b.offset a

example (p : RawPoint) : b.world .x p = b.worldX p ∧ b.world .y p = b.worldY p ∧
    b.world .z p = b.worldZ p := ⟨rfl, rfl, rfl⟩

end OctreeBuilder

/-! ## Voxels in exact arithmetic -/

namespace OctreeBuilder

variable (b : OctreeBuilder ℚ) (parent : VoxelKey)

/-- The side of a voxel. -/
def voxelSize : ℚ := 2 * b.halfsize / 2 ^ parent.level

/-- The lower corner of a voxel along one axis. -/
def lowerCorner (a : Axis) : ℚ :=
  b.center a - b.halfsize + parent.coord a * b.voxelSize parent

end OctreeBuilder

end CopcConverter
