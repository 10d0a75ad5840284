import CopcConverter.Octree.Axes
import CopcConverter.Octree.ExactArith
import CopcConverter.Octree.GridSample

/-!
# The resolution of the sampling grid

In exact arithmetic.  The grid in which a node is thinned is meant to have 128 cells along every
axis of the voxel, so that points that are far apart (here: by the size of four cells) fall into
different cells.  But the cell of a point comes from one integer extent for all axes, the one along
the axis with the smallest scale.  Along an axis with a larger scale the voxel has fewer integer
units, so that it is covered not by 128 cells but by proportionally fewer.

So the grid resolves the voxels of a given side exactly when every axis is fine enough: when the
side in units of the smallest scale is at most 128 times the distance, in units of the axis, from
which on points are far apart.  With equal scales this always holds; with one scale eight times the
others it does not.
-/

namespace CopcConverter

/-! ## Cells along the axes -/

/-- The origin of the sampling grid along one axis. -/
def SampleGrid.origin (g : SampleGrid) : Axis → ℤ
  | .x => g.originX
  | .y => g.originY
  | .z => g.originZ

/-- The cell of a point along one axis. -/
def SampleGrid.cellAlong (g : SampleGrid) (a : Axis) (p : RawPoint) : ℤ :=
  gridCellAxis ((p.coord a).toInt - g.origin a) g.intSize

/-- The cell of a point is determined by its cells along the axes. -/
lemma SampleGrid.gridIdx_eq_iff (g : SampleGrid) (p q : RawPoint) :
    g.gridIdx p = g.gridIdx q ↔ ∀ a, g.cellAlong a p = g.cellAlong a q := by
  have hidx : ∀ r, g.gridIdx r = (g.cellAlong .x r + g.cellAlong .y r * 128 +
      g.cellAlong .z r * 128 * 128).toNat := fun r => rfl
  have hmem : ∀ a r, 0 ≤ g.cellAlong a r ∧ g.cellAlong a r ≤ 127 := fun a r =>
    gridCellAxis_mem _ _
  rw [hidx, hidx]
  constructor
  · intro h a
    have hxp := hmem .x p
    have hyp := hmem .y p
    have hzp := hmem .z p
    have hxq := hmem .x q
    have hyq := hmem .y q
    have hzq := hmem .z q
    cases a <;> omega
  · intro h
    rw [h .x, h .y, h .z]

/-! ## Voxels in exact arithmetic -/

namespace OctreeBuilder

variable (b : OctreeBuilder ℚ) (parent : VoxelKey)

/-- A stored point lies in the voxel. -/
def InVoxel (p : RawPoint) : Prop :=
  ∀ a, b.lowerCorner parent a ≤ b.world a p ∧
    b.world a p ≤ b.lowerCorner parent a + b.voxelSize parent

/-- Two stored points are apart by the size of four cells on some axis. -/
def FarApart (p q : RawPoint) : Prop :=
  ∃ a, 4 * b.voxelSize parent / 128 ≤ |b.world a p - b.world a q|

/-- Points of the voxel that are far apart fall into different cells. -/
def Resolves : Prop :=
  ∀ p q, b.InVoxel parent p → b.InVoxel parent q → b.FarApart parent p q →
    (b.sampleGrid parent).gridIdx p ≠ (b.sampleGrid parent).gridIdx q

/-- The smallest of the three scales. -/
def minScale (scale : Axis → ℚ) : ℚ := min (min (scale .x) (scale .y)) (scale .z)

lemma minScale_le (scale : Axis → ℚ) (a : Axis) : minScale scale ≤ scale a := by
  cases a
  · exact (min_le_left _ _).trans (min_le_left _ _)
  · exact (min_le_left _ _).trans (min_le_right _ _)
  · exact min_le_right _ _

lemma minScale_pos {scale : Axis → ℚ} (h : ∀ a, 0 < scale a) : 0 < minScale scale :=
  lt_min (lt_min (h .x) (h .y)) (h .z)

/-- The origin of the sampling grid is the rounded lower corner in integer units. -/
lemma origin_sampleGrid (a : Axis) : (b.sampleGrid parent).origin a =
    FloatArith.toI64 ((roundHalf ((b.lowerCorner parent a - b.offset a) / b.scale a) : ℤ) : ℚ) := by
  rw [← round_eq]
  cases a <;> rfl

/-- The extent of the sampling grid is the rounded side in units of the smallest scale. -/
lemma intSize_sampleGrid (hspan : 128 ≤ b.voxelSize parent / minScale b.scale) :
    (b.sampleGrid parent).intSize =
      FloatArith.toI64 ((roundHalf (b.voxelSize parent / minScale b.scale) : ℤ) : ℚ) := by
  have hround : (128 : ℚ) ≤ FloatArith.round (b.voxelSize parent / minScale b.scale) := by
    rw [round_eq]
    by_contra hlt
    have hlt' : roundHalf (b.voxelSize parent / minScale b.scale) ≤ 127 := by
      have : (roundHalf (b.voxelSize parent / minScale b.scale) : ℚ) < 128 := not_le.mp hlt
      have : roundHalf (b.voxelSize parent / minScale b.scale) < 128 := by exact_mod_cast this
      omega
    rw [roundHalf_le_iff (by linarith)] at hlt'
    norm_num at hlt'
    linarith
  have hmax : max (FloatArith.round (b.voxelSize parent / minScale b.scale)) (128 : ℚ) =
      FloatArith.round (b.voxelSize parent / minScale b.scale) := max_eq_left hround
  rw [← round_eq, ← hmax]
  rfl

end OctreeBuilder

/-! ## One axis -/

/-- Along one axis, in integer units: two coordinates of a voxel of `r` units that are at least a
32nd of it apart are in different cells when the distance is at least one cell. -/
lemma gridCellAxis_lt {u r : ℚ} {x y intSize : ℤ} (hr : 128 ≤ r) (hx : u ≤ x) (hy : (y : ℚ) ≤ u + r)
    (hfar : r / 32 ≤ y - x) (hcell : intSize ≤ 128 * (y - x)) (hsize : r - 1 / 2 ≤ intSize) :
    gridCellAxis (x - roundHalf u) intSize < gridCellAxis (y - roundHalf u) intSize := by
  obtain ⟨hlo, hhi⟩ := abs_le.mp (abs_roundHalf_sub_le u)
  set o := roundHalf u
  have hnonneg : 0 ≤ x - o := by
    have hq : (-1 : ℚ) < ((x - o : ℤ) : ℚ) := by
      push_cast
      linarith
    have hz : (-1 : ℤ) < x - o := by exact_mod_cast hq
    omega
  have hpos : 0 < intSize := by
    have hq : (0 : ℚ) < (intSize : ℚ) := by linarith
    exact_mod_cast hq
  -- the lower point is not in the last cell
  have hlast : (x - o) * 128 < 127 * intSize := by
    have hq : (((x - o) * 128 : ℤ) : ℚ) < ((127 * intSize : ℤ) : ℚ) := by
      push_cast
      linarith
    exact_mod_cast hq
  have hlast' : (x - o) * 128 / intSize < 127 := Int.ediv_lt_of_lt_mul hpos hlast
  have hstep : (x - o) * 128 / intSize + 1 ≤ (y - o) * 128 / intSize := by
    rw [← Int.add_mul_ediv_right _ 1 hpos.ne']
    apply Int.ediv_le_ediv hpos
    linarith
  have hfirst : 0 ≤ (x - o) * 128 / intSize := Int.ediv_nonneg (by omega) hpos.le
  have hmaxx : max (x - o) 0 = x - o := max_eq_left hnonneg
  have hmaxy : max (y - o) 0 = y - o := max_eq_left (by
    have : (0 : ℤ) < y - x := by omega
    omega)
  unfold gridCellAxis gridCellsPerAxis
  rw [hmaxx, hmaxy]
  omega

/-! ## When the grid resolves the voxel -/

namespace OctreeBuilder

/-- The smallest distance in integer units that makes points far apart along an axis. -/
def farUnits (scale : Axis → ℚ) (side : ℚ) (a : Axis) : ℤ := ⌈side / scale a / 32⌉

/-- Along the axis, points that are far apart are at least one cell apart: the side of the voxel in
units of the smallest scale is at most 128 times the distance of far points in units of the axis.
Otherwise there are no such points, since no two stored coordinates are that far apart. -/
def FineEnough (scale : Axis → ℚ) (side : ℚ) (a : Axis) : Prop :=
  2 ^ 32 ≤ farUnits scale side a ∨ side / minScale scale < 128 * farUnits scale side a + 1 / 2

/-- The lower corner of a voxel in integer units. -/
def cornerUnits (b : OctreeBuilder ℚ) (parent : VoxelKey) (a : Axis) : ℚ :=
  (b.lowerCorner parent a - b.offset a) / b.scale a

variable {b : OctreeBuilder ℚ} {parent : VoxelKey}

/-- A point of the voxel in integer units. -/
lemma InVoxel.units {p : RawPoint} (hp : b.InVoxel parent p) {a : Axis} (hs : 0 < b.scale a) :
    cornerUnits b parent a ≤ (p.coord a).toInt ∧
      ((p.coord a).toInt : ℚ) ≤ cornerUnits b parent a + b.voxelSize parent / b.scale a := by
  have hworld : b.world a p = (p.coord a).toInt * b.scale a + b.offset a := rfl
  obtain ⟨hlo, hhi⟩ := hp a
  rw [hworld] at hlo hhi
  constructor
  · rw [cornerUnits, div_le_iff₀ hs]
    linarith
  · rw [cornerUnits, ← add_div, le_div_iff₀ hs]
    linarith

/-- Points that are far apart in integer units. -/
lemma farUnits_le {p q : RawPoint} {a : Axis} (hs : 0 < b.scale a)
    (hfar : 4 * b.voxelSize parent / 128 ≤ b.world a q - b.world a p) :
    farUnits b.scale (b.voxelSize parent) a ≤ (q.coord a).toInt - (p.coord a).toInt := by
  have hworld : ∀ t, b.world a t = (t.coord a).toInt * b.scale a + b.offset a := fun t => rfl
  rw [hworld, hworld] at hfar
  rw [farUnits, Int.ceil_le, div_div, div_le_iff₀ (by positivity)]
  push_cast
  linarith

/-- The extent of the grid does not saturate when it is at most a few billion units. -/
lemma intSize_eq_roundHalf (hspan : 128 ≤ b.voxelSize parent / minScale b.scale) {n : ℤ}
    (hn : n < 2 ^ 60) (hle : b.voxelSize parent / minScale b.scale < n + 1 / 2) :
    (b.sampleGrid parent).intSize = roundHalf (b.voxelSize parent / minScale b.scale) ∧
      (b.sampleGrid parent).intSize ≤ n := by
  have hround : roundHalf (b.voxelSize parent / minScale b.scale) ≤ n :=
    (roundHalf_le_iff (by linarith) n).mpr hle
  obtain ⟨hlo, -⟩ := abs_le.mp (abs_roundHalf_sub_le (b.voxelSize parent / minScale b.scale))
  have hpos : (0 : ℚ) < roundHalf (b.voxelSize parent / minScale b.scale) := by linarith
  have hpos' : 0 < roundHalf (b.voxelSize parent / minScale b.scale) := by exact_mod_cast hpos
  rw [intSize_sampleGrid b parent hspan, toI64_of_mem (by omega) (by omega)]
  exact ⟨rfl, hround⟩

/-- The origin of the grid does not saturate when a stored coordinate is not far above it. -/
lemma origin_eq_roundHalf {a : Axis} {x n : ℤ} (hn : n < 2 ^ 60) (hx : |x| < 2 ^ 60)
    (hlo : cornerUnits b parent a ≤ x) (hhi : (x : ℚ) ≤ cornerUnits b parent a + n) :
    (b.sampleGrid parent).origin a = roundHalf (cornerUnits b parent a) := by
  obtain ⟨hrlo, hrhi⟩ := abs_le.mp (abs_roundHalf_sub_le (cornerUnits b parent a))
  obtain ⟨hxlo, hxhi⟩ := abs_lt.mp hx
  have hlow : ((x - n - 1 : ℤ) : ℚ) ≤ roundHalf (cornerUnits b parent a) := by
    push_cast
    linarith
  have hhigh : (roundHalf (cornerUnits b parent a) : ℚ) ≤ ((x + 1 : ℤ) : ℚ) := by
    push_cast
    linarith
  have hlow' : x - n - 1 ≤ roundHalf (cornerUnits b parent a) := by exact_mod_cast hlow
  have hhigh' : roundHalf (cornerUnits b parent a) ≤ x + 1 := by exact_mod_cast hhigh
  rw [origin_sampleGrid]
  exact toI64_of_mem (by rw [← cornerUnits]; omega) (by rw [← cornerUnits]; omega)

/-- Two points of a voxel that are far apart along a fine enough axis are in different cells. -/
lemma cellAlong_lt (hscale : ∀ a, 0 < b.scale a)
    (hspan : ∀ a, 128 * b.scale a ≤ b.voxelSize parent) {a : Axis} {p q : RawPoint}
    (hp : b.InVoxel parent p) (hq : b.InVoxel parent q)
    (hfar : 4 * b.voxelSize parent / 128 ≤ b.world a q - b.world a p)
    (hfine : FineEnough b.scale (b.voxelSize parent) a) :
    (b.sampleGrid parent).cellAlong a p < (b.sampleGrid parent).cellAlong a q := by
  have hs := hscale a
  obtain ⟨hplo, hphi⟩ := hp.units hs
  obtain ⟨hqlo, hqhi⟩ := hq.units hs
  have hd := farUnits_le hs hfar
  have hspanUnits : 128 ≤ b.voxelSize parent / b.scale a := by
    rw [le_div_iff₀ hs]
    exact hspan a
  have hmin : b.voxelSize parent / b.scale a ≤ b.voxelSize parent / minScale b.scale := by
    refine div_le_div_of_nonneg_left ?_ (minScale_pos hscale) (minScale_le _ a)
    have := hspan a
    linarith
  have hceil : b.voxelSize parent / b.scale a / 32 ≤ farUnits b.scale (b.voxelSize parent) a :=
    Int.le_ceil _
  set d := farUnits b.scale (b.voxelSize parent) a
  have hpmem := And.intro (p.coord a).le_toInt (p.coord a).toInt_lt
  have hqmem := And.intro (q.coord a).le_toInt (q.coord a).toInt_lt
  set x := (p.coord a).toInt
  set y := (q.coord a).toInt
  have hdq : (d : ℚ) ≤ (y : ℚ) - x := by exact_mod_cast hd
  -- stored coordinates are less than 2 ^ 32 apart, so the cells of the axis are what counts
  have hcell : b.voxelSize parent / minScale b.scale < (128 * d : ℤ) + 1 / 2 := by
    push_cast
    rcases hfine with h | h
    · exact absurd h (by omega)
    · exact h
  obtain ⟨hsize, hextent⟩ := intSize_eq_roundHalf (hspanUnits.trans hmin) (by omega) hcell
  have horigin : (b.sampleGrid parent).origin a = roundHalf (cornerUnits b parent a) := by
    have hn : (x : ℚ) ≤ cornerUnits b parent a + (32 * d : ℤ) := by
      push_cast
      linarith
    exact origin_eq_roundHalf (by omega) (abs_lt.mpr ⟨by omega, by omega⟩) hplo hn
  obtain ⟨hround, -⟩ :=
    abs_le.mp (abs_roundHalf_sub_le (b.voxelSize parent / minScale b.scale))
  rw [← hsize] at hround
  rw [SampleGrid.cellAlong, SampleGrid.cellAlong, horigin]
  apply gridCellAxis_lt hspanUnits hplo hqhi
  · linarith
  · exact hextent.trans (by linarith)
  · linarith

/-- A voxel of a builder whose axes are all fine enough is resolved. -/
lemma resolves_of_fineEnough (hscale : ∀ a, 0 < b.scale a)
    (hspan : ∀ a, 128 * b.scale a ≤ b.voxelSize parent)
    (hfine : ∀ a, FineEnough b.scale (b.voxelSize parent) a) : b.Resolves parent := by
  rintro p q hp hq ⟨a, hfar⟩ heq
  have hcells := (SampleGrid.gridIdx_eq_iff _ p q).mp heq a
  rcases le_abs.mp hfar with hfar | hfar
  · exact absurd hcells (cellAlong_lt hscale hspan hq hp hfar (hfine a)).ne'
  · refine absurd hcells (cellAlong_lt hscale hspan hp hq ?_ (hfine a)).ne
    linarith

/-! ## A cube with coarse axes -/

/-- A point with given coordinates. -/
def pointWith (coord : Axis → Int32) : RawPoint :=
  { (default : RawPoint) with x := coord .x, y := coord .y, z := coord .z }

@[simp] lemma coord_pointWith (coord : Axis → Int32) (a : Axis) :
    (pointWith coord).coord a = coord a := by
  cases a <;> rfl

/-- A cube whose lower corner is stored with the smallest coordinates. -/
def cornerBuilder (scale : Axis → ℚ) (side : ℚ) : OctreeBuilder ℚ where
  cx := side / 2
  cy := side / 2
  cz := side / 2
  halfsize := side / 2
  scaleX := scale .x
  scaleY := scale .y
  scaleZ := scale .z
  offsetX := 2 ^ 31 * scale .x
  offsetY := 2 ^ 31 * scale .y
  offsetZ := 2 ^ 31 * scale .z
  numExtraBytes := 0

section Corner

variable {scale : Axis → ℚ} {side : ℚ}

lemma scale_cornerBuilder (a : Axis) : (cornerBuilder scale side).scale a = scale a := by
  cases a <;> rfl

lemma offset_cornerBuilder (a : Axis) :
    (cornerBuilder scale side).offset a = 2 ^ 31 * scale a := by
  cases a <;> rfl

lemma voxelSize_cornerBuilder : (cornerBuilder scale side).voxelSize VoxelKey.root = side := by
  change 2 * (side / 2) / 2 ^ 0 = side
  ring

lemma lowerCorner_cornerBuilder (a : Axis) :
    (cornerBuilder scale side).lowerCorner VoxelKey.root a = 0 := by
  have hcoord : VoxelKey.root.coord a = 0 := by cases a <;> rfl
  have hcenter : (cornerBuilder scale side).center a = side / 2 := by cases a <;> rfl
  rw [lowerCorner, hcoord, hcenter]
  change side / 2 - side / 2 + ((0 : ℕ) : ℚ) * _ = 0
  push_cast
  ring

/-- The point at `units a` integer units from the lower corner along every axis. -/
def cornerPoint (units : Axis → ℤ) : RawPoint :=
  pointWith fun a => Int32.ofInt (-2 ^ 31 + units a)

lemma toInt_cornerPoint {units : Axis → ℤ} {a : Axis} (h0 : 0 ≤ units a) (h1 : units a < 2 ^ 32) :
    ((cornerPoint units).coord a).toInt = -2 ^ 31 + units a := by
  rw [cornerPoint, coord_pointWith]
  exact Int32.toInt_ofInt_of_le (by omega) (by omega)

lemma world_cornerPoint {units : Axis → ℤ} {a : Axis} (h0 : 0 ≤ units a)
    (h1 : units a < 2 ^ 32) :
    (cornerBuilder scale side).world a (cornerPoint units) = units a * scale a := by
  have hworld : (cornerBuilder scale side).world a (cornerPoint units) =
      ((cornerPoint units).coord a).toInt * scale a + 2 ^ 31 * scale a := by
    cases a <;> rfl
  rw [hworld, toInt_cornerPoint h0 h1]
  push_cast
  ring

/-- The first cell along an axis. -/
lemma cellAlong_cornerPoint (hscale : ∀ a, 0 < scale a) (hspan : ∀ a, 128 * scale a ≤ side)
    {units : Axis → ℤ} {a : Axis} (h0 : 0 ≤ units a) (h1 : units a < 2 ^ 32)
    (hcoarse : 128 * units a + 1 / 2 ≤ side / minScale scale) :
    ((cornerBuilder scale side).sampleGrid VoxelKey.root).cellAlong a (cornerPoint units) = 0 := by
  have hm := minScale_pos hscale
  have hminScale : minScale (cornerBuilder scale side).scale = minScale scale := rfl
  have hspan' : 128 ≤ side / minScale scale := by
    rw [le_div_iff₀ hm]
    have h1 := hspan .x
    have h2 := minScale_le scale .x
    linarith
  have hround : 128 * units a < roundHalf (side / minScale scale) := by
    by_contra hle
    rw [not_lt, roundHalf_le_iff (by linarith)] at hle
    push_cast at hle
    linarith
  have hsize : 128 * units a <
      ((cornerBuilder scale side).sampleGrid VoxelKey.root).intSize := by
    rw [intSize_sampleGrid _ _ (by rw [voxelSize_cornerBuilder, hminScale]; exact hspan'),
      voxelSize_cornerBuilder, hminScale, toI64_intCast]
    omega
  have horigin : ((cornerBuilder scale side).sampleGrid VoxelKey.root).origin a = -2 ^ 31 := by
    have hunits : ((cornerBuilder scale side).lowerCorner VoxelKey.root a -
        (cornerBuilder scale side).offset a) / (cornerBuilder scale side).scale a =
          ((-2 ^ 31 : ℤ) : ℚ) := by
      rw [lowerCorner_cornerBuilder, offset_cornerBuilder, scale_cornerBuilder]
      have := (hscale a).ne'
      push_cast
      field_simp
      ring
    rw [origin_sampleGrid, hunits, roundHalf_intCast, toI64_of_mem (by norm_num) (by norm_num)]
  rw [SampleGrid.cellAlong, toInt_cornerPoint h0 h1, horigin]
  have hzero : max (-2 ^ 31 + units a - -2 ^ 31) 0 * gridCellsPerAxis /
      ((cornerBuilder scale side).sampleGrid VoxelKey.root).intSize = 0 := by
    rw [gridCellsPerAxis]
    exact Int.ediv_eq_zero_of_lt (by omega) (by omega)
  rw [gridCellAxis, hzero]
  rfl

/-- Along an axis that is not fine enough two points far apart are in the first cell. -/
lemma not_resolves_of_coarse (hscale : ∀ a, 0 < scale a) (hspan : ∀ a, 128 * scale a ≤ side)
    {a : Axis} (hcoarse : ¬ FineEnough scale side a) :
    ¬ (cornerBuilder scale side).Resolves VoxelKey.root := by
  obtain ⟨hlt, hle⟩ := not_or.mp hcoarse
  rw [not_le] at hlt
  rw [not_lt] at hle
  have hs := hscale a
  have hside : 0 < side := by
    have := hspan a
    linarith
  have hceil : side / scale a / 32 ≤ farUnits scale side a := Int.le_ceil _
  have hceil' : (farUnits scale side a : ℚ) < side / scale a / 32 + 1 := Int.ceil_lt_add_one _
  have hpos : 0 ≤ farUnits scale side a := Int.ceil_nonneg (by positivity)
  set near : Axis → ℤ := fun _ => 0
  set far : Axis → ℤ := fun a' => if a' = a then farUnits scale side a else 0
  have hfar : ∀ a', 0 ≤ far a' ∧ far a' < 2 ^ 32 ∧
      128 * (far a' : ℚ) + 1 / 2 ≤ side / minScale scale ∧ far a' * scale a' ≤ side := by
    intro a'
    by_cases h : a' = a
    · subst h
      have hfa : far a' = farUnits scale side a' := if_pos rfl
      rw [hfa]
      refine ⟨hpos, hlt, hle, ?_⟩
      have hunits : (farUnits scale side a' : ℚ) ≤ side / scale a' := by
        have := hspan a'
        have : 128 ≤ side / scale a' := by rwa [le_div_iff₀ hs]
        linarith
      rwa [le_div_iff₀ hs] at hunits
    · have hfa : far a' = 0 := if_neg h
      rw [hfa]
      refine ⟨le_rfl, by norm_num, ?_, ?_⟩
      · have hq : (0 : ℚ) ≤ farUnits scale side a := by exact_mod_cast hpos
        push_cast
        linarith
      · push_cast
        linarith
  have hinside : ∀ units : Axis → ℤ, (∀ a', 0 ≤ units a' ∧ units a' < 2 ^ 32 ∧
      units a' * scale a' ≤ side) →
      (cornerBuilder scale side).InVoxel VoxelKey.root (cornerPoint units) := by
    intro units hunits a'
    obtain ⟨h0, h1, h2⟩ := hunits a'
    rw [lowerCorner_cornerBuilder, voxelSize_cornerBuilder, world_cornerPoint h0 h1, zero_add]
    have hq : (0 : ℚ) ≤ units a' := by exact_mod_cast h0
    exact ⟨mul_nonneg hq (hscale a').le, h2⟩
  intro hresolves
  apply hresolves (cornerPoint far) (cornerPoint near)
  · exact hinside far fun a' => ⟨(hfar a').1, (hfar a').2.1, (hfar a').2.2.2⟩
  · exact hinside near fun a' => ⟨le_rfl, by norm_num [near], by simp [near, hside.le]⟩
  · refine ⟨a, ?_⟩
    rw [voxelSize_cornerBuilder, world_cornerPoint (hfar a).1 (hfar a).2.1,
      world_cornerPoint le_rfl (by norm_num [near])]
    have hfa : far a = farUnits scale side a := if_pos rfl
    have hna : (near a : ℚ) = 0 := by simp [near]
    rw [hna, hfa, zero_mul, sub_zero, abs_of_nonneg (by positivity)]
    have := mul_le_mul_of_nonneg_right hceil hs.le
    rw [div_right_comm, div_mul_cancel₀ _ hs.ne'] at this
    linarith
  · rw [SampleGrid.gridIdx_eq_iff]
    intro a'
    rw [cellAlong_cornerPoint hscale hspan (hfar a').1 (hfar a').2.1 (hfar a').2.2.1,
      cellAlong_cornerPoint hscale hspan le_rfl (by norm_num [near]) ?_]
    have := (hfar a').2.2.1
    have hq : (0 : ℚ) ≤ far a' := by exact_mod_cast (hfar a').1
    simp only [near]
    push_cast
    linarith

end Corner

/-- **The grid resolves the voxels of a given side exactly when every axis is fine enough**, for
every cube and every voxel of that side whose axes have at least 128 integer units. -/
theorem resolves_iff {scale : Axis → ℚ} {side : ℚ} (hscale : ∀ a, 0 < scale a)
    (hspan : ∀ a, 128 * scale a ≤ side) :
    (∀ (b : OctreeBuilder ℚ) (parent : VoxelKey), (∀ a, b.scale a = scale a) →
      b.voxelSize parent = side → b.Resolves parent) ↔ ∀ a, FineEnough scale side a := by
  constructor
  · intro h a
    by_contra hcoarse
    exact not_resolves_of_coarse hscale hspan hcoarse
      (h _ VoxelKey.root scale_cornerBuilder voxelSize_cornerBuilder)
  · intro hfine b parent hb hside
    have hscales : b.scale = scale := funext hb
    apply resolves_of_fineEnough
    · rwa [hscales]
    · rwa [hscales, hside]
    · rwa [hscales, hside]

/-- With equal scales the grid resolves the voxel. -/
theorem resolves_equal_scales : (cornerBuilder (fun _ => 1) 128).Resolves VoxelKey.root := by
  have hscale : ∀ _ : Axis, (0 : ℚ) < 1 := fun _ => by norm_num
  have hspan : ∀ _ : Axis, 128 * (1 : ℚ) ≤ 128 := fun _ => by norm_num
  refine (resolves_iff hscale hspan).mpr (fun a => Or.inr ?_) _ VoxelKey.root
    scale_cornerBuilder voxelSize_cornerBuilder
  rw [farUnits, minScale]
  norm_num

/-- Scales of which the one of the third axis is eight times the others. -/
def coarseZ : Axis → ℚ
  | .z => 8
  | _ => 1

/-- A point four units up along the third axis. -/
def fourUp : Axis → ℤ
  | .z => 4
  | _ => 0

/-- **A coarse axis is not resolved**: two points of a voxel, a 32nd of its side apart along the
axis with the eightfold scale, fall into the same cell. -/
theorem coarse_axis_not_resolved :
    (∀ a, 0 < coarseZ a) ∧
      (∀ a, 128 * coarseZ a ≤ (cornerBuilder coarseZ 1024).voxelSize VoxelKey.root) ∧
      (cornerBuilder coarseZ 1024).InVoxel VoxelKey.root (cornerPoint fun _ => 0) ∧
      (cornerBuilder coarseZ 1024).InVoxel VoxelKey.root (cornerPoint fourUp) ∧
      (cornerBuilder coarseZ 1024).FarApart VoxelKey.root (cornerPoint fun _ => 0)
        (cornerPoint fourUp) ∧
      ((cornerBuilder coarseZ 1024).sampleGrid VoxelKey.root).gridIdx (cornerPoint fun _ => 0) =
        ((cornerBuilder coarseZ 1024).sampleGrid VoxelKey.root).gridIdx (cornerPoint fourUp) := by
  refine ⟨?_, ?_, ?_, ?_, ⟨.z, by decide +kernel⟩, by decide +kernel⟩
  · intro a
    cases a <;> decide +kernel
  · intro a
    cases a <;> decide +kernel
  · intro a
    cases a <;> decide +kernel
  · intro a
    cases a <;> decide +kernel

end OctreeBuilder

end CopcConverter
