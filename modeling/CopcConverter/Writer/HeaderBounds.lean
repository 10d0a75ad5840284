import CopcConverter.Octree.NodeMap
import CopcConverter.Octree.StoredPoint
import CopcConverter.Writer.DataKeys

/-!
# The bounds in the output header

In exact arithmetic.  The header of the output gets the merged bounds of the input headers, snapped
outwards to the grid of the output coordinates.  The points that are written are the encoded input
points, whatever the input headers say about them; nothing in the pipeline compares the two.

So the header encloses the written points exactly when every input coordinate rounds into the
snapped bounds, that is, when it is less than half an output unit outside of them, with one side
included for coordinates below zero and the other one for those above, where halves are rounded away
from zero.  Points within their header bounds always do.  A file whose header gives the origin for
bounds and that has a point ten units away is converted without a complaint, and the output says the
same of its own points.
-/

namespace CopcConverter

/-! ## What is written -/

/-- The largest multiple of the scale, from the offset on, that is not above `v`. -/
def snapFloor (v scale offset : ℚ) : ℚ := ⌊(v - offset) / scale⌋ * scale + offset

/-- The smallest multiple of the scale, from the offset on, that is not below `v`. -/
def snapCeil (v scale offset : ℚ) : ℚ := ⌈(v - offset) / scale⌉ * scale + offset

namespace OctreeBuilder

variable (b : OctreeBuilder ℚ) (bounds : Bounds)

/-- The minimum in the header along one axis. -/
def headerMin (a : Axis) : ℚ := snapFloor (bounds.lo a) (b.scale a) (b.offset a)

/-- The maximum in the header along one axis. -/
def headerMax (a : Axis) : ℚ := snapCeil (bounds.hi a) (b.scale a) (b.offset a)

end OctreeBuilder

/-- An input file: what its header says and the points it holds. -/
structure InputFile where
  geometry : FileGeometry
  points : List InputPoint

/-- The points of all files, encoded for the output. -/
def encodedPoints (b : OctreeBuilder ℚ) (files : List InputFile) : Multiset RawPoint :=
  ↑(files.flatMap fun f => f.points.map b.encode)

lemma mem_encodedPoints {b : OctreeBuilder ℚ} {files : List InputFile} {p : RawPoint} :
    p ∈ encodedPoints b files ↔ ∃ f ∈ files, ∃ q ∈ f.points, b.encode q = p := by
  rw [encodedPoints, Multiset.mem_coe, List.mem_flatMap]
  exact exists_congr fun f => and_congr_right fun _ => List.mem_map

/-- The header encloses a stored point. -/
def OctreeBuilder.HeaderEncloses (b : OctreeBuilder ℚ) (bounds : Bounds) (p : RawPoint) : Prop :=
  ∀ a, b.headerMin bounds a ≤ b.world a p ∧ b.world a p ≤ b.headerMax bounds a

/-- An input point is less than half an output unit outside of the merged bounds, counted from the
next whole unit; or it is just half a unit outside, on the side of zero. -/
def OctreeBuilder.NearBounds (b : OctreeBuilder ℚ) (bounds : Bounds) (q : InputPoint) : Prop :=
  ∀ a, let u := (q.pos a - b.offset a) / b.scale a
    let l := ⌊(bounds.lo a - b.offset a) / b.scale a⌋
    let h := ⌈(bounds.hi a - b.offset a) / b.scale a⌉
    (l - 1 / 2 < u ∨ (l - 1 / 2 = u ∧ 0 < l)) ∧ (u < h + 1 / 2 ∨ (u = h + 1 / 2 ∧ h < 0))

/-! ## One point -/

/-- Clamping to the range of `i32` does not change how a number compares with one inside it. -/
lemma le_saturate32_iff {n m : ℤ} (hlo : -2 ^ 31 < m) (hhi : m < 2 ^ 31 - 1) :
    (m ≤ (saturate32 n).toInt ↔ m ≤ n) ∧ ((saturate32 n).toInt ≤ m ↔ n ≤ m) := by
  rw [toInt_saturate32]
  constructor <;> omega

/-- What fits the headroom has its floor and its ceiling inside the range of `i32`. -/
lemma floor_ceil_mem_i32 {u : ℚ} (h : |u| ≤ i32Headroom) :
    (-2 ^ 31 < ⌊u⌋ ∧ ⌊u⌋ < 2 ^ 31 - 1) ∧ -2 ^ 31 < ⌈u⌉ ∧ ⌈u⌉ < 2 ^ 31 - 1 := by
  obtain ⟨hlo, hhi⟩ := abs_le.mp h
  rw [i32Headroom] at hlo hhi
  have hfloor : -2147400000 ≤ ⌊u⌋ := by
    rw [Int.le_floor]
    push_cast
    exact hlo
  have hceil : ⌈u⌉ ≤ 2147400000 := by
    rw [Int.ceil_le]
    push_cast
    exact hhi
  have hle := Int.floor_le_ceil u
  omega

namespace OctreeBuilder

variable {b : OctreeBuilder ℚ} {bounds : Bounds}

/-- The header encloses a stored input point exactly when the point is near the merged bounds. -/
lemma headerEncloses_encode_iff (h : Fitted bounds b) (q : InputPoint) :
    b.HeaderEncloses bounds (b.encode q) ↔ b.NearBounds bounds q := by
  refine forall_congr' fun a => ?_
  have hs := h.scale_pos a
  have hworld : b.world a (b.encode q) =
      (saturate32 (b.roundedUnits a (q.pos a))).toInt * b.scale a + b.offset a := by
    rw [← coord_encode]
    rfl
  obtain ⟨⟨hl, hl'⟩, -⟩ := floor_ceil_mem_i32 (h.lo_fits a)
  obtain ⟨-, hh, hh'⟩ := floor_ceil_mem_i32 (h.hi_fits a)
  rw [hworld, headerMin, headerMax, snapFloor, snapCeil, add_le_add_iff_right,
    add_le_add_iff_right, mul_le_mul_iff_left₀ hs, mul_le_mul_iff_left₀ hs, Int.cast_le,
    Int.cast_le, (le_saturate32_iff hl hl').1, (le_saturate32_iff hh hh').2, roundedUnits,
    le_roundHalf_iff, roundHalf_le_iff_or]

end OctreeBuilder

/-! ## The whole file -/

/-- What `fromScan` returns is fitted. -/
lemma fitted_of_fromScan {fuel : ℕ} {files : List FileGeometry} {numExtraBytes : UInt16}
    {bounds : Bounds} {b : OctreeBuilder ℚ} (hscale : ∀ f ∈ files, ∀ a, 0 < f.scale a)
    (h : fromScan fuel files numExtraBytes = some (bounds, b)) : Fitted bounds b := by
  cases files with
  | nil => cases h
  | cons first files =>
    obtain ⟨b', hb', hpair⟩ := Option.map_eq_some_iff.mp h
    obtain ⟨rfl, rfl⟩ := Prod.mk.inj hpair
    exact fitted_of_fitBuilder (hscale first List.mem_cons_self) hb'

section Written

variable {files : List InputFile} {fuel : ℕ} {numExtraBytes : UInt16} {bounds : Bounds}
  {b : OctreeBuilder ℚ} {grid : ℕ → UInt32} {gridDepth chunkTarget : ℕ} {ord : IterOrder}
  {memoryBudget cores : ℕ} {chunkActualCounts : Option (List ℕ)} {chunkFiles : ℕ → List RawPoint}
  {store : Store} {nodes : List (VoxelKey × ℕ)}

/-- The points that are written are the encoded points of the input files. -/
lemma mem_writtenPoints_iff
    (hd : Distributed b (planOf grid gridDepth chunkTarget).chunks chunkFiles
      (encodedPoints b files))
    (hok : b.buildNodeMap ord memoryBudget cores (some (planOf grid gridDepth chunkTarget))
      chunkActualCounts chunkFiles = .ok (store, nodes)) (p : RawPoint) :
    p ∈ writtenPoints store nodes ↔ ∃ f ∈ files, ∃ q ∈ f.points, b.encode q = p := by
  obtain ⟨-, -, hlist⟩ := OctreeBuilder.buildNodeMap_conserved hd hok
  rw [mem_writtenPoints hlist.counts, OctreeBuilder.buildNodeMap_mem_iff hd hok,
    mem_encodedPoints]

/-- **The header encloses what is written** exactly when every point of every input file is near the
merged bounds of the input headers. -/
theorem headerEncloses_iff (hscale : ∀ f ∈ files, ∀ a, 0 < f.geometry.scale a)
    (hscan : fromScan fuel (files.map InputFile.geometry) numExtraBytes = some (bounds, b))
    (hd : Distributed b (planOf grid gridDepth chunkTarget).chunks chunkFiles
      (encodedPoints b files))
    (hok : b.buildNodeMap ord memoryBudget cores (some (planOf grid gridDepth chunkTarget))
      chunkActualCounts chunkFiles = .ok (store, nodes)) :
    (∀ p ∈ writtenPoints store nodes, b.HeaderEncloses bounds p) ↔
      ∀ f ∈ files, ∀ q ∈ f.points, b.NearBounds bounds q := by
  have hfitted : Fitted bounds b := by
    refine fitted_of_fromScan (fun g hg => ?_) hscan
    obtain ⟨f, hf, rfl⟩ := List.mem_map.mp hg
    exact hscale f hf
  constructor
  · intro h f hf q hq
    rw [← OctreeBuilder.headerEncloses_encode_iff hfitted]
    exact h _ ((mem_writtenPoints_iff hd hok _).mpr ⟨f, hf, q, hq, rfl⟩)
  · intro h p hp
    obtain ⟨f, hf, q, hq, rfl⟩ := (mem_writtenPoints_iff hd hok p).mp hp
    exact (OctreeBuilder.headerEncloses_encode_iff hfitted q).mpr (h f hf q hq)

end Written

/-! ## A file whose header is wrong -/

/-- A file with points on the diagonal, whose header says that all points lie at the origin. -/
def originFile (xs : List ℚ) : InputFile where
  geometry := ⟨⟨0, 0, 0, 0, 0, 0⟩, fun _ => 0, fun _ => 1⟩
  points := xs.map fun x => ⟨fun _ => x, pointAt 0 0 0⟩

/-- The builder for such a file. -/
def originBuilder : OctreeBuilder ℚ where
  cx := 0
  cy := 0
  cz := 0
  halfsize := 10001 / 10000
  scaleX := 1
  scaleY := 1
  scaleZ := 1
  offsetX := 0
  offsetY := 0
  offsetZ := 0
  numExtraBytes := 0

lemma fromScan_origin (xs : List ℚ) :
    fromScan 0 [(originFile xs).geometry] 0 = some (⟨0, 0, 0, 0, 0, 0⟩, originBuilder) := by
  have hfits : fits 0 0 0 1 = true := by decide +kernel
  have hpos : 0 < Bounds.f64Max := by
    rw [Bounds.f64Max, sub_pos]
    exact pow_lt_pow_right₀ one_lt_two (by norm_num)
  have hmerge : Bounds.empty.merge ⟨0, 0, 0, 0, 0, 0⟩ = ⟨0, 0, 0, 0, 0, 0⟩ := by
    simp [Bounds.merge, Bounds.empty, hpos]
  simp only [fromScan, originFile, List.foldl_cons, List.foldl_nil, hmerge]
  simp [fitBuilder, fitOffsetScale, doubleScale, hfits, Bounds.toCube, originBuilder]

/-- Three points, in the first cell. -/
def firstCellGrid (i : ℕ) : UInt32 := if i = 0 then 3 else 0

/-- The file of the only chunk. -/
def singleFiles (points : List RawPoint) (i : ℕ) : List RawPoint := if i = 0 then points else []

lemma planOf_firstCell : planOf firstCellGrid 1 10 = ⟨2, 1, [⟨0, 0, 0, 0, 3⟩]⟩ := rfl

/-- The encoded points of the file are those of the only chunk, and they are built. -/
lemma built_origin {xs : List ℚ} {points : List RawPoint} (hlen : points.length = 3)
    (hencode : (xs.map fun x => originBuilder.encode ⟨fun _ => x, pointAt 0 0 0⟩) = points) :
    Distributed originBuilder (planOf firstCellGrid 1 10).chunks (singleFiles points)
        (encodedPoints originBuilder [originFile xs]) ∧
      ∃ store nodes, originBuilder.buildNodeMap .listed (2 ^ 30) 1
        (some (planOf firstCellGrid 1 10)) none (singleFiles points) = .ok (store, nodes) := by
  constructor
  · refine ⟨fun i c hc p _ => ?_, ?_⟩
    · rw [planOf_firstCell] at hc
      obtain ⟨hi, rfl⟩ := List.getElem?_eq_some_iff.mp hc
      obtain rfl : i = 0 := by simpa using hi
      rfl
    · rw [planOf_firstCell, encodedPoints, List.flatMap_singleton, originFile, List.map_map]
      exact (add_zero _).trans (congrArg _ hencode.symm)
  · have hfits : saturatingMul (singleFiles points 0).length perChunkBytesPerPointBuild ≤
        (buildConcurrencyAndBudget ℚ (2 ^ 30) 1).2 := by
      rw [singleFiles, if_pos rfl, hlen, budget_gib]
      decide
    obtain ⟨nodes, hok⟩ := originBuilder.buildNodeMap_single .listed 2 1 3 hfits
    rw [← planOf_firstCell] at hok
    exact ⟨_, nodes, hok⟩

/-- A point ten units outside of the bounds in its header is written as it is, and the header of the
output does not enclose it. -/
theorem ten_outside_header : ∃ bounds b store nodes,
    fromScan 0 ([originFile [0, 1 / 4, 10]].map InputFile.geometry) 0 = some (bounds, b) ∧
    Distributed b (planOf firstCellGrid 1 10).chunks
      (singleFiles [pointAt 0 0 0, pointAt 0 0 0, pointAt 10 10 10])
      (encodedPoints b [originFile [0, 1 / 4, 10]]) ∧
    b.buildNodeMap .listed (2 ^ 30) 1 (some (planOf firstCellGrid 1 10)) none
      (singleFiles [pointAt 0 0 0, pointAt 0 0 0, pointAt 10 10 10]) = .ok (store, nodes) ∧
    ¬ ∀ p ∈ writtenPoints store nodes, b.HeaderEncloses bounds p := by
  obtain ⟨hd, store, nodes, hok⟩ := @built_origin [0, 1 / 4, 10]
    [pointAt 0 0 0, pointAt 0 0 0, pointAt 10 10 10] rfl (by decide +kernel)
  refine ⟨_, _, store, nodes, fromScan_origin _, hd, hok, fun h => ?_⟩
  have hten : originBuilder.encode ⟨fun _ => 10, pointAt 0 0 0⟩ = pointAt 10 10 10 := by
    decide +kernel
  have hmem : pointAt 10 10 10 ∈ writtenPoints store nodes :=
    (mem_writtenPoints_iff hd hok _).mpr ⟨_, List.mem_singleton_self _, _,
      List.mem_map.mpr ⟨10, by simp, rfl⟩, hten⟩
  have hmax := (h _ hmem .x).2
  have hworld : originBuilder.world .x (pointAt 10 10 10) = 10 := by decide +kernel
  have hheader : originBuilder.headerMax ⟨0, 0, 0, 0, 0, 0⟩ .x = 0 := by decide +kernel
  rw [hworld, hheader] at hmax
  norm_num at hmax

/-- Points less than half a unit outside of the bounds in their header, on either side, are rounded
into them. -/
theorem fractions_inside_header : ∃ bounds b store nodes,
    fromScan 0 ([originFile [0, 1 / 4, -1 / 3]].map InputFile.geometry) 0 = some (bounds, b) ∧
    b.buildNodeMap .listed (2 ^ 30) 1 (some (planOf firstCellGrid 1 10)) none
      (singleFiles [pointAt 0 0 0, pointAt 0 0 0, pointAt 0 0 0]) = .ok (store, nodes) ∧
    ∀ p ∈ writtenPoints store nodes, b.HeaderEncloses bounds p := by
  obtain ⟨hd, store, nodes, hok⟩ := @built_origin [0, 1 / 4, -1 / 3]
    [pointAt 0 0 0, pointAt 0 0 0, pointAt 0 0 0] rfl (by decide +kernel)
  refine ⟨_, _, store, nodes, fromScan_origin _, hok, ?_⟩
  have hscale : ∀ f ∈ [originFile [0, 1 / 4, -1 / 3]], ∀ a, 0 < f.geometry.scale a := by
    intro f hf a
    obtain rfl := List.mem_singleton.mp hf
    exact one_pos
  refine (headerEncloses_iff hscale (fromScan_origin _) hd hok).mpr fun f hf q hq a => ?_
  obtain rfl := List.mem_singleton.mp hf
  obtain ⟨x, hx, rfl⟩ := List.mem_map.mp hq
  simp only [List.mem_cons, List.not_mem_nil, or_false] at hx
  rcases hx with rfl | rfl | rfl <;> cases a <;>
    norm_num [originBuilder, OctreeBuilder.scale, OctreeBuilder.offset, Bounds.lo, Bounds.hi]

end CopcConverter
