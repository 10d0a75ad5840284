import CopcConverter.Octree.FromScan

/-!
# Stored points lie in their voxels

Readers expect the points of a node inside the cube of the node.  In exact arithmetic they are: a
point within the merged bounds is stored without clamping, since the fitted offset and scale leave
headroom at both ends; it moves by at most half a scale unit in storing, and so stays strictly
within the cube, which was padded by one unit on each side.

From there the descent takes over.  Every step goes to the half of the voxel that holds the
coordinate, so the half-open box of the current voxel holds it at every depth; the invariant is
stated for one axis and used for all three.  The corner of the bounds, where the margins are
smallest, serves as the example.
-/

namespace CopcConverter

/-! ## Storing a point -/

/-- A point within the bounds, in units of the output. -/
lemma Fitted.abs_units_le {bounds : Bounds} {b : OctreeBuilder ℚ} (h : Fitted bounds b) {a : Axis}
    {x : ℚ} (hlo : bounds.lo a ≤ x) (hhi : x ≤ bounds.hi a) :
    |(x - b.offset a) / b.scale a| ≤ i32Headroom := by
  have hs := h.scale_pos a
  obtain ⟨hl, -⟩ := abs_le.mp (h.lo_fits a)
  obtain ⟨-, hh⟩ := abs_le.mp (h.hi_fits a)
  rw [abs_le]
  constructor
  · exact hl.trans (div_le_div_of_nonneg_right (by linarith) hs.le)
  · exact (div_le_div_of_nonneg_right (by linarith) hs.le).trans hh

/-- What fits the headroom is not clamped by the cast. -/
lemma roundHalf_mem_i32 {u : ℚ} (h : |u| ≤ i32Headroom) :
    -2 ^ 31 ≤ roundHalf u ∧ roundHalf u ≤ 2 ^ 31 - 1 := by
  obtain ⟨hlo, hhi⟩ := abs_le.mp h
  obtain ⟨hrlo, hrhi⟩ := abs_le.mp (abs_roundHalf_sub_le u)
  rw [i32Headroom] at hlo hhi
  have hlow : ((-2 ^ 31 : ℤ) : ℚ) ≤ roundHalf u := by
    push_cast
    linarith
  have hhigh : (roundHalf u : ℚ) ≤ ((2 ^ 31 - 1 : ℤ) : ℚ) := by
    push_cast
    linarith
  exact ⟨by exact_mod_cast hlow, by exact_mod_cast hhigh⟩

lemma toInt_saturate32_of_mem {n : ℤ} (hlo : -2 ^ 31 ≤ n) (hhi : n ≤ 2 ^ 31 - 1) :
    (saturate32 n).toInt = n := by
  rw [toInt_saturate32, min_eq_right hhi, max_eq_right hlo]

namespace OctreeBuilder

variable {b : OctreeBuilder ℚ}

lemma world_encode {p : InputPoint} {a : Axis}
    (hlo : -2 ^ 31 ≤ b.roundedUnits a (p.pos a)) (hhi : b.roundedUnits a (p.pos a) ≤ 2 ^ 31 - 1) :
    b.world a (b.encode p) = b.roundedUnits a (p.pos a) * b.scale a + b.offset a := by
  have hworld : b.world a (b.encode p) =
      ((b.encode p).coord a).toInt * b.scale a + b.offset a := rfl
  rw [hworld, coord_encode, toInt_saturate32_of_mem hlo hhi]

/-- Rounding moves a coordinate by at most half a scale unit. -/
lemma abs_round_trip_le {a : Axis} (hs : 0 < b.scale a) (x : ℚ) :
    |b.roundedUnits a x * b.scale a + b.offset a - x| ≤ b.scale a / 2 := by
  have hmove : b.roundedUnits a x * b.scale a + b.offset a - x =
      (b.roundedUnits a x - (x - b.offset a) / b.scale a) * b.scale a := by
    rw [sub_mul, div_mul_cancel₀ _ hs.ne']
    ring
  rw [hmove, abs_mul, abs_of_pos hs]
  have := mul_le_mul_of_nonneg_right (abs_roundHalf_sub_le ((x - b.offset a) / b.scale a)) hs.le
  rw [roundedUnits]
  linarith

/-- A point within the bounds is stored strictly inside the cube. -/
lemma abs_sub_center_lt {bounds : Bounds} (h : Fitted bounds b) {a : Axis} {x : ℚ}
    (hlo : bounds.lo a ≤ x) (hhi : x ≤ bounds.hi a) :
    |b.roundedUnits a x * b.scale a + b.offset a - b.center a| < b.halfsize := by
  have hs := h.scale_pos a
  obtain ⟨hmlo, hmhi⟩ := abs_le.mp (abs_round_trip_le hs x)
  have hhalf := h.halfsize a a
  rw [h.center a, abs_lt]
  constructor <;> linarith

/-! ## The descent -/

end OctreeBuilder

/-- The descent along one axis. -/
def Descent.along (s : Descent ℚ) : Axis → AxisDescent ℚ
  | .x => s.ax
  | .y => s.ay
  | .z => s.az

/-- The current voxel along one axis has the given side and holds the coordinate. -/
structure AxisDescent.Holds (c half side x : ℚ) (s : AxisDescent ℚ) : Prop where
  center_eq : s.o = c - half + (2 * s.v + 1) * (side / 2)
  low : s.o - side / 2 ≤ x
  high : x < s.o + side / 2

/-- One step down keeps the coordinate in the voxel. -/
lemma AxisDescent.Holds.step {c half side x : ℚ} {s : AxisDescent ℚ} (h : s.Holds c half side x) :
    (s.step x (side / 2 / 2)).Holds c half (side / 2) x := by
  obtain ⟨hcenter, hlow, hhigh⟩ := h
  unfold AxisDescent.step
  by_cases hx : s.o ≤ x
  · have hge : FloatArith.ge x s.o = true := decide_eq_true hx
    rw [if_pos hge]
    refine ⟨?_, ?_, ?_⟩
    · simp only
      push_cast
      rw [hcenter]
      ring
    · simp only
      linarith
    · simp only
      linarith
  · have hge : ¬ FloatArith.ge x s.o = true := fun hge => hx (of_decide_eq_true hge)
    rw [if_neg hge]
    refine ⟨?_, ?_, ?_⟩
    · simp only
      push_cast
      rw [hcenter]
      ring
    · simp only
      linarith
    · simp only
      linarith [not_le.mp hx]

/-- Every step of the descent keeps a point of the half-open cube in the voxel, along every axis. -/
lemma descent_holds {pos center : Axis → ℚ} {half : ℚ}
    (hcube : ∀ a, center a - half ≤ pos a ∧ pos a < center a + half) (depth : ℕ) :
    ((Descent.step (pos .x) (pos .y) (pos .z))^[depth]
        ⟨half, ⟨0, center .x⟩, ⟨0, center .y⟩, ⟨0, center .z⟩⟩).half = half / 2 ^ depth ∧
      ∀ a, (((Descent.step (pos .x) (pos .y) (pos .z))^[depth]
        ⟨half, ⟨0, center .x⟩, ⟨0, center .y⟩, ⟨0, center .z⟩⟩).along a).Holds (center a) half
          (2 * half / 2 ^ depth) (pos a) := by
  induction depth with
  | zero =>
    refine ⟨by rw [pow_zero, div_one]; rfl, fun a => ?_⟩
    obtain ⟨hlo, hhi⟩ := hcube a
    have hstart : (Descent.mk half ⟨0, center .x⟩ ⟨0, center .y⟩ ⟨0, center .z⟩).along a =
        ⟨0, center a⟩ := by cases a <;> rfl
    rw [Function.iterate_zero_apply, hstart]
    refine ⟨?_, ?_, ?_⟩
    · simp only [pow_zero, Nat.cast_zero]
      ring
    · simp only [pow_zero]
      linarith
    · simp only [pow_zero]
      linarith
  | succ depth ih =>
    obtain ⟨hhalf, hall⟩ := ih
    rw [Function.iterate_succ_apply']
    set s := (Descent.step (pos .x) (pos .y) (pos .z))^[depth]
      ⟨half, ⟨0, center .x⟩, ⟨0, center .y⟩, ⟨0, center .z⟩⟩
    have hside : 2 * half / 2 ^ (depth + 1) = 2 * half / 2 ^ depth / 2 := by
      rw [pow_succ, ← div_div]
    have hstep : s.half / 2 = 2 * half / 2 ^ depth / 2 / 2 := by
      rw [hhalf]
      ring
    constructor
    · rw [pow_succ, ← div_div, ← hhalf]
      rfl
    · intro a
      have hnext : (s.step (pos .x) (pos .y) (pos .z)).along a =
          (s.along a).step (pos a) (s.half / 2) := by
        cases a <;> rfl
      rw [hnext, hside, hstep]
      exact (hall a).step

namespace OctreeBuilder

variable {b : OctreeBuilder ℚ}

/-- The loop variables of the descent of a stored point. -/
def descentOf (b : OctreeBuilder ℚ) (p : RawPoint) (depth : ℕ) : Descent ℚ :=
  (Descent.step (b.worldX p) (b.worldY p) (b.worldZ p))^[depth]
    ⟨b.halfsize, ⟨0, b.cx⟩, ⟨0, b.cy⟩, ⟨0, b.cz⟩⟩

lemma coord_keyOf (p : RawPoint) (depth : ℕ) (a : Axis) :
    (b.keyOf p depth).coord a = ((b.descentOf p depth).along a).v := by
  cases a <;> rfl

/-- A point inside the cube lies in the box of its voxel at every depth. -/
lemma keyOf_contains {p : RawPoint} (hcube : ∀ a, |b.world a p - b.center a| < b.halfsize)
    (depth : ℕ) (a : Axis) :
    b.lowerCorner (b.keyOf p depth) a ≤ b.world a p ∧
      b.world a p < b.lowerCorner (b.keyOf p depth) a + b.voxelSize (b.keyOf p depth) := by
  have hopen : ∀ a, b.center a - b.halfsize ≤ b.world a p ∧
      b.world a p < b.center a + b.halfsize := by
    intro a
    obtain ⟨hlo, hhi⟩ := abs_lt.mp (hcube a)
    constructor <;> linarith
  obtain ⟨hcenter, hlow, hhigh⟩ : ((b.descentOf p depth).along a).Holds (b.center a) b.halfsize
      (2 * b.halfsize / 2 ^ depth) (b.world a p) := (descent_holds hopen depth).2 a
  have hsize : b.voxelSize (b.keyOf p depth) = 2 * b.halfsize / 2 ^ depth := rfl
  rw [lowerCorner, coord_keyOf, hsize]
  rw [hcenter] at hlow hhigh
  constructor <;> linarith

end OctreeBuilder

/-! ## All together -/

/-- **Points within the bounds are stored in their voxels.**  Fitting ends for positive scales, and
with the builder it gives, a point within the bounds is rounded into the range of `i32`, so that the
cast does not clamp it; it is stored strictly inside the cube; and at every depth the box of its
voxel holds it. -/
theorem encode_contained {bounds : Bounds} {offset scale : Axis → ℚ} {numExtraBytes : UInt16}
    (hscale : ∀ a, 0 < scale a) :
    (∃ n, ∀ fuel, n ≤ fuel → ∃ b, fitBuilder fuel bounds offset scale numExtraBytes = some b) ∧
    ∀ fuel b, fitBuilder fuel bounds offset scale numExtraBytes = some b →
      ∀ p : InputPoint, (∀ a, bounds.lo a ≤ p.pos a ∧ p.pos a ≤ bounds.hi a) →
        (∀ a, -2 ^ 31 ≤ b.roundedUnits a (p.pos a) ∧ b.roundedUnits a (p.pos a) ≤ 2 ^ 31 - 1 ∧
          ((b.encode p).coord a).toInt = b.roundedUnits a (p.pos a)) ∧
        (∀ a, b.center a - b.halfsize < b.world a (b.encode p) ∧
          b.world a (b.encode p) < b.center a + b.halfsize) ∧
        ∀ depth a, b.lowerCorner (b.keyOf (b.encode p) depth) a ≤ b.world a (b.encode p) ∧
          b.world a (b.encode p) < b.lowerCorner (b.keyOf (b.encode p) depth) a +
            b.voxelSize (b.keyOf (b.encode p) depth) := by
  obtain ⟨n, b, hn⟩ := exists_fitBuilder bounds offset (fun a => (hscale a).ne') numExtraBytes
  refine ⟨⟨n, fun fuel hfuel => ⟨b, hn fuel hfuel⟩⟩, ?_⟩
  intro fuel b hb p hp
  have hfitted := fitted_of_fitBuilder hscale hb
  have hmem : ∀ a, -2 ^ 31 ≤ b.roundedUnits a (p.pos a) ∧
      b.roundedUnits a (p.pos a) ≤ 2 ^ 31 - 1 := fun a =>
    roundHalf_mem_i32 (hfitted.abs_units_le (hp a).1 (hp a).2)
  have hcube : ∀ a, |b.world a (b.encode p) - b.center a| < b.halfsize := by
    intro a
    rw [OctreeBuilder.world_encode (hmem a).1 (hmem a).2]
    exact OctreeBuilder.abs_sub_center_lt hfitted (hp a).1 (hp a).2
  refine ⟨fun a => ⟨(hmem a).1, (hmem a).2, ?_⟩, fun a => ?_, ?_⟩
  · rw [OctreeBuilder.coord_encode]
    exact toInt_saturate32_of_mem (hmem a).1 (hmem a).2
  · obtain ⟨hlo, hhi⟩ := abs_lt.mp (hcube a)
    constructor <;> linarith
  · exact OctreeBuilder.keyOf_contains hcube

/-- The upper corner of a box of whole units. -/
theorem encode_contained_corner : ∃ b : OctreeBuilder ℚ,
    fitBuilder 0 ⟨0, 0, 0, 10, 10, 10⟩ (fun _ => 0) (fun _ => 1) 0 = some b ∧
    ∀ p : InputPoint, (∀ a, p.pos a = 10) → ∀ depth a,
      b.lowerCorner (b.keyOf (b.encode p) depth) a ≤ b.world a (b.encode p) ∧
        b.world a (b.encode p) < b.lowerCorner (b.keyOf (b.encode p) depth) a +
          b.voxelSize (b.keyOf (b.encode p) depth) := by
  have hsome : (fitBuilder 0 ⟨0, 0, 0, 10, 10, 10⟩ (fun _ => 0) (fun _ => 1) 0).isSome := by
    decide +kernel
  obtain ⟨b, hb⟩ := Option.isSome_iff_exists.mp hsome
  refine ⟨b, hb, fun p hp => ?_⟩
  have hmem : ∀ a, (Bounds.lo ⟨0, 0, 0, 10, 10, 10⟩ a) ≤ p.pos a ∧
      p.pos a ≤ (Bounds.hi ⟨0, 0, 0, 10, 10, 10⟩ a) := by
    intro a
    rw [hp a]
    cases a <;> exact ⟨by norm_num [Bounds.lo], by norm_num [Bounds.hi]⟩
  exact ((encode_contained fun _ => one_pos).2 0 b hb p hmem).2.2

end CopcConverter
