import CopcConverter.Octree.Axes
import CopcConverter.Octree.ExactArith

/-!
# From the scan to the builder

Before the octree is built, its geometry is fixed: the bounds of all input headers are merged, the
offset and the scale of the first file are changed until the bounds can be represented by 32-bit
coordinates, and the cube of the octree is put around the bounds with a margin of one scale unit.
All of this is in exact arithmetic here.

The offset is moved to the middle of a range that does not fit, and the scale is doubled until both
ends fit.  The doubling is a loop without a bound in the source, so it takes fuel here; it ends for
every positive scale.  A builder that comes out of this is `Fitted`: both bounds are representable
along every axis, and its cube is the one of the bounds.  Encoding an input point rounds it to the
output units and saturates.
-/

namespace CopcConverter

/-! ## Bounds -/

/-- An axis-aligned bounding box. -/
structure Bounds where
  minX : ℚ
  minY : ℚ
  minZ : ℚ
  maxX : ℚ
  maxY : ℚ
  maxZ : ℚ

namespace Bounds

/-- The largest finite `f64`. -/
def f64Max : ℚ := 2 ^ 1024 - 2 ^ 971

/-- No point yet. -/
def empty : Bounds := ⟨f64Max, f64Max, f64Max, -f64Max, -f64Max, -f64Max⟩

/-- The box of two boxes. -/
def merge (s other : Bounds) : Bounds where
  minX := if other.minX < s.minX then other.minX else s.minX
  minY := if other.minY < s.minY then other.minY else s.minY
  minZ := if other.minZ < s.minZ then other.minZ else s.minZ
  maxX := if other.maxX > s.maxX then other.maxX else s.maxX
  maxY := if other.maxY > s.maxY then other.maxY else s.maxY
  maxZ := if other.maxZ > s.maxZ then other.maxZ else s.maxZ

/-- Lower bound along one axis. -/
def lo (s : Bounds) : Axis → ℚ
  | .x => s.minX
  | .y => s.minY
  | .z => s.minZ

/-- Upper bound along one axis. -/
def hi (s : Bounds) : Axis → ℚ
  | .x => s.maxX
  | .y => s.maxY
  | .z => s.maxZ

/-- Cube that contains this box, padded by one scale unit: its center and half-size. -/
def toCube (s : Bounds) (scaleX scaleY scaleZ : ℚ) : ℚ × ℚ × ℚ × ℚ :=
  let cx := (s.minX + s.maxX) / 2
  let cy := (s.minY + s.maxY) / 2
  let cz := (s.minZ + s.maxZ) / 2
  let scalePad := max (max scaleX scaleY) scaleZ
  let half := max (max (s.maxX - s.minX) (s.maxY - s.minY)) (s.maxZ - s.minZ) / 2 + scalePad
  (cx, cy, cz, half * (10001 / 10000))

end Bounds

/-! ## Offset and scale -/

/-- Headroom kept below the largest `i32`. -/
def i32Headroom : ℚ := 2147400000

/-- Both ends of a range are representable with the offset and the scale; a quotient by zero is not
a number or infinite, and neither is in the range. -/
def fits (min max o s : ℚ) : Bool :=
  s ≠ 0 && (|(min - o) / s| ≤ i32Headroom && |(max - o) / s| ≤ i32Headroom)

/-- Double the scale until both ends are representable. -/
def doubleScale (min max o : ℚ) : ℕ → ℚ → Option ℚ
  | 0, s => if fits min max o s then some s else none
  | fuel + 1, s => if fits min max o s then some s else doubleScale min max o fuel (s * 2)

/-- Make a range representable: re-center the offset if needed, then double the scale if needed.
Also whether either was changed. -/
def fitOffsetScale (fuel : ℕ) (offset scale min max : ℚ) : Option (ℚ × ℚ × Bool) :=
  let offset' := if fits min max offset scale then offset else 1 / 2 * (min + max)
  (doubleScale min max offset' fuel scale).map fun scale' =>
    (offset', scale', decide ((offset', scale') ≠ (offset, scale)))

/-! ## The builder -/

/-- The builder for some bounds, from the offset and the scale of the first file. -/
def fitBuilder (fuel : ℕ) (bounds : Bounds) (offset scale : Axis → ℚ) (numExtraBytes : UInt16) :
    Option (OctreeBuilder ℚ) := do
  let (offsetX, scaleX, _) ← fitOffsetScale fuel (offset .x) (scale .x) bounds.minX bounds.maxX
  let (offsetY, scaleY, _) ← fitOffsetScale fuel (offset .y) (scale .y) bounds.minY bounds.maxY
  let (offsetZ, scaleZ, _) ← fitOffsetScale fuel (offset .z) (scale .z) bounds.minZ bounds.maxZ
  let (cx, cy, cz, halfsize) := bounds.toCube scaleX scaleY scaleZ
  some { cx, cy, cz, halfsize, scaleX, scaleY, scaleZ, offsetX, offsetY, offsetZ, numExtraBytes }

/-- What the header of an input file says about its coordinates. -/
structure FileGeometry where
  bounds : Bounds
  offset : Axis → ℚ
  scale : Axis → ℚ

/-- The merged bounds of the files and the builder for them. -/
def fromScan (fuel : ℕ) (files : List FileGeometry) (numExtraBytes : UInt16) :
    Option (Bounds × OctreeBuilder ℚ) :=
  match files with
  | [] => none
  | first :: _ =>
    let bounds := files.foldl (fun s f => s.merge f.bounds) Bounds.empty
    (fitBuilder fuel bounds first.offset first.scale numExtraBytes).map fun b => (bounds, b)

/-- The saturating cast `as i32` of an integer. -/
def saturate32 (n : ℤ) : Int32 := Int32.ofInt (max (-2 ^ 31) (min (2 ^ 31 - 1) n))

/-- A point of an input file: its world coordinates and its attributes. -/
structure InputPoint where
  pos : Axis → ℚ
  attributes : RawPoint

namespace OctreeBuilder

variable (b : OctreeBuilder ℚ)

/-- A world coordinate in output units, rounded. -/
def roundedUnits (a : Axis) (x : ℚ) : ℤ := roundHalf ((x - b.offset a) / b.scale a)

/-- Re-encode a point with the offset and scale of the output. -/
def encode (p : InputPoint) : RawPoint :=
  { p.attributes with
    x := saturate32 (b.roundedUnits .x (p.pos .x))
    y := saturate32 (b.roundedUnits .y (p.pos .y))
    z := saturate32 (b.roundedUnits .z (p.pos .z)) }

@[simp] lemma coord_encode (p : InputPoint) (a : Axis) :
    (b.encode p).coord a = saturate32 (b.roundedUnits a (p.pos a)) := by
  cases a <;> rfl

end OctreeBuilder

lemma toInt_saturate32 (n : ℤ) :
    (saturate32 n).toInt = max (-2 ^ 31) (min (2 ^ 31 - 1) n) :=
  Int32.toInt_ofInt_of_le (by omega) (by omega)

/-! ## Fitting ends -/

/-- What the doubling loop returns fits, and is the least multiple by a power of two that does. -/
lemma doubleScale_eq_some {min max o : ℚ} {fuel : ℕ} {s s' : ℚ}
    (h : doubleScale min max o fuel s = some s') :
    fits min max o s' = true ∧
      ∃ n : ℕ, s' = s * 2 ^ n ∧ ∀ m < n, fits min max o (s * 2 ^ m) = false := by
  induction fuel generalizing s with
  | zero =>
    rw [doubleScale] at h
    split_ifs at h with hfits
    obtain rfl := Option.some.inj h
    exact ⟨hfits, 0, by rw [pow_zero, mul_one], fun m hm => absurd hm (Nat.not_lt_zero m)⟩
  | succ fuel ih =>
    rw [doubleScale] at h
    split_ifs at h with hfits
    · obtain rfl := Option.some.inj h
      exact ⟨hfits, 0, by rw [pow_zero, mul_one], fun m hm => absurd hm (Nat.not_lt_zero m)⟩
    · obtain ⟨hfits', n, hn, hleast⟩ := ih h
      refine ⟨hfits', n + 1, by rw [hn, pow_succ']; ring, fun m hm => ?_⟩
      obtain _ | m := m
      · rw [pow_zero, mul_one]
        exact Bool.eq_false_of_not_eq_true hfits
      · have hm' := hleast m (Nat.lt_of_succ_lt_succ hm)
        rwa [mul_assoc, ← pow_succ'] at hm'

/-- A scale that is large enough fits, whatever its sign. -/
lemma fits_of_le {min max o s : ℚ} (hs : s ≠ 0) (hmin : |min - o| ≤ i32Headroom * |s|)
    (hmax : |max - o| ≤ i32Headroom * |s|) : fits min max o s = true := by
  have hpos := abs_pos.mpr hs
  rw [fits, Bool.and_eq_true, Bool.and_eq_true, decide_eq_true_eq, decide_eq_true_eq,
    decide_eq_true_eq, abs_div, abs_div, div_le_iff₀ hpos, div_le_iff₀ hpos]
  exact ⟨hs, hmin, hmax⟩

/-- With enough fuel the doubling loop returns, from every scale but zero, and more fuel changes
nothing. -/
lemma exists_doubleScale (min max o : ℚ) {s : ℚ} (hs : s ≠ 0) :
    ∃ n s', ∀ fuel, n ≤ fuel → doubleScale min max o fuel s = some s' := by
  obtain ⟨n, hn⟩ := pow_unbounded_of_one_lt (Max.max |min - o| |max - o| / (i32Headroom * |s|))
    (show (1 : ℚ) < 2 by norm_num)
  have hpos : (0 : ℚ) < i32Headroom * |s| := mul_pos (by norm_num [i32Headroom]) (abs_pos.mpr hs)
  rw [div_lt_iff₀ hpos] at hn
  refine ⟨n, ?_⟩
  induction n generalizing s with
  | zero =>
    have hfits : fits min max o s = true := by
      rw [pow_zero, one_mul] at hn
      exact fits_of_le hs ((le_max_left _ _).trans hn.le) ((le_max_right _ _).trans hn.le)
    refine ⟨s, fun fuel _ => ?_⟩
    cases fuel with
    | zero => rw [doubleScale, if_pos hfits]
    | succ fuel => rw [doubleScale, if_pos hfits]
  | succ n ih =>
    by_cases hfits : fits min max o s = true
    · refine ⟨s, fun fuel hfuel => ?_⟩
      obtain ⟨fuel, rfl⟩ : ∃ m, fuel = m + 1 := ⟨fuel - 1, by omega⟩
      rw [doubleScale, if_pos hfits]
    · have habs : |s * 2| = |s| * 2 := by rw [abs_mul, abs_two]
      have hnext : Max.max |min - o| |max - o| < 2 ^ n * (i32Headroom * |s * 2|) := by
        rw [pow_succ] at hn
        rw [habs]
        linarith
      obtain ⟨s', hs'⟩ := ih (mul_ne_zero hs two_ne_zero) hnext (by rw [habs]; linarith)
      refine ⟨s', fun fuel hfuel => ?_⟩
      obtain ⟨fuel, rfl⟩ : ∃ m, fuel = m + 1 := ⟨fuel - 1, by omega⟩
      rw [doubleScale, if_neg hfits]
      exact hs' fuel (by omega)

/-- What fitting returns fits, with a scale at least as large as before. -/
lemma fitOffsetScale_eq_some {fuel : ℕ} {offset scale min max o s : ℚ} {changed : Bool}
    (h : fitOffsetScale fuel offset scale min max = some (o, s, changed)) (hscale : 0 < scale) :
    |(min - o) / s| ≤ i32Headroom ∧ |(max - o) / s| ≤ i32Headroom ∧ 0 < s := by
  obtain ⟨s', hs', heq⟩ := Option.map_eq_some_iff.mp h
  simp only [Prod.mk.injEq] at heq
  obtain ⟨rfl, rfl, -⟩ := heq
  obtain ⟨hfits, n, hn, -⟩ := doubleScale_eq_some hs'
  rw [fits, Bool.and_eq_true, Bool.and_eq_true, decide_eq_true_eq, decide_eq_true_eq,
    decide_eq_true_eq] at hfits
  refine ⟨hfits.2.1, hfits.2.2, ?_⟩
  rw [hn]
  positivity

/-- Fitting ends, from every scale but zero. -/
lemma exists_fitOffsetScale (offset min max : ℚ) {scale : ℚ} (hscale : scale ≠ 0) :
    ∃ n r, ∀ fuel, n ≤ fuel → fitOffsetScale fuel offset scale min max = some r := by
  obtain ⟨n, s', hs'⟩ := exists_doubleScale min max
    (if fits min max offset scale then offset else 1 / 2 * (min + max)) hscale
  obtain ⟨r, hr⟩ : ∃ r, fitOffsetScale n offset scale min max = some r := by
    rw [fitOffsetScale, hs' n le_rfl]
    exact ⟨_, rfl⟩
  refine ⟨n, r, fun fuel hfuel => ?_⟩
  rw [← hr, fitOffsetScale, fitOffsetScale, hs' fuel hfuel, hs' n le_rfl]

/-- What is known of a fitted builder: along every axis both bounds are representable with its
offset and scale, and its cube is the one of the bounds. -/
structure Fitted (bounds : Bounds) (b : OctreeBuilder ℚ) : Prop where
  scale_pos : ∀ a, 0 < b.scale a
  lo_fits : ∀ a, |(bounds.lo a - b.offset a) / b.scale a| ≤ i32Headroom
  hi_fits : ∀ a, |(bounds.hi a - b.offset a) / b.scale a| ≤ i32Headroom
  center : ∀ a, b.center a = (bounds.lo a + bounds.hi a) / 2
  halfsize : ∀ a a', ((bounds.hi a - bounds.lo a) / 2 + b.scale a') * (10001 / 10000) ≤ b.halfsize

/-- The builder is fitted to its bounds. -/
lemma fitted_of_fitBuilder {fuel : ℕ} {bounds : Bounds} {offset scale : Axis → ℚ}
    {numExtraBytes : UInt16} {b : OctreeBuilder ℚ} (hscale : ∀ a, 0 < scale a)
    (h : fitBuilder fuel bounds offset scale numExtraBytes = some b) : Fitted bounds b := by
  obtain ⟨⟨ox, sx, _⟩, hx, h⟩ := Option.bind_eq_some_iff.mp h
  obtain ⟨⟨oy, sy, _⟩, hy, h⟩ := Option.bind_eq_some_iff.mp h
  obtain ⟨⟨oz, sz, _⟩, hz, h⟩ := Option.bind_eq_some_iff.mp h
  obtain ⟨hxlo, hxhi, hxs⟩ := fitOffsetScale_eq_some hx (hscale .x)
  obtain ⟨hylo, hyhi, hys⟩ := fitOffsetScale_eq_some hy (hscale .y)
  obtain ⟨hzlo, hzhi, hzs⟩ := fitOffsetScale_eq_some hz (hscale .z)
  obtain rfl := Option.some.inj h
  refine ⟨fun a => ?_, fun a => ?_, fun a => ?_, fun a => ?_, fun a a' => ?_⟩
  · cases a <;> assumption
  · cases a <;> assumption
  · cases a <;> assumption
  · cases a <;> rfl
  · have hext : bounds.hi a - bounds.lo a ≤ max (max (bounds.maxX - bounds.minX)
        (bounds.maxY - bounds.minY)) (bounds.maxZ - bounds.minZ) := by
      cases a
      · exact (le_max_left _ _).trans (le_max_left _ _)
      · exact (le_max_right _ _).trans (le_max_left _ _)
      · exact le_max_right _ _
    refine mul_le_mul_of_nonneg_right (add_le_add ?_ ?_) (by norm_num)
    · exact div_le_div_of_nonneg_right hext (by norm_num)
    · cases a'
      · exact (le_max_left sx sy).trans (le_max_left _ sz)
      · exact (le_max_right sx sy).trans (le_max_left _ sz)
      · exact le_max_right _ sz

/-- With enough fuel there is a builder for all bounds. -/
lemma exists_fitBuilder (bounds : Bounds) (offset : Axis → ℚ) {scale : Axis → ℚ}
    (hscale : ∀ a, scale a ≠ 0) (numExtraBytes : UInt16) :
    ∃ n b, ∀ fuel, n ≤ fuel → fitBuilder fuel bounds offset scale numExtraBytes = some b := by
  obtain ⟨nx, rx, hx⟩ := exists_fitOffsetScale (offset .x) bounds.minX bounds.maxX (hscale .x)
  obtain ⟨ny, ry, hy⟩ := exists_fitOffsetScale (offset .y) bounds.minY bounds.maxY (hscale .y)
  obtain ⟨nz, rz, hz⟩ := exists_fitOffsetScale (offset .z) bounds.minZ bounds.maxZ (hscale .z)
  obtain ⟨b, hb⟩ : ∃ b, fitBuilder (nx + ny + nz) bounds offset scale numExtraBytes =
      some b := by
    rw [fitBuilder, hx _ (by omega), hy _ (by omega), hz _ (by omega)]
    exact ⟨_, rfl⟩
  refine ⟨nx + ny + nz, b, fun fuel hfuel => ?_⟩
  rw [← hb, fitBuilder, fitBuilder, hx fuel (by omega), hy fuel (by omega), hz fuel (by omega),
    hx _ (by omega), hy _ (by omega), hz _ (by omega)]

end CopcConverter
