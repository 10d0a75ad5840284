import CopcConverter.Octree.Geometry

/-!
# Exact arithmetic

The octree is defined over an arbitrary arithmetic, and what is proved about it does not depend on
rounding.  Some properties do speak of distances, though: that the header encloses the points, that
a stored point lies in its voxel, that a grid resolves the output units.  These are proved for the
arithmetic of rational numbers, in which every operation of the source is exact.

The operations that have no counterpart among the rationals are defined to follow the standard
library: rounding gives a nearest integer, with halves away from zero, and the saturating casts are
the identity on the integers of their range.  The lemmas say how rounding meets bounds; halves make
the difference between the two sides of zero.
-/

namespace CopcConverter

/-- Round to a nearest integer, halves away from zero. -/
def roundHalf (a : ℚ) : ℤ := if 0 ≤ a then ⌊a + 1 / 2⌋ else ⌈a - 1 / 2⌉

lemma round_eq (a : ℚ) : FloatArith.round a = (roundHalf a : ℚ) := by
  change (if 0 ≤ a then ((⌊a + 1 / 2⌋ : ℤ) : ℚ) else ((⌈a - 1 / 2⌉ : ℤ) : ℚ)) = _
  rw [roundHalf]
  split_ifs <;> rfl

/-- The rounded number is at most a half away. -/
lemma abs_roundHalf_sub_le (a : ℚ) : |(roundHalf a : ℚ) - a| ≤ 1 / 2 := by
  rw [roundHalf, abs_le]
  split_ifs
  · have hle := Int.floor_le (a + 1 / 2)
    have hlt := Int.lt_floor_add_one (a + 1 / 2)
    constructor <;> linarith
  · have hle := Int.le_ceil (a - 1 / 2)
    have hlt := Int.ceil_lt_add_one (a - 1 / 2)
    constructor <;> linarith

@[simp] lemma roundHalf_intCast (n : ℤ) : roundHalf n = n := by
  rw [roundHalf]
  split_ifs
  · rw [Int.floor_eq_iff]
    constructor <;> linarith
  · rw [Int.ceil_eq_iff]
    constructor <;> linarith

/-- A number rounds to at most `n` when it is less than a half above it. -/
lemma roundHalf_le_iff {a : ℚ} (ha : 0 ≤ a) (n : ℤ) : roundHalf a ≤ n ↔ a < n + 1 / 2 := by
  rw [roundHalf, if_pos ha, ← Int.lt_add_one_iff, Int.floor_lt]
  push_cast
  constructor <;> intro h <;> linarith

/-- Rounding is symmetric around zero. -/
lemma roundHalf_neg (a : ℚ) : roundHalf (-a) = -roundHalf a := by
  rw [roundHalf, roundHalf]
  rcases lt_trichotomy a 0 with ha | rfl | ha
  · rw [if_pos (by linarith), if_neg (by linarith), ← Int.floor_neg]
    congr 1
    ring
  · norm_num
  · rw [if_neg (by linarith), if_pos ha.le, ← Int.ceil_neg]
    congr 1
    ring

/-- A number rounds to at least `n` when it is less than a half below it, or just a half below it
and positive. -/
lemma le_roundHalf_iff (a : ℚ) (n : ℤ) :
    n ≤ roundHalf a ↔ (n : ℚ) - 1 / 2 < a ∨ ((n : ℚ) - 1 / 2 = a ∧ 0 < n) := by
  rw [roundHalf]
  split_ifs with ha
  · rw [Int.le_floor]
    constructor
    · intro h
      rcases lt_or_eq_of_le (show (n : ℚ) - 1 / 2 ≤ a by linarith) with hlt | heq
      · exact Or.inl hlt
      · have hn : (0 : ℚ) < n := by linarith
        exact Or.inr ⟨heq, by exact_mod_cast hn⟩
    · rintro (h | ⟨h, -⟩) <;> linarith
  · rw [← Int.sub_one_lt_iff, Int.lt_ceil]
    push_cast
    constructor
    · intro h
      exact Or.inl (by linarith)
    · rintro (h | ⟨h, hn⟩)
      · linarith
      · have hn' : (1 : ℚ) ≤ n := by exact_mod_cast hn
        linarith

/-- A number rounds to at most `n` when it is less than a half above it, or just a half above it and
negative. -/
lemma roundHalf_le_iff_or (a : ℚ) (n : ℤ) :
    roundHalf a ≤ n ↔ a < (n : ℚ) + 1 / 2 ∨ (a = (n : ℚ) + 1 / 2 ∧ n < 0) := by
  have hneg : roundHalf a ≤ n ↔ -n ≤ roundHalf (-a) := by
    rw [roundHalf_neg]
    omega
  rw [hneg, le_roundHalf_iff]
  push_cast
  constructor
  · rintro (h | ⟨h, hn⟩)
    · exact Or.inl (by linarith)
    · exact Or.inr ⟨by linarith, by omega⟩
  · rintro (h | ⟨h, hn⟩)
    · exact Or.inl (by linarith)
    · exact Or.inr ⟨by linarith, by omega⟩

/-- The saturating cast of an integer. -/
lemma toI64_intCast (n : ℤ) :
    FloatArith.toI64 (n : ℚ) = max (-2 ^ 63) (min (2 ^ 63 - 1) n) := by
  change max (-2 ^ 63) (min (2 ^ 63 - 1) (if 0 ≤ (n : ℚ) then ⌊(n : ℚ)⌋ else ⌈(n : ℚ)⌉)) = _
  rw [Int.floor_intCast, Int.ceil_intCast, ite_self]

/-- The cast keeps the integers of its range. -/
lemma toI64_of_mem {n : ℤ} (hlo : -2 ^ 63 ≤ n) (hhi : n ≤ 2 ^ 63 - 1) :
    FloatArith.toI64 (n : ℚ) = n := by
  rw [toI64_intCast, min_eq_right hhi, max_eq_right hlo]

end CopcConverter
