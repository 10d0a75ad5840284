import CopcConverter.Foundations.Lists
import CopcConverter.Foundations.ZOrder
import CopcConverter.Octree.Axes
import CopcConverter.Octree.NodeMap

/-!
# The order of the Morton codes

`grid_sample` sorts the points of a voxel by a code of their offsets from its corner.  The code
interleaves 21 bits of each offset, which the source spreads with five rounds of shifts and masks;
the rounds are followed with the general lemmas on Z-order.

So the code puts points in Z-order as far as their higher bits do not matter.  The offsets come from
a voxel that may have more than `2 ^ 21` units a side; there points far apart can have one code, and
others come in the wrong order.  The exact condition for two points is that their high bits agree or
compare as the low bits do, and it carries over to the sorted lists; a voxel of `2 ^ 22` units has
two points with one code.
-/

namespace CopcConverter

/-! ## The bits of a code -/

/-- One round of `spread`. -/
lemma spread_round {g v : ℕ} {w shift mask : UInt64} (h : ZOrder.Spread 3 64 21 (2 * g) w.toNat v)
    (hshift : shift.toNat = 2 * g) (hlt : shift.toNat < 64)
    (hmask : ∀ k < 64, mask.toNat.testBit k = ZOrder.placed 3 21 g k) :
    ZOrder.Spread 3 64 21 g ((w ||| (w <<< shift)) &&& mask).toNat v := by
  have hround := h.step (by decide) hmask
  rwa [UInt64.toNat_and, UInt64.toNat_or, UInt64.toNat_shiftLeft, Nat.mod_eq_of_lt hlt, hshift]

/-- The rounds of `spread` end with groups of one bit. -/
lemma spread_spec (v : UInt64) : ZOrder.Spread 3 64 21 1 (spread v).toNat v.toNat := by
  have hstart : ZOrder.Spread 3 64 21 32 (v &&& 0x1FFFFF).toNat v.toNat := by
    intro k hk
    have hsource : ZOrder.source 3 32 k = k := by
      unfold ZOrder.source
      omega
    have hmask : ∀ k < 64, (0x1FFFFF : UInt64).toNat.testBit k = ZOrder.placed 3 21 32 k := by
      decide
    rw [UInt64.toNat_and, Nat.testBit_and, hmask k hk, hsource, Bool.and_comm]
  have h16 : ZOrder.Spread 3 64 21 16 _ v.toNat :=
    @spread_round 16 _ _ 32 0x1F00000000FFFF hstart rfl (by decide) (by decide)
  have h8 : ZOrder.Spread 3 64 21 8 _ v.toNat :=
    @spread_round 8 _ _ 16 0x1F0000FF0000FF h16 rfl (by decide) (by decide)
  have h4 : ZOrder.Spread 3 64 21 4 _ v.toNat :=
    @spread_round 4 _ _ 8 0x100F00F00F00F00F h8 rfl (by decide) (by decide)
  have h2 : ZOrder.Spread 3 64 21 2 _ v.toNat :=
    @spread_round 2 _ _ 4 0x10C30C30C30C30C3 h4 rfl (by decide) (by decide)
  exact @spread_round 1 _ _ 2 0x1249249249249249 h2 rfl (by decide) (by decide)

/-- What `spread` puts at a place. -/
lemma testBit_spread (v : UInt64) {k : ℕ} (hk : k < 64) : (spread v).toNat.testBit k =
    (decide (k % 3 = 0) && decide (k / 3 < 21) && v.toNat.testBit (k / 3)) := by
  have hsource : k % 3 = 0 → ZOrder.source 3 1 k = k / 3 := by
    intro h
    unfold ZOrder.source
    omega
  rw [spread_spec v k hk, ZOrder.placed]
  by_cases h : k % 3 = 0
  · rw [hsource h, decide_eq_true h, decide_eq_true (show k % (3 * 1) < 1 by omega)]
  · rw [decide_eq_false h, decide_eq_false (show ¬ k % (3 * 1) < 1 by omega)]
    rfl

/-- What `spread`, moved up by the rank of an axis, puts at a place of that axis or another one. -/
lemma testBit_spread_shift (v : UInt64) {i r shift : ℕ} (hr : r < 3) (hshift : shift < 3)
    (hk : 3 * i + r < 64) :
    (decide (3 * i + r ≥ shift) && (spread v).toNat.testBit (3 * i + r - shift)) =
      (decide (r = shift) && (decide (i < 21) && v.toNat.testBit i)) := by
  rw [testBit_spread _ (by omega)]
  by_cases h : r = shift
  · subst h
    rw [decide_eq_true (Nat.le_add_left r (3 * i)), Nat.add_sub_cancel, Nat.mul_mod_right,
      Nat.mul_div_cancel_left i (by decide), decide_eq_true rfl, decide_eq_true rfl]
    simp only [Bool.true_and]
  · rw [decide_eq_false h, Bool.false_and]
    rcases Nat.lt_or_ge (3 * i + r) shift with hlt | hge
    · rw [decide_eq_false (not_le.mpr hlt), Bool.false_and]
    · rw [decide_eq_false (show ¬ (3 * i + r - shift) % 3 = 0 by omega), Bool.false_and,
        Bool.false_and, Bool.and_false]

/-! ## Offsets in Z-order -/

/-- The axes by significance: the bit of `z` is above that of `y`, and that above the one of `x`. -/
def Axis.rank : Axis ≃ Fin 3 where
  toFun
    | .x => 0
    | .y => 1
    | .z => 2
  invFun
    | 0 => .x
    | 1 => .y
    | 2 => .z
  left_inv a := by cases a <;> rfl
  right_inv i := by fin_cases i <;> rfl

/-- The offsets of a point from the corner of a voxel, as they are passed to `morton3`. -/
@[ext]
structure Offsets where
  x : UInt32
  y : UInt32
  z : UInt32
  deriving DecidableEq

namespace Offsets

/-- The offset along one axis. -/
def coord (s : Offsets) : Axis → UInt32
  | .x => s.x
  | .y => s.y
  | .z => s.z

/-- The Morton code. -/
def code (s : Offsets) : UInt64 := morton3 s.x s.y s.z

/-- A bit of one of the offsets. -/
def bit (s : Offsets) (i : ℕ) (a : Axis) : Bool := (s.coord a).toNat.testBit i

/-- Z-order: the most significant bit in which the offsets differ decides, with `z` above `y` above
`x` among bits of one significance. -/
def ZBefore (s t : Offsets) : Prop :=
  ∃ i a, s.bit i a = false ∧ t.bit i a = true ∧
    ∀ j c, i < j ∨ i = j ∧ a.rank < c.rank → s.bit j c = t.bit j c

/-- The bits that the code holds. -/
def low (s : Offsets) : Offsets := ⟨s.x &&& 0x1FFFFF, s.y &&& 0x1FFFFF, s.z &&& 0x1FFFFF⟩

/-- The bits that the code leaves out. -/
def high (s : Offsets) : Offsets := ⟨s.x >>> 21, s.y >>> 21, s.z >>> 21⟩

/-- The codes compare as the offsets do: distinct offsets have distinct codes, and the code that
comes first is the one of the offsets that come first. -/
def InOrder (s t : Offsets) : Prop :=
  (s ≠ t → s.code ≠ t.code) ∧ (s.code < t.code ↔ s.ZBefore t) ∧ (t.code < s.code ↔ t.ZBefore s)

/-- The high bits agree, or they compare as the low bits do. -/
def Aligned (s t : Offsets) : Prop :=
  s.high = t.high ∨ s.high.ZBefore t.high ∧ s.low.ZBefore t.low ∨
    t.high.ZBefore s.high ∧ t.low.ZBefore s.low

variable {s t : Offsets}

lemma bit_of_ge {i : ℕ} (hi : 32 ≤ i) (a : Axis) : s.bit i a = false :=
  Nat.testBit_eq_false_of_lt ((s.coord a).toNat_lt.trans_le (Nat.pow_le_pow_right two_pos hi))

/-- Offsets are given by their bits. -/
lemma eq_of_bit (h : s.bit = t.bit) : s = t := by
  have hcoord : ∀ a, s.coord a = t.coord a := fun a =>
    UInt32.toNat_inj.mp (Nat.eq_of_testBit_eq fun i => congrFun (congrFun h i) a)
  exact Offsets.ext (hcoord .x) (hcoord .y) (hcoord .z)

lemma bit_low (s : Offsets) : s.low.bit = ZOrder.low 21 s.bit := by
  have hmask : ∀ i, (0x1FFFFF : UInt32).toNat.testBit i = decide (i < 21) := by
    intro i
    rw [show (0x1FFFFF : UInt32).toNat = 2 ^ 21 - 1 from rfl, Nat.testBit_two_pow_sub_one]
  funext i a
  have hcoord : s.low.coord a = s.coord a &&& 0x1FFFFF := by cases a <;> rfl
  rw [bit, hcoord, UInt32.toNat_and, Nat.testBit_and, hmask, Bool.and_comm]
  rfl

lemma bit_high (s : Offsets) : s.high.bit = ZOrder.high 21 s.bit := by
  funext i a
  have hcoord : s.high.coord a = s.coord a >>> 21 := by cases a <;> rfl
  rw [bit, hcoord, UInt32.toNat_shiftRight, Nat.testBit_shiftRight, Nat.add_comm]
  rfl

/-- The code holds the low bits of the offsets in turn. -/
lemma interleaves_code (s : Offsets) : ZOrder.Interleaves Axis.rank s.code.toNat s.low.bit := by
  intro i a
  have hword : s.code.toNat = (spread s.x.toUInt64).toNat <<< 0 |||
      ((spread s.y.toUInt64).toNat <<< 1) % 2 ^ 64 |||
        ((spread s.z.toUInt64).toNat <<< 2) % 2 ^ 64 := rfl
  have hrank := (Axis.rank a).isLt
  rw [bit_low, ZOrder.low]
  rcases Nat.lt_or_ge (3 * i + (Axis.rank a : ℕ)) 64 with hk | hk
  · rw [hword, Nat.testBit_or, Nat.testBit_or, Nat.testBit_mod_two_pow, Nat.testBit_mod_two_pow,
      Nat.testBit_shiftLeft, Nat.testBit_shiftLeft, Nat.testBit_shiftLeft, decide_eq_true hk,
      Bool.true_and, Bool.true_and, testBit_spread_shift _ hrank (by decide) hk,
      testBit_spread_shift _ hrank (by decide) hk, testBit_spread_shift _ hrank (by decide) hk]
    cases a
    · exact (Bool.or_false _).trans (Bool.or_false _)
    · exact Bool.or_false _
    · rfl
  · have hcode : s.code.toNat < 2 ^ (3 * i + (Axis.rank a : ℕ)) :=
      s.code.toNat_lt.trans_le (Nat.pow_le_pow_right two_pos hk)
    rw [Nat.testBit_eq_false_of_lt hcode, decide_eq_false (by omega), Bool.false_and]

/-! ## When the codes compare as the offsets do -/

lemma zBefore_iff : s.ZBefore t ↔ ZOrder.Less Axis.rank s.bit t.bit := Iff.rfl

/-- Offsets are in Z-order as their full codes are. -/
lemma zBefore_iff_encode : s.ZBefore t ↔
    ZOrder.encode Axis.rank 32 s.bit < ZOrder.encode Axis.rank 32 t.bit :=
  ((ZOrder.interleaves_encode Axis.rank fun _ a hi => bit_of_ge hi a).lt_iff
    (ZOrder.interleaves_encode Axis.rank fun _ a hi => bit_of_ge hi a)).symm

lemma ZBefore.asymm (h : s.ZBefore t) : ¬ t.ZBefore s := by
  rw [zBefore_iff_encode] at h ⊢
  exact Nat.lt_asymm h

/-- Of two different offsets, one comes first. -/
lemma zBefore_or (h : s ≠ t) : s.ZBefore t ∨ t.ZBefore s := by
  rw [zBefore_iff_encode, zBefore_iff_encode]
  refine Nat.lt_or_gt_of_ne fun heq => h (eq_of_bit ?_)
  exact ((ZOrder.interleaves_encode Axis.rank fun _ a hi => bit_of_ge hi a).eq_iff
    (ZOrder.interleaves_encode Axis.rank fun _ a hi => bit_of_ge hi a)).mp heq

/-- The codes compare the low bits. -/
lemma code_lt_iff : s.code < t.code ↔ s.low.ZBefore t.low := by
  rw [UInt64.lt_iff_toNat_lt]
  exact s.interleaves_code.lt_iff t.interleaves_code

lemma code_eq_iff : s.code = t.code ↔ s.low = t.low := by
  rw [← UInt64.toNat_inj, s.interleaves_code.eq_iff t.interleaves_code]
  exact ⟨eq_of_bit, fun h => h ▸ rfl⟩

/-- The high bits go first. -/
lemma zBefore_iff_split : s.ZBefore t ↔
    s.high.ZBefore t.high ∨ s.high = t.high ∧ s.low.ZBefore t.low := by
  rw [zBefore_iff, ZOrder.less_iff_split 21, ← bit_high, ← bit_high, ← bit_low, ← bit_low]
  refine or_congr Iff.rfl (and_congr_left' ⟨eq_of_bit, fun h => h ▸ rfl⟩)

lemma eq_iff_split : s = t ↔ s.high = t.high ∧ s.low = t.low := by
  constructor
  · rintro rfl
    exact ⟨rfl, rfl⟩
  · rintro ⟨hhigh, hlow⟩
    by_contra hne
    have hirrefl : ¬ s.low.ZBefore s.low := fun h => h.asymm h
    have hirrefl' : ¬ s.high.ZBefore s.high := fun h => h.asymm h
    rcases zBefore_or hne with h | h
    · rw [zBefore_iff_split, ← hhigh, ← hlow] at h
      exact h.elim hirrefl' fun h => hirrefl h.2
    · rw [zBefore_iff_split, ← hhigh, ← hlow] at h
      exact h.elim hirrefl' fun h => hirrefl h.2

/-- The codes of two offsets compare as the offsets do exactly when the high bits, which the code
leaves out, do not speak against the low ones. -/
lemma inOrder_iff : s.InOrder t ↔ s.Aligned t := by
  unfold InOrder Aligned
  rw [Ne, Ne, code_eq_iff, code_lt_iff, code_lt_iff]
  constructor
  · rintro ⟨-, hst, hts⟩
    by_cases hhigh : s.high = t.high
    · exact Or.inl hhigh
    · rcases zBefore_or hhigh with h | h
      · exact Or.inr (Or.inl ⟨h, hst.mpr (zBefore_iff_split.mpr (Or.inl h))⟩)
      · exact Or.inr (Or.inr ⟨h, hts.mpr (zBefore_iff_split.mpr (Or.inl h))⟩)
  · rintro (hhigh | ⟨hhigh, hlow⟩ | ⟨hhigh, hlow⟩)
    · have hirrefl : ∀ r : Offsets, ¬ r.ZBefore r := fun r h => h.asymm h
      rw [zBefore_iff_split (s := s), zBefore_iff_split (s := t), hhigh]
      refine ⟨fun hne hlow => hne (eq_iff_split.mpr ⟨hhigh, hlow⟩), ?_, ?_⟩
      · simp [hirrefl]
      · simp [hirrefl]
    · have hst : s.ZBefore t := zBefore_iff_split.mpr (Or.inl hhigh)
      exact ⟨fun _ heq => hlow.asymm (heq ▸ hlow), iff_of_true hlow hst,
        iff_of_false hlow.asymm hst.asymm⟩
    · have hts : t.ZBefore s := zBefore_iff_split.mpr (Or.inl hhigh)
      exact ⟨fun _ heq => hlow.asymm (heq ▸ hlow), iff_of_false hlow.asymm hts.asymm,
        iff_of_true hlow hts⟩

/-- In a voxel of at most `2 ^ 21` units the high bits say nothing. -/
theorem aligned_of_lt (hs : ∀ a, (s.coord a).toNat < 2 ^ 21)
    (ht : ∀ a, (t.coord a).toNat < 2 ^ 21) :
    s.Aligned t := by
  have hzero : ∀ r : Offsets, (∀ a, (r.coord a).toNat < 2 ^ 21) →
      ∀ i a, r.high.bit i a = false := by
    intro r hr i a
    rw [bit_high]
    exact Nat.testBit_eq_false_of_lt
      ((hr a).trans_le (Nat.pow_le_pow_right two_pos (Nat.le_add_left 21 i)))
  refine Or.inl (eq_of_bit ?_)
  funext i a
  rw [hzero s hs, hzero t ht]

end Offsets

/-! ## The order of the points of a voxel -/

/-- The offsets of a point. -/
def SampleGrid.offsets (g : SampleGrid) (p : RawPoint) : Offsets :=
  let d (v : Int32) (origin : ℤ) : UInt32 := UInt32.ofNat (max (v.toInt - origin) 0).toNat
  ⟨d p.x g.originX, d p.y g.originY, d p.z g.originZ⟩

lemma SampleGrid.mortonKey_eq (g : SampleGrid) (p : RawPoint) :
    g.mortonKey p = (g.offsets p).code := rfl

/-- **The Morton codes put offsets in Z-order exactly when their high bits allow it.**  For any two
offsets, the codes compare as the offsets do exactly when the bits from 21 on agree or compare as
the bits below.  If that is so for all points of a voxel, they are sorted in Z-order. -/
theorem morton3_inOrder_iff (s t : Offsets) : (s.InOrder t ↔ s.Aligned t) ∧
    ∀ (g : SampleGrid) (pts : List (ℕ × RawPoint)),
      (∀ p ∈ pts, ∀ q ∈ pts, (g.offsets p.2).Aligned (g.offsets q.2)) →
      (pts.mergeSort fun p q => decide (g.mortonKey p.2 ≤ g.mortonKey q.2)).Pairwise
        fun p q => ¬ (g.offsets q.2).ZBefore (g.offsets p.2) := by
  refine ⟨Offsets.inOrder_iff, fun g pts haligned => ?_⟩
  have hsorted : (pts.mergeSort fun p q => decide (g.mortonKey p.2 ≤ g.mortonKey q.2)).Pairwise
      fun p q => g.mortonKey p.2 ≤ g.mortonKey q.2 :=
    Lists.pairwise_mergeSort_by
      (fun p q : ℕ × RawPoint => g.mortonKey p.2 ≤ g.mortonKey q.2)
      (fun _ _ _ => UInt64.le_trans) (fun _ _ => UInt64.le_total _ _) pts
  refine hsorted.imp_of_mem fun {p q} hp hq hle hbefore => ?_
  rw [g.mortonKey_eq, g.mortonKey_eq] at hle
  have hpair := haligned p (List.mem_mergeSort.mp hp) q (List.mem_mergeSort.mp hq)
  obtain ⟨-, -, hlt⟩ := Offsets.inOrder_iff.mpr hpair
  exact absurd (hlt.mpr hbefore) (UInt64.not_lt.mpr hle)

/-- A cube of `2 ^ 22` units a side. -/
def wideBuilder : OctreeBuilder ℚ :=
  { unitBuilder with cx := 2 ^ 21, cy := 2 ^ 21, cz := 2 ^ 21, halfsize := 2 ^ 21 }

/-- In that cube, the corner and a point `2 ^ 21` units away have one code. -/
theorem morton3_wraps : let g := wideBuilder.sampleGrid VoxelKey.root
    g.offsets (pointAt 0 0 0) = ⟨0, 0, 0⟩ ∧ g.offsets (pointAt 2097152 0 0) = ⟨2097152, 0, 0⟩ ∧
      ¬ (g.offsets (pointAt 0 0 0)).InOrder (g.offsets (pointAt 2097152 0 0)) := by
  have hcorner : (wideBuilder.sampleGrid VoxelKey.root).offsets (pointAt 0 0 0) = ⟨0, 0, 0⟩ := by
    decide +kernel
  have hfar : (wideBuilder.sampleGrid VoxelKey.root).offsets (pointAt 2097152 0 0) =
      ⟨2097152, 0, 0⟩ := by
    decide +kernel
  refine ⟨hcorner, hfar, fun h => ?_⟩
  rw [hcorner, hfar] at h
  exact h.1 (by decide) (by decide +kernel)

end CopcConverter
