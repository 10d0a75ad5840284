import Mathlib

/-!
# Binary floating-point numbers by their bits

A 64-bit floating-point number as its bit pattern: sign, 11 bits of exponent, 52 bits of fraction.
Only what is done to numbers that are carried through the conversion is here, and that is little:
they are compared, they are converted from integers with rounding to nearest even, and rounded back
to integers with saturation.  The coordinates, with which the octree computes, are not among them.

A number that is not NaN has a place on the number line, its `key`, which is an integer that grows
with the number and is zero for both zeros; the comparisons of the standard are comparisons of keys,
and NaN takes part in none of them.  Integers up to `2 ^ 53` are converted exactly, so that
statistics that hold integers survive being merged as floating-point numbers.
-/

/-- A 64-bit floating-point number. -/
structure F64 where
  bits : UInt64
  deriving DecidableEq, Repr, Inhabited

namespace F64

/-- The bits without the sign. -/
def magnitude (a : F64) : ℕ := a.bits.toNat % 2 ^ 63

def isNegative (a : F64) : Bool := 2 ^ 63 ≤ a.bits.toNat

def exponent (a : F64) : ℕ := a.magnitude / 2 ^ 52

def fraction (a : F64) : ℕ := a.magnitude % 2 ^ 52

def isFinite (a : F64) : Bool := a.exponent ≠ 0x7FF

def isNaN (a : F64) : Bool := a.exponent = 0x7FF ∧ a.fraction ≠ 0

def nan : F64 := ⟨0x7FF8000000000000⟩

def infinity : F64 := ⟨0x7FF0000000000000⟩

def negInfinity : F64 := ⟨0xFFF0000000000000⟩

/-- The position on the number line, for numbers that are not NaN. -/
def key (a : F64) : ℤ := if a.isNegative then -a.magnitude else a.magnitude

/-- Equality of numbers: NaN equals nothing and the two zeros are equal. -/
def eq (a b : F64) : Bool := !a.isNaN && !b.isNaN && a.key = b.key

/-- The order of numbers, in which NaN takes no part. -/
def lt (a b : F64) : Bool := !a.isNaN && !b.isNaN && a.key < b.key

/-- At most as large as another number; NaN is not. -/
def le (a b : F64) : Bool := !a.isNaN && !b.isNaN && a.key ≤ b.key

/-- The largest finite number. -/
def maxValue : F64 := ⟨0x7FEFFFFFFFFFFFFF⟩

/-- The smallest finite number. -/
def minValue : F64 := ⟨0xFFEFFFFFFFFFFFFF⟩

/-- The bits of the number nearest to a natural number, ties to even. -/
def ofNatBits (n : ℕ) : ℕ :=
  if n = 0 then 0
  else
    let e := n.log2
    if e ≤ 52 then (e + 1022) * 2 ^ 52 + n * 2 ^ (52 - e)
    else
      let s := e - 52
      let q := n / 2 ^ s
      let r := n % 2 ^ s
      -- a carry out of the fraction raises the exponent
      let up := 2 ^ (s - 1) < r ∨ (r = 2 ^ (s - 1) ∧ q % 2 = 1)
      (e + 1022) * 2 ^ 52 + if up then q + 1 else q

def ofNat (n : ℕ) : F64 := ⟨UInt64.ofNat (ofNatBits n)⟩

def ofInt (i : ℤ) : F64 :=
  if i < 0 then ⟨UInt64.ofNat (2 ^ 63 + ofNatBits i.natAbs)⟩ else ofNat i.natAbs

/-- The distance of a finite number from zero, rounded to an integer, halves upwards. -/
def roundAbs (a : F64) : ℕ :=
  let m := if a.exponent = 0 then a.fraction else 2 ^ 52 + a.fraction
  let e := max a.exponent 1
  if 1075 ≤ e then m * 2 ^ (e - 1075)
  else (m + 2 ^ (1075 - e - 1)) / 2 ^ (1075 - e)

/-- Round and cast to an unsigned 64-bit integer. -/
def roundToU64 (a : F64) : UInt64 :=
  if a.isNaN then 0
  else if a.isNegative then 0
  else if a.isFinite then UInt64.ofNat (min (2 ^ 64 - 1) a.roundAbs)
  else UInt64.ofNat (2 ^ 64 - 1)

/-- Round and cast to a signed 64-bit integer, given by its two's complement. -/
def roundToI64 (a : F64) : UInt64 :=
  if a.isNaN then 0
  else if a.isNegative then
    let r := if a.isFinite then min (2 ^ 63) a.roundAbs else 2 ^ 63
    UInt64.ofNat (2 ^ 64 - r)
  else UInt64.ofNat (if a.isFinite then min (2 ^ 63 - 1) a.roundAbs else 2 ^ 63 - 1)

example : ofNat 1 = ⟨0x3FF0000000000000⟩ ∧ (ofNat (2 ^ 53 + 1)) = ofNat (2 ^ 53) ∧
    (ofInt (-5000)).roundToI64 = UInt64.ofNat (2 ^ 64 - 5000) := by decide +kernel

end F64

/-- The smaller of two numbers; the other one when one is NaN. -/
def F64.min (a b : F64) : F64 := if a.isNaN then b else if b.lt a then b else a

/-- The larger of two numbers; the other one when one is NaN. -/
def F64.max (a b : F64) : F64 := if a.isNaN then b else if a.lt b then b else a

namespace F64

lemma lt_iff {a b : F64} (ha : a.isNaN = false) (hb : b.isNaN = false) :
    a.lt b = true ↔ a.key < b.key := by
  simp [lt, ha, hb]

lemma le_iff {a b : F64} :
    a.le b = true ↔ a.isNaN = false ∧ b.isNaN = false ∧ a.key ≤ b.key := by
  simp [le, and_assoc]

/-- The smaller of two numbers that are not NaN comes first on the number line. -/
lemma key_min {a b : F64} (ha : a.isNaN = false) (hb : b.isNaN = false) :
    (F64.min a b).isNaN = false ∧ (F64.min a b).key = Min.min a.key b.key := by
  rw [F64.min, if_neg (by simp [ha])]
  split_ifs with h
  · rw [lt_iff hb ha] at h
    exact ⟨hb, (min_eq_right h.le).symm⟩
  · rw [lt_iff hb ha, not_lt] at h
    exact ⟨ha, (min_eq_left h).symm⟩

/-- The larger of two numbers that are not NaN comes last on the number line. -/
lemma key_max {a b : F64} (ha : a.isNaN = false) (hb : b.isNaN = false) :
    (F64.max a b).isNaN = false ∧ (F64.max a b).key = Max.max a.key b.key := by
  rw [F64.max, if_neg (by simp [ha])]
  split_ifs with h
  · rw [lt_iff ha hb] at h
    exact ⟨hb, (max_eq_right h.le).symm⟩
  · rw [lt_iff ha hb, not_lt] at h
    exact ⟨ha, (max_eq_left h).symm⟩

lemma isNaN_of_isFinite {a : F64} (ha : a.isFinite = true) : a.isNaN = false := by
  have hexp : a.exponent ≠ 0x7FF := of_decide_eq_true ha
  simp [isNaN, hexp]

/-- The largest finite magnitude is followed by that of infinity, and then NaN. -/
lemma magnitude_le_or {a : F64} (ha : a.isNaN = false) :
    a.magnitude ≤ 0x7FEFFFFFFFFFFFFF ∨ a.magnitude = 0x7FF0000000000000 := by
  have hlt : a.magnitude < 2 ^ 63 := Nat.mod_lt _ (by norm_num)
  have hnan : ¬ (a.magnitude / 2 ^ 52 = 0x7FF ∧ a.magnitude % 2 ^ 52 ≠ 0) := by
    exact of_decide_eq_false ha
  omega

/-- Only infinity is above the largest finite number. -/
lemma key_le_or {a : F64} (ha : a.isNaN = false) : a.key ≤ maxValue.key ∨ a = infinity := by
  have hmax : maxValue.key = 0x7FEFFFFFFFFFFFFF := by decide
  have hmag : a.magnitude = a.bits.toNat % 2 ^ 63 := rfl
  rw [hmax, key, isNegative]
  split_ifs with hneg
  · omega
  · rcases magnitude_le_or ha with h | h
    · omega
    · rw [decide_eq_true_eq] at hneg
      have hbits : a.bits = infinity.bits := UInt64.toNat_inj.mp (by
        change a.bits.toNat = 0x7FF0000000000000
        omega)
      exact Or.inr (congrArg F64.mk hbits)

/-- Only negative infinity is below the smallest finite number. -/
lemma le_key_or {a : F64} (ha : a.isNaN = false) : minValue.key ≤ a.key ∨ a = negInfinity := by
  have hmin : minValue.key = -0x7FEFFFFFFFFFFFFF := by decide
  have hmag : a.magnitude = a.bits.toNat % 2 ^ 63 := rfl
  have hlt : a.bits.toNat < 2 ^ 64 := a.bits.toNat_lt
  rw [hmin, key, isNegative]
  split_ifs with hneg
  · rcases magnitude_le_or ha with h | h
    · omega
    · rw [decide_eq_true_eq] at hneg
      have hbits : a.bits = negInfinity.bits := UInt64.toNat_inj.mp (by
        change a.bits.toNat = 0xFFF0000000000000
        omega)
      exact Or.inr (congrArg F64.mk hbits)
  · omega

/-! ## Integers that are represented exactly -/

/-- The sign and the magnitude of a position on the number line. -/
lemma natAbs_key (a : F64) : a.key.natAbs = a.magnitude := by
  rw [key]
  split_ifs <;> omega

/-- The fraction of a number up to `2 ^ 53`, with its leading one. -/
lemma mantissa_bounds {n : ℕ} (hn : n ≠ 0) (he : n.log2 ≤ 52) :
    2 ^ 52 ≤ n * 2 ^ (52 - n.log2) ∧ n * 2 ^ (52 - n.log2) < 2 ^ 53 := by
  have hlow : 2 ^ n.log2 ≤ n := Nat.log2_self_le hn
  have hhigh : n < 2 ^ (n.log2 + 1) := Nat.lt_log2_self
  have hpow : 2 ^ n.log2 * 2 ^ (52 - n.log2) = 2 ^ 52 := by
    rw [← pow_add, Nat.add_sub_cancel' he]
  constructor
  · calc 2 ^ 52 = 2 ^ n.log2 * 2 ^ (52 - n.log2) := hpow.symm
      _ ≤ n * 2 ^ (52 - n.log2) := Nat.mul_le_mul_right _ hlow
  · calc n * 2 ^ (52 - n.log2) < 2 ^ (n.log2 + 1) * 2 ^ (52 - n.log2) :=
          Nat.mul_lt_mul_of_pos_right hhigh (by positivity)
      _ = 2 ^ 53 := by rw [pow_succ, mul_right_comm, hpow, ← pow_succ]

/-- The exponent and the fraction of an integer below `2 ^ 53`. -/
lemma ofNatBits_parts {n : ℕ} (hn : n ≠ 0) (he : n.log2 ≤ 52) :
    ofNatBits n / 2 ^ 52 = n.log2 + 1023 ∧
      2 ^ 52 + ofNatBits n % 2 ^ 52 = n * 2 ^ (52 - n.log2) := by
  obtain ⟨hlow, hhigh⟩ := mantissa_bounds hn he
  have hbits : ofNatBits n = (n.log2 + 1022) * 2 ^ 52 + n * 2 ^ (52 - n.log2) := by
    rw [ofNatBits, if_neg hn, if_pos he]
  omega

/-- Integers up to `2 ^ 53` are rounded to themselves. -/
lemma roundAbs_of_magnitude {a : F64} {n : ℕ} (hn : n ≤ 2 ^ 53) (h : a.magnitude = ofNatBits n) :
    a.isFinite = true ∧ a.roundAbs = n := by
  rcases Nat.eq_zero_or_pos n with rfl | hpos
  · have hzero : a.magnitude = 0 := h
    have he : a.exponent = 0 := by rw [exponent, hzero, Nat.zero_div]
    have hm : a.fraction = 0 := by rw [fraction, hzero, Nat.zero_mod]
    refine ⟨by rw [isFinite, he]; rfl, ?_⟩
    unfold roundAbs
    simp only
    rw [he, hm, if_pos rfl, if_neg (by omega), Nat.zero_add]
    exact Nat.div_eq_of_lt (Nat.pow_lt_pow_right (by omega) (by omega))
  have hexp : n.log2 ≤ 53 := (Nat.log2_lt hpos.ne').mpr (by omega) |> Nat.lt_succ_iff.mp
  rcases hexp.lt_or_eq with hlt | heq
  · obtain ⟨hquot, hrem⟩ := ofNatBits_parts hpos.ne' (by omega : n.log2 ≤ 52)
    have he : a.exponent = n.log2 + 1023 := by rw [exponent, h, hquot]
    have hm : 2 ^ 52 + a.fraction = n * 2 ^ (52 - n.log2) := by rw [fraction, h, hrem]
    refine ⟨by rw [isFinite, he, decide_eq_true_eq]; omega, ?_⟩
    unfold roundAbs
    simp only
    rw [he, if_neg (Nat.succ_ne_zero _), hm, max_eq_left (Nat.le_add_left 1 _)]
    split_ifs with htop
    · obtain htwo : n.log2 = 52 := by omega
      rw [htwo]
      omega
    · obtain ⟨s, hs⟩ : ∃ s, 52 - n.log2 = s + 1 := ⟨51 - n.log2, by omega⟩
      have hs' : 1075 - (n.log2 + 1023) = s + 1 := by omega
      rw [hs, hs', Nat.add_sub_cancel, Nat.add_comm, Nat.add_mul_div_right _ _ (by positivity),
        Nat.div_eq_of_lt (Nat.pow_lt_pow_succ (by norm_num)), Nat.zero_add]
  · have htop : n = 2 ^ 53 := by
      have hlow := Nat.log2_self_le hpos.ne'
      rw [heq] at hlow
      omega
    have hmag : a.magnitude = 0x4340000000000000 := by rw [h, htop]; decide +kernel
    have he : a.exponent = 0x434 := by rw [exponent, hmag]; norm_num
    have hm : a.fraction = 0 := by rw [fraction, hmag]; norm_num
    refine ⟨by rw [isFinite, he]; rfl, ?_⟩
    rw [roundAbs, he, hm, htop]
    rfl

lemma ofNatBits_lt {n : ℕ} (hn : n ≤ 2 ^ 53) : ofNatBits n < 2 ^ 63 := by
  rcases Nat.eq_zero_or_pos n with rfl | hpos
  · decide
  rcases hn.lt_or_eq with hlt | rfl
  · obtain ⟨hquot, -⟩ := ofNatBits_parts hpos.ne'
      (Nat.lt_succ_iff.mp ((Nat.log2_lt hpos.ne').mpr hlt))
    have hlog : n.log2 < 53 := (Nat.log2_lt hpos.ne').mpr hlt
    omega
  · decide +kernel

/-- Only zero is represented by zero bits. -/
lemma ofNatBits_pos {n : ℕ} (hn : n ≤ 2 ^ 53) (hpos : n ≠ 0) : 0 < ofNatBits n := by
  rcases hn.lt_or_eq with hlt | rfl
  · obtain ⟨hquot, -⟩ := ofNatBits_parts hpos (Nat.lt_succ_iff.mp ((Nat.log2_lt hpos).mpr hlt))
    omega
  · decide +kernel

lemma key_ofNat {n : ℕ} (hn : n ≤ 2 ^ 53) : (ofNat n).key = ofNatBits n := by
  have hlt := ofNatBits_lt hn
  have hbits : (UInt64.ofNat (ofNatBits n)).toNat = ofNatBits n :=
    UInt64.toNat_ofNat_of_lt' (hlt.trans (by decide))
  rw [key, isNegative, magnitude, ofNat, hbits, if_neg (by simpa using hlt), Nat.mod_eq_of_lt hlt]

lemma key_ofInt {i : ℤ} (hi : i.natAbs ≤ 2 ^ 53) :
    (ofInt i).key = if i < 0 then -(ofNatBits i.natAbs : ℤ) else ofNatBits i.natAbs := by
  rw [ofInt]
  split_ifs with hneg
  · have hlt := ofNatBits_lt hi
    have hbits : (UInt64.ofNat (2 ^ 63 + ofNatBits i.natAbs)).toNat =
        2 ^ 63 + ofNatBits i.natAbs := UInt64.toNat_ofNat_of_lt' (by
          change _ < 2 ^ 64
          omega)
    rw [key, isNegative, magnitude, hbits, if_pos (by simp), Nat.add_mod_left,
      Nat.mod_eq_of_lt hlt]
  · exact key_ofNat hi

/-- The number is the integer `i`, which is represented exactly. -/
def IsInt (a : F64) (i : ℤ) : Prop := i.natAbs ≤ 2 ^ 53 ∧ a.key = (ofInt i).key

/-- What a number that is an integer looks like. -/
lemma IsInt.parts {a : F64} {i : ℤ} (h : a.IsInt i) : a.isFinite = true ∧
    a.roundAbs = i.natAbs ∧ a.isNaN = false ∧ (i < 0 → a.isNegative = true) ∧
    (0 < i → a.isNegative = false) := by
  obtain ⟨hi, hkey⟩ := h
  rw [key_ofInt hi] at hkey
  have hmag : a.magnitude = ofNatBits i.natAbs := by
    rw [← natAbs_key, hkey]
    split_ifs <;> omega
  obtain ⟨hfinite, habs⟩ := roundAbs_of_magnitude hi hmag
  refine ⟨hfinite, habs, isNaN_of_isFinite hfinite, fun hneg => ?_, fun hpos => ?_⟩
  · have hbits := ofNatBits_pos hi (by omega)
    rw [if_pos hneg, key] at hkey
    split_ifs at hkey with hsign
    · exact hsign
    · omega
  · have hbits := ofNatBits_pos hi (by omega)
    rw [if_neg (by omega), key] at hkey
    split_ifs at hkey with hsign
    · omega
    · exact Bool.eq_false_of_not_eq_true hsign

/-- An integer that is not negative survives the cast to an unsigned number. -/
lemma roundToU64_of_isInt {a : F64} {n : ℕ} (h : a.IsInt n) :
    a.roundToU64.toNat = n := by
  obtain ⟨hfinite, habs, hnan, -, hpos⟩ := h.parts
  have hn : n ≤ 2 ^ 53 := by simpa using h.1
  rw [Int.natAbs_natCast] at habs
  rw [roundToU64, hnan, hfinite, habs]
  rcases Nat.eq_zero_or_pos n with rfl | hn0
  · simp only [Bool.false_eq_true, if_false, if_true]
    split_ifs <;> rfl
  · rw [hpos (by omega)]
    simp only [Bool.false_eq_true, if_false, if_true]
    rw [min_eq_right (by omega)]
    exact UInt64.toNat_ofNat_of_lt' (hn.trans_lt (by decide))

/-- An integer survives the cast to a signed number. -/
lemma roundToI64_of_isInt {a : F64} {i : ℤ} (h : a.IsInt i) : a.roundToI64.toInt64.toInt = i := by
  obtain ⟨hfinite, habs, hnan, hneg, hpos⟩ := h.parts
  have hi : i.natAbs ≤ 2 ^ 53 := h.1
  have hcast : ∀ n : ℕ, (UInt64.ofNat n).toInt64.toInt = (n : ℤ).bmod (2 ^ 64) := by
    intro n
    change (UInt64.ofNat n).toBitVec.toInt = _
    rw [BitVec.toInt_eq_toNat_bmod, UInt64.toNat_toBitVec, UInt64.toNat_ofNat', Int.natCast_emod]
    exact Int.emod_bmod _ _
  rw [roundToI64, hnan, hfinite, habs]
  simp only [Bool.false_eq_true, if_false, if_true]
  split_ifs with hsign
  · have hle : i ≤ 0 := by
      by_contra hgt
      rw [hpos (by omega)] at hsign
      cases hsign
    rw [min_eq_right (by omega), hcast]
    rcases hle.lt_or_eq with hlt | rfl
    · rw [Int.bmod]
      omega
    · rfl
  · have hge : 0 ≤ i := by
      by_contra hlt
      exact hsign (hneg (by omega))
    rw [min_eq_right (by omega), hcast, Int.bmod]
    omega

end F64
