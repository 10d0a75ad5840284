import Mathlib

/-!
# Z-order

The code of a point takes its bits in turn from the coordinates.  Comparing codes is comparing the
points by the most significant bit in which they differ, with the coordinates in a fixed order among
bits of one significance.  This holds for points of any dimension, and as far as the code has room
for the bits: points with the same low bits have the same code.

The second half is about how codes are computed.  The bits of one coordinate are moved to their
places by rounds of a shift and a mask: each round cuts the groups of bits in half and moves the
halves apart.  `Spread` says how far the rounds have come, and one lemma about a round carries it
from the number itself to the bits that are spread out completely.
-/

namespace ZOrder

/-! ## Comparing numbers by their bits -/

/-- The most significant bit in which two numbers differ decides. -/
lemma lt_iff_testBit {m n : ℕ} : m < n ↔ ∃ i, m.testBit i = false ∧ n.testBit i = true ∧
    ∀ j, i < j → m.testBit j = n.testBit j := by
  constructor
  · intro h
    have hne : m ^^^ n ≠ 0 := fun h0 => h.ne (Nat.xor_eq_zero_iff.mp h0)
    obtain ⟨i, hi, habove⟩ := Nat.exists_most_significant_bit hne
    rw [Nat.testBit_xor] at hi
    have hsame : ∀ j, i < j → m.testBit j = n.testBit j := by
      intro j hj
      have hj := habove j hj
      rw [Nat.testBit_xor] at hj
      simpa using hj
    cases hm : m.testBit i with
    | false =>
      rw [hm, Bool.false_xor] at hi
      exact ⟨i, hm, hi, hsame⟩
    | true =>
      rw [hm, Bool.true_xor, Bool.not_eq_true'] at hi
      exact absurd (Nat.lt_of_testBit i hi hm fun j hj => (hsame j hj).symm) (not_lt.mpr h.le)
  · rintro ⟨i, hm, hn, hsame⟩
    exact Nat.lt_of_testBit i hm hn hsame

/-! ## Comparing points -/

section Points

variable {ι : Type} {dims : ℕ} (rank : ι ≃ Fin dims) {f g : ℕ → ι → Bool} {m n : ℕ}

/-- The most significant bit in which two points differ decides; among bits of one significance the
coordinate of the highest rank goes first. -/
def Less (f g : ℕ → ι → Bool) : Prop :=
  ∃ i a, f i a = false ∧ g i a = true ∧
    ∀ j c, i < j ∨ i = j ∧ rank a < rank c → f j c = g j c

/-- The bits of a code are the bits of the coordinates in turn. -/
def Interleaves (code : ℕ) (f : ℕ → ι → Bool) : Prop :=
  ∀ i a, code.testBit (dims * i + rank a) = f i a

/-- Every place of a code belongs to one bit of one coordinate. -/
lemma exists_place [NeZero dims] (p : ℕ) : ∃ i a, dims * i + (rank a : ℕ) = p := by
  refine ⟨p / dims, rank.symm (Fin.ofNat dims p), ?_⟩
  rw [Equiv.apply_symm_apply, Fin.val_ofNat]
  exact Nat.div_add_mod p dims

/-- The places are in the order of the significance and then of the rank. -/
lemma place_lt_iff {i j : ℕ} {a c : ι} : dims * i + (rank a : ℕ) < dims * j + rank c ↔
    i < j ∨ i = j ∧ rank a < rank c := by
  have ha := (rank a).isLt
  have hc := (rank c).isLt
  rcases lt_trichotomy i j with hij | rfl | hij
  · have hstep : dims * (i + 1) ≤ dims * j := Nat.mul_le_mul_left _ hij
    rw [Nat.mul_add_one] at hstep
    exact iff_of_true (by omega) (Or.inl hij)
  · rw [Nat.add_lt_add_iff_left, Fin.val_fin_lt]
    simp
  · have hstep : dims * (j + 1) ≤ dims * i := Nat.mul_le_mul_left _ hij
    rw [Nat.mul_add_one] at hstep
    exact iff_of_false (by omega) (by omega)

variable {rank}

/-- Codes compare as their points. -/
theorem Interleaves.lt_iff [NeZero dims] (hf : Interleaves rank m f)
    (hg : Interleaves rank n g) :
    m < n ↔ Less rank f g := by
  rw [lt_iff_testBit]
  constructor
  · rintro ⟨p, hm, hn, hsame⟩
    obtain ⟨i, a, rfl⟩ := exists_place rank p
    refine ⟨i, a, (hf i a).symm.trans hm, (hg i a).symm.trans hn, fun j c hlt => ?_⟩
    rw [← hf j c, ← hg j c]
    exact hsame _ ((place_lt_iff rank).mpr hlt)
  · rintro ⟨i, a, hfi, hgi, hsame⟩
    refine ⟨dims * i + rank a, (hf i a).trans hfi, (hg i a).trans hgi, fun q hq => ?_⟩
    obtain ⟨j, c, rfl⟩ := exists_place rank q
    rw [hf j c, hg j c]
    exact hsame j c ((place_lt_iff rank).mp hq)

/-- Codes are equal when their points have the same bits. -/
theorem Interleaves.eq_iff [NeZero dims] (hf : Interleaves rank m f)
    (hg : Interleaves rank n g) :
    m = n ↔ f = g := by
  constructor
  · rintro rfl
    funext i a
    rw [← hf i a, ← hg i a]
  · rintro rfl
    refine Nat.eq_of_testBit_eq fun p => ?_
    obtain ⟨i, a, rfl⟩ := exists_place rank p
    rw [hf i a, hg i a]

variable (rank)

/-- The code of a point whose coordinates have bits below a width. -/
def encode [NeZero dims] (width : ℕ) (f : ℕ → ι → Bool) : ℕ :=
  Nat.ofBits fun p : Fin (dims * width) => f (p / dims) (rank.symm (Fin.ofNat dims p))

/-- Without bits from the width on, every bit is in the code. -/
lemma interleaves_encode [NeZero dims] {width : ℕ} (hf : ∀ i a, width ≤ i → f i a = false) :
    Interleaves rank (encode rank width f) f := by
  intro i a
  have ha := (rank a).isLt
  have hpos : 0 < dims := Nat.lt_of_le_of_lt (Nat.zero_le _) ha
  have hdiv : (dims * i + (rank a : ℕ)) / dims = i := by
    rw [Nat.mul_add_div hpos, Nat.div_eq_of_lt ha, Nat.add_zero]
  have hmod : Fin.ofNat dims (dims * i + (rank a : ℕ)) = rank a := by
    apply Fin.ext
    rw [Fin.val_ofNat, Nat.mul_add_mod, Nat.mod_eq_of_lt ha]
  unfold encode
  by_cases hi : i < width
  · have hlt : dims * i + (rank a : ℕ) < dims * width := by
      have hstep : dims * (i + 1) ≤ dims * width := Nat.mul_le_mul_left _ hi
      rw [Nat.mul_add_one] at hstep
      omega
    rw [Nat.testBit_ofBits_lt _ _ hlt]
    simp only [hdiv, hmod, Equiv.symm_apply_apply]
  · have hge : dims * width ≤ dims * i + (rank a : ℕ) :=
      (Nat.mul_le_mul_left dims (not_lt.mp hi)).trans (Nat.le_add_right _ _)
    rw [Nat.testBit_ofBits_ge _ _ hge, hf i a (not_lt.mp hi)]

variable {rank}

/-- The bits of a point from a width on. -/
def high (width : ℕ) (f : ℕ → ι → Bool) : ℕ → ι → Bool := fun i => f (i + width)

/-- The bits of a point below a width. -/
def low (width : ℕ) (f : ℕ → ι → Bool) : ℕ → ι → Bool := fun i a => decide (i < width) && f i a

lemma low_of_lt {width i : ℕ} (h : i < width) : low width f i = f i := by
  funext a
  rw [low, decide_eq_true h, Bool.true_and]

lemma low_of_ge {width i : ℕ} (h : width ≤ i) : low width f i = fun _ => false := by
  funext a
  rw [low, decide_eq_false (not_lt.mpr h), Bool.false_and]

lemma high_of_ge {width i : ℕ} (h : width ≤ i) : high width f (i - width) = f i := by
  rw [high, Nat.sub_add_cancel h]

/-- High bits go first: two points compare by them, and by their low bits when the high ones
agree. -/
lemma less_iff_split (width : ℕ) : Less rank f g ↔
    Less rank (high width f) (high width g) ∨
      high width f = high width g ∧ Less rank (low width f) (low width g) := by
  constructor
  · rintro ⟨i, a, hf, hg, hsame⟩
    rcases Nat.lt_or_ge i width with hi | hi
    · refine Or.inr ⟨?_, i, a, ?_, ?_, fun j c hlt => ?_⟩
      · funext j c
        exact hsame _ c (Or.inl (by omega))
      · rwa [low_of_lt hi]
      · rwa [low_of_lt hi]
      · rw [low, low, hsame j c hlt]
    · refine Or.inl ⟨i - width, a, ?_, ?_, fun j c hlt => hsame _ c (by omega)⟩
      · rwa [high_of_ge hi]
      · rwa [high_of_ge hi]
  · rintro (⟨i, a, hf, hg, hsame⟩ | ⟨hhigh, i, a, hf, hg, hsame⟩)
    · refine ⟨i + width, a, hf, hg, fun j c hlt => ?_⟩
      have hj : width ≤ j := by omega
      rw [← high_of_ge (f := f) hj, ← high_of_ge (f := g) hj]
      exact hsame _ c (by omega)
    · rcases Nat.lt_or_ge i width with hi | hi
      · rw [low_of_lt hi] at hf hg
        refine ⟨i, a, hf, hg, fun j c hlt => ?_⟩
        rcases Nat.lt_or_ge j width with hj | hj
        · have hlow := hsame j c hlt
          rwa [low_of_lt hj, low_of_lt hj] at hlow
        · rw [← high_of_ge (f := f) hj, ← high_of_ge (f := g) hj, hhigh]
      · rw [low_of_ge hi] at hg
        cases hg

end Points

/-! ## Spreading the bits of a coordinate -/

section Spread

variable {dims bits count g w v mask : ℕ}

/-- The bit that is at a place when groups of `g` bits start `dims * g` places apart. -/
def source (dims g k : ℕ) : ℕ := k / (dims * g) * g + k % (dims * g)

/-- A place that holds one of the first `count` bits. -/
def placed (dims count g k : ℕ) : Bool :=
  decide (k % (dims * g) < g) && decide (source dims g k < count)

/-- A word holds the first `count` bits of a number in groups of `g`, and zeros between them. -/
def Spread (dims bits count g w v : ℕ) : Prop :=
  ∀ k < bits, w.testBit k = (placed dims count g k && v.testBit (source dims g k))

/-- A place in a group. -/
lemma placed_of_lt {q r : ℕ} (hdims : 0 < dims) (hr : r < g) :
    source dims g (dims * g * q + r) = q * g + r ∧
      placed dims count g (dims * g * q + r) = decide (q * g + r < count) := by
  have hlt : r < dims * g := hr.trans_le (Nat.le_mul_of_pos_left g hdims)
  have hdiv : (dims * g * q + r) / (dims * g) = q := by
    rw [Nat.mul_add_div (Nat.zero_lt_of_lt hlt), Nat.div_eq_of_lt hlt, Nat.add_zero]
  have hmod : (dims * g * q + r) % (dims * g) = r := by
    rw [Nat.mul_add_mod, Nat.mod_eq_of_lt hlt]
  have hsource : source dims g (dims * g * q + r) = q * g + r := by rw [source, hdiv, hmod]
  refine ⟨hsource, ?_⟩
  rw [placed, hsource, hmod, decide_eq_true hr, Bool.true_and]

/-- A place between two groups. -/
lemma placed_of_ge {q r : ℕ} (hge : g ≤ r) (hlt : r < dims * g) :
    placed dims count g (dims * g * q + r) = false := by
  have hmod : (dims * g * q + r) % (dims * g) = r := by
    rw [Nat.mul_add_mod, Nat.mod_eq_of_lt hlt]
  rw [placed, hmod, decide_eq_false (not_lt.mpr hge), Bool.false_and]

/-- The bit at a place in a group. -/
lemma Spread.testBit_of_lt (h : Spread dims bits count g w v) {k q r : ℕ} (hdims : 0 < dims)
    (hk : k < bits) (heq : k = dims * g * q + r) (hr : r < g) (hcount : q * g + r < count) :
    w.testBit k = v.testBit (q * g + r) := by
  subst heq
  obtain ⟨hsource, hplaced⟩ := @placed_of_lt _ count _ q _ hdims hr
  rw [h _ hk, hsource, hplaced, decide_eq_true hcount, Bool.true_and]

/-- There is no bit between two groups. -/
lemma Spread.testBit_of_ge (h : Spread dims bits count g w v) {k q r : ℕ} (hk : k < bits)
    (heq : k = dims * g * q + r) (hge : g ≤ r) (hlt : r < dims * g) : w.testBit k = false := by
  subst heq
  rw [h _ hk, placed_of_ge hge hlt, Bool.false_and]

/-- One round cuts the groups in half: the upper halves are moved up, and the mask takes away what
stays behind. -/
lemma Spread.step (hdims : 2 ≤ dims) (h : Spread dims bits count (2 * g) w v)
    (hmask : ∀ k < bits, mask.testBit k = placed dims count g k) :
    Spread dims bits count g ((w ||| (w <<< ((dims - 1) * g)) % 2 ^ bits) &&& mask) v := by
  intro k hk
  rw [Nat.testBit_and, Nat.testBit_or, Nat.testBit_mod_two_pow, Nat.testBit_shiftLeft, hmask k hk,
    decide_eq_true hk, Bool.true_and, Bool.and_comm]
  cases hplaced : placed dims count g k with
  | false => rw [Bool.false_and, Bool.false_and]
  | true =>
    rw [Bool.true_and, Bool.true_and]
    obtain ⟨hgroup, hcount⟩ := Bool.and_eq_true_iff.mp hplaced
    rw [decide_eq_true_eq] at hgroup hcount
    obtain ⟨e, rfl⟩ : ∃ e, dims = e + 2 := ⟨dims - 2, by omega⟩
    have hsplit := Nat.div_add_mod k ((e + 2) * g)
    rw [source] at hcount ⊢
    set q := k / ((e + 2) * g)
    set r := k % ((e + 2) * g)
    have hshift : (e + 2 - 1) * g = e * g + g := Nat.succ_mul e g
    rw [hshift]
    obtain ⟨q', hq | hq⟩ := Nat.even_or_odd' q
    · -- a lower half stays in its place, and nothing is moved there
      have hstay : w.testBit k = v.testBit (q * g + r) := by
        have hindex : q * g + r = q' * (2 * g) + r := by rw [hq]; ring
        rw [hindex] at hcount ⊢
        exact h.testBit_of_lt (Nat.succ_pos _) hk (by rw [← hsplit, hq]; ring) (by omega) hcount
      have hmove : (decide (k ≥ e * g + g) && w.testBit (k - (e * g + g))) = false := by
        rcases Nat.lt_or_ge k (e * g + g) with hlt | hge
        · rw [decide_eq_false (not_le.mpr hlt), Bool.false_and]
        · obtain ⟨q'', rfl⟩ : ∃ q'', q' = q'' + 1 := by
            refine ⟨q' - 1, (Nat.sub_add_cancel (Nat.one_le_iff_ne_zero.mpr fun h0 => ?_)).symm⟩
            rw [hq, h0, Nat.mul_zero, Nat.zero_add] at hsplit
            omega
          have heq : k - (e * g + g) = (e + 2) * (2 * g) * q'' + (e * g + 3 * g + r) := by
            rw [← hsplit, hq, Nat.sub_eq_iff_eq_add (by rwa [← hsplit, hq] at hge)]
            ring
          have hwide : (e + 2) * (2 * g) = 2 * (e * g) + 4 * g := by ring
          rw [h.testBit_of_ge (by omega) heq (by omega) (by omega), Bool.and_false]
      rw [hstay, hmove, Bool.or_false]
    · -- the place of an upper half is empty before, and the upper half is moved there
      have hwide : (e + 2) * (2 * g) = 2 * (e * g) + 4 * g := by ring
      have hplace : k = (e + 2) * (2 * g) * q' + (e * g + 2 * g + r) := by
        rw [← hsplit, hq]
        ring
      have hstay : w.testBit k = false :=
        h.testBit_of_ge hk hplace (by omega) (by omega)
      have hmove : w.testBit (k - (e * g + g)) = v.testBit (q * g + r) := by
        have hindex : q * g + r = q' * (2 * g) + (g + r) := by rw [hq]; ring
        rw [hindex] at hcount ⊢
        exact h.testBit_of_lt (Nat.succ_pos _) (by omega) (by omega) (by omega) hcount
      have hge : k ≥ e * g + g := by omega
      rw [hstay, hmove, decide_eq_true hge, Bool.false_or, Bool.true_and]

end Spread

end ZOrder
