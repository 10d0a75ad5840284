import Mathlib

/-!
# Bitmaps

A set of small natural numbers as the bits of an array of 64-bit words.  The word of a bit is its
number divided by 64, computed with a shift, and its mask within the word is a one shifted by the
remaining six bits; these are the two computations that such code is made of, and the only place
where they are looked at is here.

Outside, a bitmap is a set: membership is that the bit is set, words that are all zero hold nothing,
and inserting a number adds this number and changes no other one, as long as there is a word for it.
The thinning of a node marks the cells of its grid that already have a point in such a bitmap, and
its loop is reasoned about in terms of the set.
-/

namespace Bitmap

/-- The word of a bit. -/
def wordOf (words : Array UInt64) (i : ℕ) : UInt64 := words.getD (i >>> 6) 0

/-- The mask of a bit within its word. -/
def mask (i : ℕ) : UInt64 := 1 <<< UInt64.ofNat (i &&& 63)

/-- A bit is set. -/
def Mem (words : Array UInt64) (i : ℕ) : Prop := (wordOf words i).toNat.testBit (i % 64) = true

/-- The words with one more bit set. -/
def insert (words : Array UInt64) (i : ℕ) : Array UInt64 :=
  words.setIfInBounds (i >>> 6) (wordOf words i ||| mask i)

lemma shiftRight_six (i : ℕ) : i >>> 6 = i / 64 := Nat.shiftRight_eq_div_pow i 6

lemma toNat_mask (i : ℕ) : (mask i).toNat = 2 ^ (i % 64) := by
  have hand : i &&& 63 = i % 64 := Nat.and_two_pow_sub_one_eq_mod i 6
  have hlt : i % 64 < 64 := Nat.mod_lt i (by decide)
  have hamount : (UInt64.ofNat (i % 64)).toNat = i % 64 := by
    rw [UInt64.toNat_ofNat']
    omega
  have hpow : 2 ^ (i % 64) < 2 ^ 64 := Nat.pow_lt_pow_right (by decide) hlt
  rw [mask, hand, UInt64.toNat_shiftLeft, hamount, Nat.mod_mod, Nat.shiftLeft_eq]
  change 1 * 2 ^ (i % 64) % 2 ^ 64 = _
  rw [one_mul, Nat.mod_eq_of_lt hpow]

/-- The test of the mask against the word. -/
lemma and_mask_eq_zero_iff (words : Array UInt64) (i : ℕ) :
    wordOf words i &&& mask i = 0 ↔ ¬ Mem words i := by
  rw [← UInt64.toNat_inj, UInt64.toNat_and, toNat_mask, Nat.and_two_pow, Mem]
  change ((wordOf words i).toNat.testBit (i % 64)).toNat * 2 ^ (i % 64) = 0 ↔ _
  cases (wordOf words i).toNat.testBit (i % 64) <;> simp

/-- Setting a bit of the array sets that bit alone. -/
lemma mem_insert {words : Array UInt64} {i : ℕ} (hi : i < words.size * 64) (j : ℕ) :
    Mem (insert words i) j ↔ j = i ∨ Mem words j := by
  have hword : wordOf (insert words i) j =
      if j / 64 = i / 64 then wordOf words i ||| mask i else wordOf words j := by
    rw [wordOf, insert, shiftRight_six, shiftRight_six, Array.getD_eq_getD_getElem?,
      Array.getElem?_setIfInBounds]
    by_cases h : i / 64 = j / 64
    · rw [if_pos h, if_pos h.symm, if_pos (by omega), Option.getD_some]
    · rw [if_neg h, if_neg (Ne.symm h), wordOf, shiftRight_six, Array.getD_eq_getD_getElem?]
  rw [Mem, hword]
  split_ifs with h
  · have hsame : wordOf words j = wordOf words i := by
      rw [wordOf, wordOf, shiftRight_six, shiftRight_six, h]
    rw [UInt64.toNat_or, toNat_mask, Nat.testBit_or, Nat.testBit_two_pow, Bool.or_eq_true,
      decide_eq_true_eq, Mem, hsame]
    constructor
    · rintro (hbit | hbit)
      · exact Or.inr hbit
      · exact Or.inl (by omega)
    · rintro (rfl | hbit)
      · exact Or.inr rfl
      · exact Or.inl hbit
  · rw [← Mem]
    constructor
    · exact Or.inr
    · rintro (rfl | hbit)
      · exact absurd rfl h
      · exact hbit

@[simp] lemma size_insert (words : Array UInt64) (i : ℕ) :
    (insert words i).size = words.size := Array.size_setIfInBounds

/-- No bit of a zero array is set. -/
lemma not_mem_replicate (n i : ℕ) : ¬ Mem (Array.replicate n 0) i := by
  have hzero : wordOf (Array.replicate n 0) i = 0 := by
    rw [wordOf, Array.getD_eq_getD_getElem?, Array.getElem?_replicate]
    split_ifs <;> rfl
  rw [Mem, hzero]
  simp

end Bitmap
