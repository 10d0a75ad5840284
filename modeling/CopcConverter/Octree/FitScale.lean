import CopcConverter.Octree.FromScan
import CopcConverter.Validate.CrsAgreement

/-!
# When fitting ends

The offset and the scale of the first file are fitted to the merged bounds, axis after axis.  The
scale is doubled until both bounds are representable, in a loop that has no other end.  It ends for
every scale but zero: each round halves the numbers that have to fit, and a scale of zero stays zero
while the quotients by it are not numbers.

When all three calls return, each returns the least fit: the scale is the least multiple by a power
of two that works, and nothing changes when the range fitted already.  Neither the scan nor the
validation looks at the scale, so a file with a zero scale gets that far, and the conversion never
comes back from fitting it.
-/

namespace CopcConverter

/-- The result of fitting: it fits, its scale is the least multiple by a power of two that does with
its offset, and nothing changes when the range fitted before. -/
structure LeastFit (offset scale min max : ℚ) (r : ℚ × ℚ × Bool) : Prop where
  fits : fits min max r.1 r.2.1 = true
  least : ∃ n : ℕ, r.2.1 = scale * 2 ^ n ∧
    ∀ m < n, CopcConverter.fits min max r.1 (scale * 2 ^ m) = false
  unchanged : CopcConverter.fits min max offset scale = true → r = (offset, scale, false)

/-- Whatever fitting returns is the least fit. -/
lemma leastFit_of_fitOffsetScale {fuel : ℕ} {offset scale min max : ℚ} {r : ℚ × ℚ × Bool}
    (h : fitOffsetScale fuel offset scale min max = some r) :
    LeastFit offset scale min max r := by
  obtain ⟨s', hs', rfl⟩ := Option.map_eq_some_iff.mp h
  obtain ⟨hfits, n, hn, hleast⟩ := doubleScale_eq_some hs'
  refine ⟨hfits, ⟨n, hn, hleast⟩, fun hwas => ?_⟩
  rw [if_pos hwas] at hs' ⊢
  have hsame : s' = scale := by
    cases fuel with
    | zero =>
      rw [doubleScale, if_pos hwas] at hs'
      exact (Option.some.inj hs').symm
    | succ fuel =>
      rw [doubleScale, if_pos hwas] at hs'
      exact (Option.some.inj hs').symm
  rw [hsame, decide_eq_false (not_not_intro rfl)]

/-- A zero scale stays zero and never fits. -/
lemma scale_ne_zero_of_fitOffsetScale {fuel : ℕ} {offset scale min max : ℚ} {r : ℚ × ℚ × Bool}
    (h : fitOffsetScale fuel offset scale min max = some r) : scale ≠ 0 := by
  obtain ⟨hfits, ⟨n, hn, -⟩, -⟩ := leastFit_of_fitOffsetScale h
  rw [fits, Bool.and_eq_true, decide_eq_true_eq] at hfits
  rintro rfl
  exact hfits.1 (by rw [hn, zero_mul])

section Calls

variable (first : FileGeometry) (rest : List FileGeometry) (numExtraBytes : UInt16)

/-- The merged bounds of all files. -/
def mergedBounds (files : List FileGeometry) : Bounds :=
  files.foldl (fun s f => s.merge f.bounds) Bounds.empty

/-- All three calls return, and each returns the least fit. -/
def CallsReturn : Prop :=
  (∃ n, ∀ fuel, n ≤ fuel → ∃ r, fromScan fuel (first :: rest) numExtraBytes = some r) ∧
    ∀ a, ∃ n r, LeastFit (first.offset a) (first.scale a) ((mergedBounds (first :: rest)).lo a)
      ((mergedBounds (first :: rest)).hi a) r ∧ ∀ fuel, n ≤ fuel →
        fitOffsetScale fuel (first.offset a) (first.scale a)
          ((mergedBounds (first :: rest)).lo a) ((mergedBounds (first :: rest)).hi a) = some r

/-- The calls return exactly when the first file has no zero scale. -/
theorem fitCalls_return_iff :
    CallsReturn first rest numExtraBytes ↔ ∀ a, first.scale a ≠ 0 := by
  constructor
  · rintro ⟨-, hcalls⟩ a
    obtain ⟨n, r, -, hr⟩ := hcalls a
    exact scale_ne_zero_of_fitOffsetScale (hr n le_rfl)
  · intro hscale
    constructor
    · obtain ⟨n, b, hb⟩ := exists_fitBuilder (mergedBounds (first :: rest)) first.offset hscale
        numExtraBytes
      refine ⟨n, fun fuel hfuel => ⟨(mergedBounds (first :: rest), b), ?_⟩⟩
      have hb' := hb fuel hfuel
      rw [mergedBounds] at hb'
      rw [fromScan, hb', Option.map_some, mergedBounds]
    · intro a
      obtain ⟨n, r, hr⟩ := exists_fitOffsetScale (first.offset a)
        ((mergedBounds (first :: rest)).lo a) ((mergedBounds (first :: rest)).hi a) (hscale a)
      exact ⟨n, r, leastFit_of_fitOffsetScale (hr n le_rfl), hr⟩

end Calls

/-- A file without a CRS, and a geometry whose scale along the first axis is zero. -/
def zeroScaleFile : LasHeader × FileGeometry :=
  (⟨none, none, [], 0, 6⟩,
    { bounds := ⟨0, 0, 0, 1, 1, 1⟩
      offset := fun _ => 0
      scale := fun a => if a = .x then 0 else 1 })

/-- The file is scanned and let through, and fitting it never ends. -/
theorem zero_scale_never_fits :
    (∃ out validated,
      scan plainExternals [zeroScaleFile.1] = .ok out ∧
      out.validate plainExternals ["a"] none = .ok validated) ∧
    ¬ CallsReturn zeroScaleFile.2 [] 0 ∧
    ∀ fuel, fromScan fuel [zeroScaleFile.2] 0 = none := by
  have hnone : ∀ fuel, fromScan fuel [zeroScaleFile.2] 0 = none := by
    intro fuel
    cases hfit : fitOffsetScale fuel 0 0 ([zeroScaleFile.2].foldl
        (fun s f => s.merge f.bounds) Bounds.empty).minX ([zeroScaleFile.2].foldl
        (fun s f => s.merge f.bounds) Bounds.empty).maxX with
    | some r => exact absurd rfl (scale_ne_zero_of_fitOffsetScale hfit)
    | none =>
      change (fitBuilder fuel _ _ _ _).map _ = none
      rw [fitBuilder]
      change ((fitOffsetScale fuel 0 0 _ _).bind _).map _ = none
      rw [hfit]
      rfl
  refine ⟨⟨_, _, rfl, rfl⟩, fun h => ?_, hnone⟩
  obtain ⟨⟨n, hn⟩, -⟩ := h
  obtain ⟨r, hr⟩ := hn n le_rfl
  rw [hnone] at hr
  cases hr

end CopcConverter
