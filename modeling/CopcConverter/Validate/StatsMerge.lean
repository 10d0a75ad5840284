import CopcConverter.Validate.ExtraBytes

/-!
# What the merge of the statistics changes

The merge rewrites every descriptor on its own: its options byte, and the minimum and maximum slots
of the fields for which some file has a finite statistic.  Everything else in the descriptor, and
every other descriptor, stays.  The loop over the fields and the loop over the files of a field are
taken together here into one description of the patched descriptor.

For a documented data type the options byte is a set of flags, and rewriting it by what was merged
is right.  For a field of type 0 it is the width of the field, but it is rewritten like a set of
flags, too.  So a descriptor without a data type stays as it is exactly when its options byte could
be such a set; a width of eight bytes survives, and a width of four bytes is lost.
-/

namespace CopcConverter

open Bytes (overwrite length_overwrite getElem?_overwrite getElem?_slice)

/-! ## Statistics over all files -/

/-- The stats of a field in one file. -/
def statsAt (fieldIdx : ℕ) (parsed : ParsedExtraBytes) : FieldStats :=
  parsed.stats.getD fieldIdx default

/-- Some file declares a no_data value for the field. -/
def noDataSeen (files : List ParsedExtraBytes) (fieldIdx : ℕ) : Bool :=
  files.any fun f => (statsAt fieldIdx f).optionsStats &&& noDataBit ≠ 0

/-- Some file has a finite minimum for the field. -/
def minSeen (files : List ParsedExtraBytes) (fieldIdx : ℕ) : Bool :=
  files.any fun f => (statsAt fieldIdx f).optionsStats &&& minBit ≠ 0 &&
    (statsAt fieldIdx f).min.s₀.isFinite

/-- Some file has a finite maximum for the field. -/
def maxSeen (files : List ParsedExtraBytes) (fieldIdx : ℕ) : Bool :=
  files.any fun f => (statsAt fieldIdx f).optionsStats &&& maxBit ≠ 0 &&
    (statsAt fieldIdx f).max.s₀.isFinite

/-- Whether a value went into the first axis. -/
lemma foldAxis_folded (better : F64 → F64 → Bool) (merged : F64 × Bool) (incoming : F64) :
    (foldAxis better merged incoming).2 = (merged.2 || incoming.isFinite) := by
  rw [foldAxis]
  by_cases h : incoming.isFinite = true
  · rw [if_pos h, h, Bool.or_true]
  · have hfalse : incoming.isFinite = false := Bool.eq_false_of_not_eq_true h
    rw [if_neg h, hfalse, Bool.or_false]

/-- Whether a value went into the first axis of a stat that a file may not declare. -/
lemma folded_declared (declared : Prop) [Decidable declared] (better : F64 → F64 → Bool)
    (merged : Slots (F64 × Bool)) (incoming : Slots F64) :
    (if declared then merged.zipWith (foldAxis better) incoming else merged).s₀.2 =
      (merged.s₀.2 || (decide declared && incoming.s₀.isFinite)) := by
  split_ifs with h
  · rw [decide_eq_true h, Bool.true_and]
    exact foldAxis_folded better merged.s₀ incoming.s₀
  · rw [decide_eq_false h, Bool.false_and, Bool.or_false]

/-- The fold over the files succeeds when the field counts agree, and what it has seen is what the
files have. -/
lemma foldlM_mergeFile {n : ℕ} {files : List ParsedExtraBytes}
    (hcount : ∀ f ∈ files, f.fields.length = n) (fieldIdx : ℕ) (m : FieldMerge) :
    ∃ m', files.foldlM (mergeFile n fieldIdx) m = .ok m' ∧
      m'.anyNoData = (m.anyNoData || noDataSeen files fieldIdx) ∧
      m'.min.s₀.2 = (m.min.s₀.2 || minSeen files fieldIdx) ∧
      m'.max.s₀.2 = (m.max.s₀.2 || maxSeen files fieldIdx) := by
  induction files generalizing m with
  | nil => exact ⟨m, rfl, by simp [noDataSeen], by simp [minSeen], by simp [maxSeen]⟩
  | cons f files ih =>
    obtain ⟨m₁, hm₁, hno₁, hmin₁, hmax₁⟩ : ∃ m₁, mergeFile n fieldIdx m f = .ok m₁ ∧
        m₁.anyNoData = (m.anyNoData || (statsAt fieldIdx f).optionsStats &&& noDataBit ≠ 0) ∧
        m₁.min.s₀.2 = (m.min.s₀.2 || ((statsAt fieldIdx f).optionsStats &&& minBit ≠ 0 &&
          (statsAt fieldIdx f).min.s₀.isFinite)) ∧
        m₁.max.s₀.2 = (m.max.s₀.2 || ((statsAt fieldIdx f).optionsStats &&& maxBit ≠ 0 &&
          (statsAt fieldIdx f).max.s₀.isFinite)) := by
      rw [mergeFile, if_neg (by simpa using hcount f List.mem_cons_self)]
      exact ⟨_, rfl, rfl, folded_declared _ _ _ _, folded_declared _ _ _ _⟩
    obtain ⟨m', hm', hno, hmin, hmax⟩ :=
      ih (fun g hg => hcount g (List.mem_cons_of_mem f hg)) m₁
    refine ⟨m', ?_, ?_, ?_, ?_⟩
    · rw [List.foldlM_cons, hm₁]
      exact hm'
    · rw [hno, hno₁, noDataSeen, noDataSeen, List.any_cons, Bool.or_assoc]
    · rw [hmin, hmin₁, minSeen, minSeen, List.any_cons, Bool.or_assoc]
    · rw [hmax, hmax₁, maxSeen, maxSeen, List.any_cons, Bool.or_assoc]

/-! ## One descriptor -/

/-- The data types whose stat slots have no defined encoding. -/
def Undocumented (dataType : UInt8) : Prop := dataType = 0 ∨ 11 ≤ dataType

instance (dataType : UInt8) : Decidable (Undocumented dataType) :=
  inferInstanceAs (Decidable (dataType = 0 ∨ 11 ≤ dataType))

lemma f64ToAnytype_undocumented {dataType : UInt8} (h : Undocumented dataType) (v : F64) :
    f64ToAnytype dataType v = none := by
  unfold f64ToAnytype
  rcases h with rfl | h
  · rfl
  · rw [UInt8.le_iff_toNat_le] at h
    have h11 : (11 : UInt8).toNat = 11 := rfl
    split <;> first | rfl | omega

/-- Without an encoding every slot is written as zero. -/
lemma encodeSlots_undocumented {dataType : UInt8} (h : Undocumented dataType)
    (merged : Slots (F64 × Bool)) : encodeSlots dataType merged = List.replicate 24 0 := by
  have hslot : ∀ e : F64 × Bool,
      Bytes.u64 (if e.2 then (f64ToAnytype dataType e.1).getD 0 else 0) = List.replicate 8 0 := by
    intro e
    rw [f64ToAnytype_undocumented h, Option.getD_none, ite_self]
    rfl
  simp only [encodeSlots, Slots.toList, List.flatMap_cons, List.flatMap_nil, hslot]
  rfl

/-- The options byte after the patch. -/
def mergedOptions (options : UInt8) (m : FieldMerge) : UInt8 :=
  (options &&& (scaleBit ||| offsetBit)) ||| (if m.anyNoData then noDataBit else 0) |||
    (if m.min.s₀.2 then minBit else 0) ||| (if m.max.s₀.2 then maxBit else 0)

/-- The options byte stays when its high bits are clear and its stat bits are what was seen. -/
lemma mergedOptions_eq_iff (options : UInt8) (m : FieldMerge) :
    mergedOptions options m = options ↔ options &&& 0b11100000 = 0 ∧
      (options &&& noDataBit ≠ 0 ↔ m.anyNoData = true) ∧
      (options &&& minBit ≠ 0 ↔ m.min.s₀.2 = true) ∧
      (options &&& maxBit ≠ 0 ↔ m.max.s₀.2 = true) := by
  unfold mergedOptions
  generalize m.anyNoData = a, m.min.s₀.2 = b, m.max.s₀.2 = c
  obtain ⟨⟨o⟩⟩ := options
  revert o a b c
  decide +kernel

/-- Patch one stat of a descriptor, if any file has it. -/
def patchStat (seen : Bool) (dataType : UInt8) (descriptor : List UInt8) (off : ℕ)
    (merged : Slots (F64 × Bool)) : List UInt8 :=
  if seen then overwrite descriptor off (encodeSlots dataType merged) else descriptor

lemma length_encodeSlots (dataType : UInt8) (merged : Slots (F64 × Bool)) :
    (encodeSlots dataType merged).length = 24 := by
  simp only [encodeSlots, Slots.toList, List.flatMap_cons, List.flatMap_nil, List.length_append,
    Bytes.length_u64, List.length_nil]

/-- A patched stat lies in its slots, and nothing else changes. -/
lemma getElem?_patchStat (seen : Bool) (dataType : UInt8) {d : List UInt8} {off : ℕ}
    (hoff : off + 24 ≤ d.length) (merged : Slots (F64 × Bool)) :
    (patchStat seen dataType d off merged).length = d.length ∧
      ∀ j : ℕ, (patchStat seen dataType d off merged)[j]? =
        if seen = true ∧ off ≤ j ∧ j < off + 24 then (encodeSlots dataType merged)[j - off]?
        else d[j]? := by
  have hfits : off + (encodeSlots dataType merged).length ≤ d.length := by
    rwa [length_encodeSlots]
  rw [patchStat]
  cases seen with
  | false => simp
  | true =>
    simp only [if_true, true_and]
    refine ⟨length_overwrite hfits, fun j => ?_⟩
    rw [getElem?_overwrite hfits, length_encodeSlots]

lemma patchDescriptor_eq (d : List UInt8) (m : FieldMerge) :
    patchDescriptor d m = patchStat m.max.s₀.2 (descriptorType d)
      (patchStat m.min.s₀.2 (descriptorType d)
        (d.set 3 (mergedOptions (descriptorOptions d) m)) 64 m.min) 88 m.max := rfl

/-- The bytes of a patched descriptor. -/
lemma getElem?_patchDescriptor {d : List UInt8} (hlen : d.length = descriptorSize)
    (m : FieldMerge) (j : ℕ) :
    (patchDescriptor d m)[j]? =
      if j = 3 then some (mergedOptions (descriptorOptions d) m)
      else if m.min.s₀.2 = true ∧ 64 ≤ j ∧ j < 88 then
        (encodeSlots (descriptorType d) m.min)[j - 64]?
      else if m.max.s₀.2 = true ∧ 88 ≤ j ∧ j < 112 then
        (encodeSlots (descriptorType d) m.max)[j - 88]?
      else d[j]? := by
  rw [descriptorSize] at hlen
  set options := mergedOptions (descriptorOptions d) m
  have hset : (d.set 3 options).length = 192 := by rw [List.length_set, hlen]
  have hfits : 64 + 24 ≤ (d.set 3 options).length := by omega
  obtain ⟨hlenMin, hmin⟩ := getElem?_patchStat m.min.s₀.2 (descriptorType d) hfits m.min
  have hfits' : 88 + 24 ≤ (patchStat m.min.s₀.2 (descriptorType d) (d.set 3 options) 64
      m.min).length := by omega
  obtain ⟨-, hmax⟩ := getElem?_patchStat m.max.s₀.2 (descriptorType d) hfits' m.max
  rw [patchDescriptor_eq, hmax, hmin, List.getElem?_set]
  split_ifs <;> first | rfl | omega

/-- The bytes of a patched descriptor without a data type. -/
lemma getElem?_patchDescriptor_undocumented {d : List UInt8} (hlen : d.length = descriptorSize)
    (hd : Undocumented (descriptorType d)) (m : FieldMerge) (j : ℕ) :
    (patchDescriptor d m)[j]? =
      if j = 3 then some (mergedOptions (descriptorOptions d) m)
      else if m.min.s₀.2 = true ∧ 64 ≤ j ∧ j < 88 then some 0
      else if m.max.s₀.2 = true ∧ 88 ≤ j ∧ j < 112 then some 0
      else d[j]? := by
  rw [getElem?_patchDescriptor hlen, encodeSlots_undocumented hd, encodeSlots_undocumented hd,
    List.getElem?_replicate, List.getElem?_replicate]
  split_ifs <;> first | rfl | omega

/-- A stretch of a descriptor is zero. -/
def ZeroFrom (d : List UInt8) (off : ℕ) : Prop := (d.drop off).take 24 = List.replicate 24 0

instance (d : List UInt8) (off : ℕ) : Decidable (ZeroFrom d off) :=
  inferInstanceAs (Decidable ((d.drop off).take 24 = List.replicate 24 0))

lemma zeroFrom_iff (d : List UInt8) (off : ℕ) :
    ZeroFrom d off ↔ ∀ j : ℕ, off ≤ j → j < off + 24 → d[j]? = some 0 := by
  rw [ZeroFrom]
  constructor
  · intro h j hlow hhigh
    have hj := congrArg (fun l : List UInt8 => l[j - off]?) h
    simp only [getElem?_slice, List.getElem?_replicate] at hj
    rw [if_pos (by omega), if_pos (by omega), Nat.add_sub_cancel' hlow] at hj
    exact hj
  · intro h
    apply List.ext_getElem?
    intro j
    rw [getElem?_slice, List.getElem?_replicate]
    split_ifs with hj
    · exact h (off + j) (Nat.le_add_right off j) (by omega)
    · rfl

/-- What has to hold of a descriptor without a data type for the merge to leave it as it is: its
options byte is the set of flags that the merge takes it for, its high bits clear and its stat bits
those of the statistics seen in the files, and a statistic that was seen is zero. -/
def OptionsAreFlags (files : List ParsedExtraBytes) (fieldIdx : ℕ) (d : List UInt8) : Prop :=
  descriptorOptions d &&& 0b11100000 = 0 ∧
    (descriptorOptions d &&& noDataBit ≠ 0 ↔ noDataSeen files fieldIdx = true) ∧
    (descriptorOptions d &&& minBit ≠ 0 ↔ minSeen files fieldIdx = true) ∧
    (descriptorOptions d &&& maxBit ≠ 0 ↔ maxSeen files fieldIdx = true) ∧
    (minSeen files fieldIdx = true → ZeroFrom d 64) ∧
    (maxSeen files fieldIdx = true → ZeroFrom d 88)

instance (files : List ParsedExtraBytes) (fieldIdx : ℕ) (d : List UInt8) :
    Decidable (OptionsAreFlags files fieldIdx d) :=
  inferInstanceAs (Decidable (_ ∧ (_ ↔ _) ∧ (_ ↔ _) ∧ (_ ↔ _) ∧ (_ → _) ∧ (_ → _)))

/-- A descriptor without a data type stays exactly when its options byte is a set of flags. -/
lemma patchDescriptor_eq_self_iff {d : List UInt8} (hlen : d.length = descriptorSize)
    (hd : Undocumented (descriptorType d)) {m : FieldMerge} {files : List ParsedExtraBytes}
    {fieldIdx : ℕ} (hno : m.anyNoData = noDataSeen files fieldIdx)
    (hmin : m.min.s₀.2 = minSeen files fieldIdx) (hmax : m.max.s₀.2 = maxSeen files fieldIdx) :
    patchDescriptor d m = d ↔ OptionsAreFlags files fieldIdx d := by
  have hbyte : d[3]? = some (descriptorOptions d) := by
    rw [descriptorOptions, List.getD_eq_getElem?_getD,
      List.getElem?_eq_getElem (by rw [hlen, descriptorSize]; decide), Option.getD_some]
  have hoptions : mergedOptions (descriptorOptions d) m = descriptorOptions d ↔ _ :=
    mergedOptions_eq_iff _ m
  rw [hno, hmin, hmax] at hoptions
  constructor
  · intro h
    have hj : ∀ j : ℕ, (patchDescriptor d m)[j]? = d[j]? := fun j => by rw [h]
    have h3 := hj 3
    rw [getElem?_patchDescriptor_undocumented hlen hd, if_pos rfl, hbyte] at h3
    obtain ⟨hhigh, hno', hmin', hmax'⟩ := hoptions.mp (Option.some.inj h3)
    refine ⟨hhigh, hno', hmin', hmax', fun hseen => ?_, fun hseen => ?_⟩
    · rw [zeroFrom_iff]
      intro j hlow hlt
      rw [← hj, getElem?_patchDescriptor_undocumented hlen hd, if_neg (by omega),
        if_pos ⟨hmin.trans hseen, hlow, hlt⟩]
    · rw [zeroFrom_iff]
      intro j hlow hlt
      rw [← hj, getElem?_patchDescriptor_undocumented hlen hd, if_neg (by omega), if_neg (by omega),
        if_pos ⟨hmax.trans hseen, hlow, hlt⟩]
  · rintro ⟨hhigh, hno', hmin', hmax', hzeroMin, hzeroMax⟩
    have heq := hoptions.mpr ⟨hhigh, hno', hmin', hmax'⟩
    apply List.ext_getElem?
    intro j
    rw [getElem?_patchDescriptor_undocumented hlen hd, heq]
    split_ifs with h3 hin hin
    · rw [h3, hbyte]
    · exact (((zeroFrom_iff d 64).mp (hzeroMin (hmin.symm.trans hin.1))) j hin.2.1 hin.2.2).symm
    · exact (((zeroFrom_iff d 88).mp (hzeroMax (hmax.symm.trans hin.1))) j hin.2.1 hin.2.2).symm
    · rfl

/-! ## The whole payload -/

/-- A descriptor of a payload. -/
def descriptorAt (payload : List UInt8) (i : ℕ) : List UInt8 :=
  (payload.drop (i * descriptorSize)).take descriptorSize

lemma length_descriptorAt {payload : List UInt8} {n i : ℕ}
    (hlen : payload.length = n * descriptorSize) (hi : i < n) :
    (descriptorAt payload i).length = descriptorSize := by
  rw [descriptorSize] at hlen
  rw [descriptorAt, List.length_take, List.length_drop, hlen, descriptorSize]
  omega

/-- The patch keeps the length of a descriptor. -/
lemma length_patchDescriptor {d : List UInt8} (hlen : d.length = descriptorSize) (m : FieldMerge) :
    (patchDescriptor d m).length = descriptorSize := by
  have hstat : ∀ (seen : Bool) (bytes : List UInt8) (off : ℕ) (merged : Slots (F64 × Bool)),
      bytes.length = descriptorSize → off + 24 ≤ descriptorSize →
      (patchStat seen (descriptorType d) bytes off merged).length = descriptorSize := by
    intro seen bytes off merged hbytes hoff
    rw [patchStat]
    split_ifs
    · rw [length_overwrite (by rwa [length_encodeSlots, hbytes]), hbytes]
    · exact hbytes
  rw [patchDescriptor_eq]
  apply hstat _ _ _ _ _ (by decide)
  apply hstat _ _ _ _ _ (by decide)
  rw [List.length_set, hlen]

/-- Writing one descriptor leaves the other ones. -/
lemma descriptorAt_overwrite {payload new : List UInt8} {i : ℕ}
    (hfits : i * descriptorSize + descriptorSize ≤ payload.length)
    (hnew : new.length = descriptorSize) (j : ℕ) :
    descriptorAt (overwrite payload (i * descriptorSize) new) j =
      if j = i then new else descriptorAt payload j := by
  have hget : ∀ k : ℕ, (overwrite payload (i * descriptorSize) new)[k]? = _ :=
    getElem?_overwrite (by rwa [hnew])
  rw [hnew] at hget
  apply List.ext_getElem?
  intro k
  rw [descriptorAt, getElem?_slice, hget]
  rw [descriptorSize] at *
  split_ifs with hk hin hji hji hji
  · congr 1
    omega
  · omega
  · omega
  · rw [descriptorAt, getElem?_slice, descriptorSize, if_pos hk]
  · rw [List.getElem?_eq_none (by omega)]
  · rw [descriptorAt, getElem?_slice, descriptorSize, if_neg hk]

/-- Every field of the list is patched with what its files have, and the other ones stay. -/
lemma mergeFields_spec {files : List ParsedExtraBytes} {n : ℕ}
    (hcount : ∀ f ∈ files, f.fields.length = n) {is : List ℕ} (hnodup : is.Nodup)
    (his : ∀ i ∈ is, i < n) {canonical : List UInt8}
    (hlen : canonical.length = n * descriptorSize) :
    (mergeFields files n is canonical).1 = .ok () ∧
      (mergeFields files n is canonical).2.length = canonical.length ∧
      (∀ i ∉ is, descriptorAt (mergeFields files n is canonical).2 i = descriptorAt canonical i) ∧
      ∀ i ∈ is, ∃ m, files.foldlM (mergeFile n i) FieldMerge.start = .ok m ∧
        descriptorAt (mergeFields files n is canonical).2 i =
          patchDescriptor (descriptorAt canonical i) m := by
  induction is generalizing canonical with
  | nil => exact ⟨rfl, rfl, fun i _ => rfl, fun i hi => absurd hi List.not_mem_nil⟩
  | cons i is ih =>
    obtain ⟨hi, hnodup⟩ := List.nodup_cons.mp hnodup
    have hin : i < n := his i List.mem_cons_self
    obtain ⟨m, hm, -⟩ := foldlM_mergeFile hcount i FieldMerge.start
    have hd : (descriptorAt canonical i).length = descriptorSize := length_descriptorAt hlen hin
    have hnew := length_patchDescriptor hd m
    have hfits : i * descriptorSize + descriptorSize ≤ canonical.length := by
      rw [hlen, ← Nat.succ_mul]
      exact Nat.mul_le_mul_right _ hin
    set next := overwrite canonical (i * descriptorSize)
      (patchDescriptor (descriptorAt canonical i) m) with hnext
    have hstep : mergeFields files n (i :: is) canonical = mergeFields files n is next := by
      rw [mergeFields, mergeField, hm]
      rfl
    have hother := descriptorAt_overwrite hfits hnew
    have hlenNext : next.length = n * descriptorSize := by
      rw [hnext, length_overwrite (by rwa [hnew]), hlen]
    obtain ⟨hok, hlenRest, hkeep, hpatch⟩ :=
      ih hnodup (fun j hj => his j (List.mem_cons_of_mem i hj)) hlenNext
    rw [hstep]
    refine ⟨hok, by rw [hlenRest, hlenNext, hlen], fun j hj => ?_, fun j hj => ?_⟩
    · rw [List.mem_cons, not_or] at hj
      rw [hkeep j hj.2, hnext, hother, if_neg hj.1]
    · rcases List.mem_cons.mp hj with rfl | hj
      · refine ⟨m, hm, ?_⟩
        rw [hkeep j hi, hnext, hother, if_pos rfl]
      · have hne : j ≠ i := fun h => hi (h ▸ hj)
        obtain ⟨m', hm', heq⟩ := hpatch j hj
        refine ⟨m', hm', ?_⟩
        rw [heq, hnext, hother, if_neg hne]

/-- **The merge leaves the descriptors without a data type as they are exactly when their options
bytes are sets of flags.**  The files are any parsed records with the field count of the payload. -/
theorem undocumented_kept_iff {canonical : List UInt8} {files : List ParsedExtraBytes}
    (hlen : canonical.length % descriptorSize = 0) (hfiles : files ≠ [])
    (hcount : ∀ f ∈ files, f.fields.length = canonical.length / descriptorSize) :
    (∀ i < canonical.length / descriptorSize,
      Undocumented (descriptorType (descriptorAt canonical i)) →
      descriptorAt (mergeStatsIntoCanonical canonical files).2 i = descriptorAt canonical i) ↔
    ∀ i < canonical.length / descriptorSize,
      Undocumented (descriptorType (descriptorAt canonical i)) →
      OptionsAreFlags files i (descriptorAt canonical i) := by
  have hmul : canonical.length = canonical.length / descriptorSize * descriptorSize :=
    (Nat.div_mul_cancel (Nat.dvd_of_mod_eq_zero hlen)).symm
  have hmerge : mergeStatsIntoCanonical canonical files = mergeFields files
      (canonical.length / descriptorSize) (List.range (canonical.length / descriptorSize))
      canonical := by
    rw [mergeStatsIntoCanonical, if_neg (by simpa using hfiles), if_neg (by simpa using hlen)]
  obtain ⟨-, -, -, hpatch⟩ := mergeFields_spec hcount List.nodup_range
    (fun i hi => List.mem_range.mp hi) hmul
  rw [hmerge]
  refine forall_congr' fun i => forall_congr' fun hi => forall_congr' fun hd => ?_
  obtain ⟨m, hm, heq⟩ := hpatch i (List.mem_range.mpr hi)
  obtain ⟨m', hm', hno, hmin, hmax⟩ := foldlM_mergeFile hcount i FieldMerge.start
  obtain rfl : m = m' := Except.ok.inj (hm.symm.trans hm')
  rw [heq]
  exact patchDescriptor_eq_self_iff (length_descriptorAt hmul hi) hd hno hmin hmax

/-! ## A field of bytes -/

/-- A descriptor of a field without a data type, whose options byte holds the width of the field. -/
def widthDescriptor (width : UInt8) : List UInt8 := [0, 0, 0, width] ++ List.replicate 188 0

/-- The parsed record with that descriptor alone. -/
def widthRecord (width : UInt8) : ParsedExtraBytes where
  fields := [parseSchema (widthDescriptor width)]
  stats := [parseStats (widthDescriptor width)]

/-- Fields of eight and of 24 bytes without a data type, with a short number that has a minimum
between them. -/
def mixedDescriptors (minimum : UInt8) : List (List UInt8) :=
  [widthDescriptor 8, ([0, 0, 3, minBit] ++ List.replicate 188 0).set 64 minimum,
    widthDescriptor 24]

/-- The records of a file with these fields. -/
def mixedRecord (minimum : UInt8) : ParsedExtraBytes where
  fields := (mixedDescriptors minimum).map parseSchema
  stats := (mixedDescriptors minimum).map parseStats

/-- The widths read as the bits of scale and offset and stay, while the minimum of the number is
merged. -/
theorem widths_kept :
    descriptorAt (mergeStatsIntoCanonical (mixedDescriptors 7).flatten
      [mixedRecord 7, mixedRecord 9]).2 0 = widthDescriptor 8 ∧
    descriptorAt (mergeStatsIntoCanonical (mixedDescriptors 7).flatten
      [mixedRecord 7, mixedRecord 9]).2 2 = widthDescriptor 24 := by
  have hthree : (mixedDescriptors 7).flatten.length / descriptorSize = 3 := by decide +kernel
  have hkept := (@undocumented_kept_iff (mixedDescriptors 7).flatten
    [mixedRecord 7, mixedRecord 9] (by decide +kernel) (by simp) (by decide +kernel)).mpr
  rw [hthree] at hkept
  have hflags : ∀ i < 3, i ≠ 1 → OptionsAreFlags [mixedRecord 7, mixedRecord 9] i
      (descriptorAt (mixedDescriptors 7).flatten i) := by decide +kernel
  have htypes : ∀ i < 3, i ≠ 1 ↔
      Undocumented (descriptorType (descriptorAt (mixedDescriptors 7).flatten i)) := by
    decide +kernel
  have hall := hkept fun j hj hdoc => hflags j hj ((htypes j hj).mpr hdoc)
  refine ⟨(hall 0 (by decide) ((htypes 0 (by decide)).mp (by decide))).trans ?_,
    (hall 2 (by decide) ((htypes 2 (by decide)).mp (by decide))).trans ?_⟩
  · decide +kernel
  · decide +kernel

/-- **A width of four bytes is lost**: it reads as the maximum bit, which no file's statistics
confirm, so that the width of the field in the output is zero. -/
theorem four_bytes_lost :
    ParsedExtraBytes.parse (widthDescriptor 4) = .ok (widthRecord 4) ∧
      Undocumented (descriptorType (descriptorAt (widthDescriptor 4) 0)) ∧
      descriptorAt (widthDescriptor 4) 0 = widthDescriptor 4 ∧
      descriptorAt (mergeStatsIntoCanonical (widthDescriptor 4) [widthRecord 4]).2 0 =
        widthDescriptor 0 ∧
      widthDescriptor 0 ≠ widthDescriptor 4 := by
  have hblocks : descriptors (widthDescriptor 4) = [widthDescriptor 4] := by decide +kernel
  have hmultiple : ¬ (widthDescriptor 4).length % descriptorSize ≠ 0 := by decide +kernel
  refine ⟨?_, Or.inl (by decide +kernel), by decide +kernel, by decide +kernel, by decide +kernel⟩
  rw [ParsedExtraBytes.parse, if_neg hmultiple, hblocks]
  rfl

end CopcConverter
